import OneOps.ListSplit
import Mathlib.Data.List.Nodup
import Mathlib.Logic.Relation

/-! Depth-first post-order over a lookup of dependencies. A node on the way to the current
one, or one that the lookup does not know, may be an error or be passed over. The recursion
is bounded by fuel that a finite lookup never uses up. -/
namespace DepthFirst

open ListSplit

variable {α : Type*} [DecidableEq α]

structure Search (α : Type*) where
  deps : α → Option (List α)
  raiseOnCycle : Bool
  raiseOnMissing : Bool

structure Walk (α : Type*) where
  active : List α
  ordered : List α

def visit (P : Search α) : ℕ → Walk α → α → Option (Walk α)
  | fuel, w, a =>
    if a ∈ w.ordered then some w
    else if a ∈ w.active then if P.raiseOnCycle then none else some w
    else
      match P.deps a with
      | none => if P.raiseOnMissing then none else some w
      | some ds =>
        match fuel with
        | 0 => none
        | fuel + 1 =>
          (ds.foldlM (visit P fuel) { w with active := a :: w.active }).map fun w' =>
            ⟨w.active, w'.ordered ++ [a]⟩

def postOrder (P : Search α) (fuel : ℕ) (roots : List α) : Option (List α) :=
  (roots.foldlM (visit P fuel) ⟨[], []⟩).map (·.ordered)

omit [DecidableEq α] in
/-- A rule for loops over a walk: what each visit keeps, the loop keeps. -/
theorem foldlM_rule {σ : Type*} {f : σ → α → Option σ} {I : σ → Prop} {xs : List α}
    (hstep : ∀ w x w', x ∈ xs → I w → f w x = some w' → I w') :
    ∀ {w w' : σ}, I w → xs.foldlM f w = some w' → I w' := by
  induction xs with
  | nil =>
    intro w w' hw h
    cases h
    exact hw
  | cons x xs ih =>
    intro w w' hw h
    rw [List.foldlM_cons] at h
    obtain ⟨v, hv, h⟩ := Option.bind_eq_some_iff.mp h
    exact ih (fun w y w' hy => hstep w y w' (List.mem_cons_of_mem _ hy))
      (hstep w x v List.mem_cons_self hw hv) h

theorem visit_cases {P : Search α} {fuel : ℕ} {w w' : Walk α} {a : α}
    (h : visit P fuel w a = some w') :
    (w' = w ∧ (a ∈ w.ordered ∨ (a ∈ w.active ∧ P.raiseOnCycle = false) ∨
        (P.deps a = none ∧ P.raiseOnMissing = false))) ∨
      ∃ f ds v, fuel = f + 1 ∧ P.deps a = some ds ∧ a ∉ w.ordered ∧ a ∉ w.active ∧
        ds.foldlM (visit P f) { w with active := a :: w.active } = some v ∧
        w' = ⟨w.active, v.ordered ++ [a]⟩ := by
  unfold visit at h
  by_cases ho : a ∈ w.ordered
  · rw [if_pos ho] at h
    cases h
    exact .inl ⟨rfl, .inl ho⟩
  rw [if_neg ho] at h
  by_cases ha : a ∈ w.active
  · rw [if_pos ha] at h
    by_cases hc : P.raiseOnCycle = true
    · rw [if_pos hc] at h
      cases h
    · rw [if_neg hc] at h
      cases h
      exact .inl ⟨rfl, .inr (.inl ⟨ha, by simpa using hc⟩)⟩
  rw [if_neg ha] at h
  cases hd : P.deps a with
  | none =>
    simp only [hd] at h
    by_cases hm : P.raiseOnMissing = true
    · rw [if_pos hm] at h
      cases h
    · rw [if_neg hm] at h
      cases h
      exact .inl ⟨rfl, .inr (.inr ⟨rfl, by simpa using hm⟩)⟩
  | some ds =>
    simp only [hd] at h
    cases fuel with
    | zero => cases h
    | succ f =>
      obtain ⟨v, hv, rfl⟩ := Option.map_eq_some_iff.mp h
      exact .inr ⟨f, ds, v, rfl, rfl, ho, ha, hv, rfl⟩

theorem visit_active {P : Search α} {fuel : ℕ} {w w' : Walk α} {a : α}
    (h : visit P fuel w a = some w') : w'.active = w.active := by
  rcases visit_cases h with ⟨rfl, _⟩ | ⟨_, _, _, _, _, _, _, _, rfl⟩ <;> rfl

def room (U : List α) (w : Walk α) : ℕ := (U.filter fun a => a ∉ w.active).length

theorem room_enter {U : List α} {w : Walk α} {a : α} (hU : a ∈ U) (ha : a ∉ w.active) :
    room U { w with active := a :: w.active } < room U w := by
  have hsub : (U.filter fun x => x ∉ a :: w.active).Sublist (U.filter fun x => x ∉ w.active) := by
    apply List.monotone_filter_right
    intro x hx
    simp only [List.mem_cons, not_or, decide_eq_true_eq] at hx ⊢
    exact hx.2
  refine lt_of_le_of_ne hsub.length_le ?_
  intro he
  have heq := hsub.eq_of_length he
  have hmem : a ∈ U.filter fun x => x ∉ w.active := List.mem_filter.mpr ⟨hU, by simpa using ha⟩
  rw [← heq] at hmem
  simp at hmem

omit [DecidableEq α] in
theorem foldlM_congr_of {σ : Type*} {f g : σ → α → Option σ} {I : σ → Prop} {xs : List α}
    (hfg : ∀ w x, I w → f w x = g w x) (hf : ∀ w x w', I w → f w x = some w' → I w') :
    ∀ {w : σ}, I w → xs.foldlM f w = xs.foldlM g w := by
  induction xs with
  | nil => intro w _; rfl
  | cons x xs ih =>
    intro w hw
    rw [List.foldlM_cons, List.foldlM_cons, ← hfg w x hw]
    cases h : f w x with
    | none => rfl
    | some v => exact ih (hf w x v hw h)

theorem visit_fuel {P : Search α} {U : List α} (hU : ∀ a, P.deps a ≠ none → a ∈ U) :
    ∀ (fuel : ℕ) (w : Walk α) (a : α), room U w ≤ fuel →
      visit P (fuel + 1) w a = visit P fuel w a := by
  intro fuel
  induction fuel with
  | zero =>
    intro w a hle
    unfold visit
    by_cases ho : a ∈ w.ordered
    · rw [if_pos ho, if_pos ho]
    rw [if_neg ho, if_neg ho]
    by_cases ha : a ∈ w.active
    · rw [if_pos ha, if_pos ha]
    rw [if_neg ha, if_neg ha]
    cases hd : P.deps a with
    | none => rfl
    | some ds =>
      have := room_enter (hU a (by simp [hd])) ha
      omega
  | succ fuel ih =>
    intro w a hle
    rw [visit, visit]
    by_cases ho : a ∈ w.ordered
    · rw [if_pos ho, if_pos ho]
    rw [if_neg ho, if_neg ho]
    by_cases ha : a ∈ w.active
    · rw [if_pos ha, if_pos ha]
    rw [if_neg ha, if_neg ha]
    cases hd : P.deps a with
    | none => rfl
    | some ds =>
      have hlt := room_enter (hU a (by simp [hd])) ha
      have hfold : ds.foldlM (visit P (fuel + 1)) { w with active := a :: w.active } =
          ds.foldlM (visit P fuel) { w with active := a :: w.active } := by
        apply foldlM_congr_of (I := fun v : Walk α => v.active = a :: w.active)
        · intro v x hv
          apply ih v x
          have : room U v = room U { w with active := a :: w.active } := by simp [room, hv]
          omega
        · intro v x v' hv h
          rw [visit_active h, hv]
        · rfl
      simp only [hfold]

theorem postOrder_fuel {P : Search α} {U : List α} (hU : ∀ a, P.deps a ≠ none → a ∈ U)
    (roots : List α) (k : ℕ) : postOrder P (U.length + k) roots = postOrder P U.length roots := by
  have hroom : ∀ w : Walk α, room U w ≤ U.length := fun w => List.length_filter_le _ _
  have hvisit : ∀ w a, visit P (U.length + k) w a = visit P U.length w a := by
    intro w a
    induction k with
    | zero => rfl
    | succ k ih =>
      have hle : room U w ≤ U.length + k := (hroom w).trans (Nat.le_add_right _ _)
      exact (visit_fuel hU (U.length + k) w a hle).trans ih
  rw [postOrder, funext fun w => funext (hvisit w), postOrder]

def Closed (deps : α → Option (List α)) (l : List α) : Prop :=
  AtEach (fun before x => ∀ ds, deps x = some ds → ∀ d ∈ ds, d ∈ before) l

omit [DecidableEq α] in
theorem Closed.snoc {deps : α → Option (List α)} {l : List α} {a : α} {ds : List α}
    (h : Closed deps l) (ha : deps a = some ds) (hd : ∀ d ∈ ds, d ∈ l) :
    Closed deps (l ++ [a]) := by
  refine atEach_snoc.mpr ⟨h, ?_⟩
  intro ds' ha'
  rw [ha] at ha'
  cases ha'
  exact hd

/-- What a walk has listed, and that it lists nothing that is on the way. -/
structure Listed (P : Search α) (w₀ w : Walk α) : Prop where
  active : w.active = w₀.active
  closed : Closed P.deps w.ordered
  nodup : w.ordered.Nodup
  keeps : ∀ x ∈ w₀.ordered, x ∈ w.ordered
  known : ∀ x ∈ w.ordered, P.deps x ≠ none
  apart : ∀ x ∈ w.ordered, x ∈ w₀.ordered ∨ x ∉ w₀.active

omit [DecidableEq α] in
theorem Listed.trans {P : Search α} {u v w : Walk α} (h : Listed P u v) (k : Listed P v w) :
    Listed P u w where
  active := k.active.trans h.active
  closed := k.closed
  nodup := k.nodup
  keeps x hx := k.keeps x (h.keeps x hx)
  known := k.known
  apart := by
    intro x hx
    rcases k.apart x hx with hv | hn
    · exact h.apart x hv
    · exact .inr (h.active ▸ hn)

structure Fit (P : Search α) (w : Walk α) : Prop where
  closed : Closed P.deps w.ordered
  nodup : w.ordered.Nodup
  known : ∀ x ∈ w.ordered, P.deps x ≠ none

omit [DecidableEq α] in
theorem Fit.refl {P : Search α} {w : Walk α} (h : Fit P w) : Listed P w w :=
  ⟨rfl, h.closed, h.nodup, fun _ hx => hx, h.known, fun _ hx => .inl hx⟩

omit [DecidableEq α] in
theorem Listed.fit {P : Search α} {u w : Walk α} (h : Listed P u w) : Fit P w :=
  ⟨h.closed, h.nodup, h.known⟩

omit [DecidableEq α] in
/-- A visit that does not enter its node finds it listed. -/
theorem Fit.stays {P : Search α} (hm : P.raiseOnMissing = true) {rank : α → ℕ} {w : Walk α} {a : α}
    (hw : Fit P w) (ha : ∀ x ∈ w.active, P.raiseOnCycle = true ∨ rank a < rank x)
    (h : a ∈ w.ordered ∨ (a ∈ w.active ∧ P.raiseOnCycle = false) ∨
      (P.deps a = none ∧ P.raiseOnMissing = false)) :
    Listed P w w ∧ a ∈ w.ordered := by
  rcases h with ho | ⟨ho, hc⟩ | ⟨_, ho⟩
  · exact ⟨hw.refl, ho⟩
  · rcases ha a ho with hr | hlt
    · rw [hc] at hr
      cases hr
    · exact absurd hlt (lt_irrefl _)
  · rw [hm] at ho
    cases ho

omit [DecidableEq α] in
theorem foldlM_listed {P : Search α} {f : Walk α → α → Option (Walk α)} {active ds : List α}
    (hf : ∀ {u u' : Walk α} {d : α}, d ∈ ds → Fit P u → u.active = active → f u d = some u' →
      Listed P u u' ∧ d ∈ u'.ordered) :
    ∀ {u u' : Walk α}, Fit P u → u.active = active → ds.foldlM f u = some u' →
      Listed P u u' ∧ ∀ d ∈ ds, d ∈ u'.ordered := by
  induction ds with
  | nil =>
    intro u u' hu _ h
    cases h
    exact ⟨hu.refl, by simp⟩
  | cons d ds ih =>
    intro u u' hu ha h
    rw [List.foldlM_cons] at h
    obtain ⟨m, hvis, h⟩ := Option.bind_eq_some_iff.mp h
    obtain ⟨hl, hd⟩ := hf List.mem_cons_self hu ha hvis
    obtain ⟨hrest, hds⟩ := ih (fun hd => hf (List.mem_cons_of_mem _ hd)) hl.fit
      (hl.active.trans ha) h
    refine ⟨hl.trans hrest, ?_⟩
    intro x hx
    rcases List.mem_cons.mp hx with rfl | hx
    · exact hrest.keeps x hd
    · exact hds x hx

omit [DecidableEq α] in
theorem Listed.leave {P : Search α} {w v : Walk α} {a : α} {ds : List α}
    (h : Listed P { w with active := a :: w.active } v) (hd : P.deps a = some ds)
    (hds : ∀ d ∈ ds, d ∈ v.ordered) (hao : a ∉ w.ordered) (haa : a ∉ w.active) :
    Listed P w ⟨w.active, v.ordered ++ [a]⟩ := by
  have hnew : a ∉ v.ordered := by
    intro hav
    rcases h.apart a hav with hav | hav
    · exact hao hav
    · exact hav List.mem_cons_self
  refine ⟨rfl, h.closed.snoc hd hds, ?_, ?_, ?_, ?_⟩
  · rw [List.nodup_append]
    refine ⟨h.nodup, by simp, ?_⟩
    rintro x hx y hy rfl
    exact hnew (List.mem_singleton.mp hy ▸ hx)
  · intro x hx
    exact List.mem_append_left _ (h.keeps x hx)
  · intro x hx
    rcases List.mem_append.mp hx with hx | hx
    · exact h.known x hx
    · rw [List.mem_singleton.mp hx, hd]
      simp
  · intro x hx
    rcases List.mem_append.mp hx with hx | hx
    · rcases h.apart x hx with hx | hx
      · exact .inl hx
      · exact .inr fun hm => hx (List.mem_cons_of_mem _ hm)
    · rw [List.mem_singleton.mp hx]
      exact .inr haa

/-- With dependencies of lower rank, or with cycles raised, nothing on the way is passed
over, so a visit lists its node after all it depends on. -/
theorem visit_listed {P : Search α} (hm : P.raiseOnMissing = true) {rank : α → ℕ}
    (hr : ∀ a ds, P.deps a = some ds → ∀ d ∈ ds, P.raiseOnCycle = true ∨ rank d < rank a) :
    ∀ (fuel : ℕ) {w w' : Walk α} {a : α}, Fit P w →
      (∀ x ∈ w.active, P.raiseOnCycle = true ∨ rank a < rank x) →
      visit P fuel w a = some w' → Listed P w w' ∧ a ∈ w'.ordered := by
  intro fuel
  induction fuel with
  | zero =>
    intro w w' a hw ha h
    rcases visit_cases h with ⟨rfl, hstay⟩ | ⟨f, _, _, hf, _⟩
    · exact hw.stays hm ha hstay
    · cases hf
  | succ fuel ih =>
    intro w w' a hw ha h
    rcases visit_cases h with ⟨rfl, hstay⟩ | ⟨f, ds, v, hf, hd, hao, haa, hv, rfl⟩
    · exact hw.stays hm ha hstay
    · cases hf
      have henter : Fit P { w with active := a :: w.active } := ⟨hw.closed, hw.nodup, hw.known⟩
      -- the loop lists every dependency with `a` on the way
      have hloop : Listed P { w with active := a :: w.active } v ∧ ∀ d ∈ ds, d ∈ v.ordered := by
        refine foldlM_listed ?_ henter rfl hv
        intro u u' d hmem hu hact hvis
        refine ih hu ?_ hvis
        intro x hx
        rw [hact] at hx
        rcases hr a ds hd d hmem with hc | hlt
        · exact .inl hc
        · rcases List.mem_cons.mp hx with rfl | hx
          · exact .inr hlt
          · exact (ha x hx).imp_right hlt.trans
      exact ⟨hloop.1.leave hd hloop.2 hao haa, by simp⟩

theorem postOrder_closed {P : Search α} (hm : P.raiseOnMissing = true) {rank : α → ℕ}
    (hr : ∀ a ds, P.deps a = some ds → ∀ d ∈ ds, P.raiseOnCycle = true ∨ rank d < rank a)
    {fuel : ℕ} {roots l : List α} (h : postOrder P fuel roots = some l) :
    Closed P.deps l ∧ l.Nodup ∧ (∀ x ∈ l, P.deps x ≠ none) ∧ ∀ x ∈ roots, x ∈ l := by
  obtain ⟨w, hw, rfl⟩ := Option.map_eq_some_iff.mp h
  have hloop : Listed P ⟨[], []⟩ w ∧ ∀ x ∈ roots, x ∈ w.ordered := by
    have hnone : (⟨[], []⟩ : Walk α).active = [] := rfl
    refine foldlM_listed ?_ ⟨atEach_nil, List.nodup_nil, by simp⟩ hnone hw
    intro u u' x _ hu hact hv
    exact visit_listed hm hr fuel hu (by simp [hact]) hv
  exact ⟨hloop.1.closed, hloop.1.nodup, hloop.1.known, hloop.2⟩

def Dep (deps : α → Option (List α)) (a d : α) : Prop := ∃ ds, deps a = some ds ∧ d ∈ ds

omit [DecidableEq α] in
theorem Closed.mem_of_reach {deps : α → Option (List α)} {l : List α} (h : Closed deps l) {a x : α}
    (hr : Relation.ReflTransGen (Dep deps) a x) (ha : a ∈ l) : x ∈ l := by
  induction hr with
  | refl => exact ha
  | tail _ hd ih =>
    obtain ⟨ds, hds, hmem⟩ := hd
    obtain ⟨before, rest, rfl⟩ := List.append_of_mem ih
    exact List.mem_append_left _ (h before _ rest rfl ds hds _ hmem)

/-- A visit lists nothing but what its node leads to. -/
theorem visit_reach {P : Search α} :
    ∀ (fuel : ℕ) {w w' : Walk α} {a : α}, visit P fuel w a = some w' →
      ∀ x ∈ w'.ordered, x ∈ w.ordered ∨ Relation.ReflTransGen (Dep P.deps) a x := by
  intro fuel
  induction fuel with
  | zero =>
    intro w w' a h x hx
    rcases visit_cases h with ⟨rfl, _⟩ | ⟨f, _, _, hf, _⟩
    · exact .inl hx
    · cases hf
  | succ fuel ih =>
    intro w w' a h x hx
    rcases visit_cases h with ⟨rfl, _⟩ | ⟨f, ds, v, hf, hd, _, _, hv, rfl⟩
    · exact .inl hx
    · cases hf
      have hloop : ∀ y ∈ v.ordered, y ∈ w.ordered ∨ Relation.ReflTransGen (Dep P.deps) a y := by
        refine foldlM_rule (I := fun u : Walk α => ∀ y ∈ u.ordered,
          y ∈ w.ordered ∨ Relation.ReflTransGen (Dep P.deps) a y) ?_ ?_ hv
        · intro u d u' hmem hu hvis y hy
          rcases ih hvis y hy with hy | hy
          · exact hu y hy
          · exact .inr (.head ⟨ds, hd, hmem⟩ hy)
        · exact fun y hy => .inl hy
      rcases List.mem_append.mp hx with hx | hx
      · exact hloop x hx
      · rw [List.mem_singleton.mp hx]
        exact .inr .refl

theorem postOrder_reach {P : Search α} {fuel : ℕ} {roots l : List α}
    (h : postOrder P fuel roots = some l) :
    ∀ x ∈ l, ∃ a ∈ roots, Relation.ReflTransGen (Dep P.deps) a x := by
  obtain ⟨w, hw, rfl⟩ := Option.map_eq_some_iff.mp h
  refine foldlM_rule (I := fun u : Walk α => ∀ x ∈ u.ordered,
    ∃ a ∈ roots, Relation.ReflTransGen (Dep P.deps) a x) ?_ (by simp) hw
  intro u a u' hmem hu hvis x hx
  rcases visit_reach fuel hvis x hx with hx | hx
  · exact hu x hx
  · exact ⟨a, hmem, hx⟩

/-- Why a visit can fail: it comes back to a node on the way, or it comes to a node that
the lookup does not know. -/
def Stuck (P : Search α) (active : List α) (a : α) : Prop :=
  ∃ x, Relation.ReflTransGen (Dep P.deps) a x ∧
    ((P.raiseOnCycle = true ∧ (x ∈ active ∨ Relation.TransGen (Dep P.deps) x x)) ∨
      (P.raiseOnMissing = true ∧ P.deps x = none))

omit [DecidableEq α] in
theorem Stuck.leave {P : Search α} {active : List α} {a d : α} (had : Dep P.deps a d)
    (h : Stuck P (a :: active) d) : Stuck P active a := by
  obtain ⟨x, hx, hwhy⟩ := h
  refine ⟨x, .head had hx, ?_⟩
  rcases hwhy with ⟨hc, hact | hcyc⟩ | hmiss
  · rcases List.mem_cons.mp hact with rfl | hact
    · exact .inl ⟨hc, .inr (.head' had hx)⟩
    · exact .inl ⟨hc, .inl hact⟩
  · exact .inl ⟨hc, .inr hcyc⟩
  · exact .inr hmiss

omit [DecidableEq α] in
theorem foldlM_none {σ : Type*} {f : σ → α → Option σ} {I : σ → Prop} {xs : List α}
    (hstep : ∀ w x w', I w → f w x = some w' → I w') :
    ∀ {w : σ}, I w → xs.foldlM f w = none → ∃ v, ∃ x ∈ xs, I v ∧ f v x = none := by
  induction xs with
  | nil =>
    intro w _ h
    cases h
  | cons x xs ih =>
    intro w hw h
    rw [List.foldlM_cons] at h
    cases hf : f w x with
    | none => exact ⟨w, x, List.mem_cons_self, hw, hf⟩
    | some v =>
      rw [hf] at h
      obtain ⟨u, y, hy, hu, hn⟩ := ih (hstep w x v hw hf) h
      exact ⟨u, y, List.mem_cons_of_mem _ hy, hu, hn⟩

theorem visit_none_cases {P : Search α} {fuel : ℕ} {w : Walk α} {a : α}
    (h : visit P fuel w a = none) :
    (a ∈ w.active ∧ P.raiseOnCycle = true) ∨ (P.deps a = none ∧ P.raiseOnMissing = true) ∨
      ∃ ds, P.deps a = some ds ∧ a ∉ w.active ∧
        ∀ f, fuel = f + 1 → ds.foldlM (visit P f) { w with active := a :: w.active } = none := by
  unfold visit at h
  by_cases ho : a ∈ w.ordered
  · rw [if_pos ho] at h
    cases h
  rw [if_neg ho] at h
  by_cases ha : a ∈ w.active
  · rw [if_pos ha] at h
    by_cases hc : P.raiseOnCycle = true
    · exact .inl ⟨ha, hc⟩
    · rw [if_neg hc] at h
      cases h
  rw [if_neg ha] at h
  cases hd : P.deps a with
  | none =>
    simp only [hd] at h
    by_cases hm : P.raiseOnMissing = true
    · exact .inr (.inl ⟨rfl, hm⟩)
    · rw [if_neg hm] at h
      cases h
  | some ds =>
    refine .inr (.inr ⟨ds, rfl, ha, ?_⟩)
    rintro f rfl
    simpa only [hd, Option.map_eq_none_iff] using h

theorem visit_none {P : Search α} {U : List α} (hU : ∀ a, P.deps a ≠ none → a ∈ U) :
    ∀ (fuel : ℕ) {w : Walk α} {a : α}, room U w ≤ fuel → visit P fuel w a = none →
      Stuck P w.active a := by
  intro fuel
  induction fuel with
  | zero =>
    intro w a hle h
    rcases visit_none_cases h with ⟨ha, hc⟩ | ⟨hd, hm⟩ | ⟨ds, hd, ha, _⟩
    · exact ⟨a, .refl, .inl ⟨hc, .inl ha⟩⟩
    · exact ⟨a, .refl, .inr ⟨hm, hd⟩⟩
    · have := room_enter (hU a (by simp [hd])) ha
      omega
  | succ fuel ih =>
    intro w a hle h
    rcases visit_none_cases h with ⟨ha, hc⟩ | ⟨hd, hm⟩ | ⟨ds, hd, ha, hloop⟩
    · exact ⟨a, .refl, .inl ⟨hc, .inl ha⟩⟩
    · exact ⟨a, .refl, .inr ⟨hm, hd⟩⟩
    · have hlt := room_enter (hU a (by simp [hd])) ha
      obtain ⟨v, d, hmem, hv, hn⟩ := foldlM_none
        (I := fun v : Walk α => v.active = a :: w.active)
        (fun u x u' hu hvis => (visit_active hvis).trans hu) rfl (hloop fuel rfl)
      have hroom : room U v = room U { w with active := a :: w.active } := by simp [room, hv]
      have hstuck := ih (by omega) hn
      rw [hv] at hstuck
      exact hstuck.leave ⟨ds, hd, hmem⟩

theorem postOrder_none {P : Search α} {U roots : List α} (hU : ∀ a, P.deps a ≠ none → a ∈ U)
    (h : postOrder P U.length roots = none) : ∃ a ∈ roots, Stuck P [] a := by
  obtain ⟨v, a, hmem, hv, hn⟩ := foldlM_none (I := fun v : Walk α => v.active = [])
    (fun u x u' hu hvis => (visit_active hvis).trans hu) rfl (Option.map_eq_none_iff.mp h)
  refine ⟨a, hmem, ?_⟩
  rw [← hv]
  exact visit_none hU U.length (List.length_filter_le _ _) hn

def knownDeps (deps : α → Option (List α)) (a : α) : Option (List α) :=
  (deps a).map fun ds => ds.filter fun d => (deps d).isSome

omit [DecidableEq α] in
theorem knownDeps_eq_none {deps : α → Option (List α)} {a : α} :
    knownDeps deps a = none ↔ deps a = none :=
  Option.map_eq_none_iff

theorem visit_unknown {deps : α → Option (List α)} {c : Bool} {fuel : ℕ} {w : Walk α} {a : α}
    (hw : ∀ x ∈ w.active, deps x ≠ none) (ha : deps a = none) :
    visit ⟨deps, c, false⟩ fuel w a = some w := by
  unfold visit
  by_cases ho : a ∈ w.ordered
  · rw [if_pos ho]
  · rw [if_neg ho, if_neg fun hact => hw a hact ha]
    simp [ha]

omit [DecidableEq α] in
theorem foldlM_known {deps : α → Option (List α)} {f g : Walk α → α → Option (Walk α)}
    (active : List α) (hf : ∀ w a, w.active = active → deps a ≠ none → f w a = g w a)
    (hskip : ∀ w a, w.active = active → deps a = none → f w a = some w)
    (hact : ∀ w a w', f w a = some w' → w'.active = w.active) :
    ∀ {ds : List α} {w : Walk α}, w.active = active →
      ds.foldlM f w = (ds.filter fun d => (deps d).isSome).foldlM g w := by
  intro ds
  induction ds with
  | nil => intro w _; rfl
  | cons d ds ih =>
    intro w hw
    cases hd : deps d with
    | none =>
      rw [List.foldlM_cons, hskip w d hw hd, List.filter_cons_of_neg (by simp [hd])]
      exact ih hw
    | some l =>
      rw [List.foldlM_cons, List.filter_cons_of_pos (by simp [hd]), List.foldlM_cons,
        ← hf w d hw (by simp [hd])]
      cases hv : f w d with
      | none => rfl
      | some v => exact ih ((hact w d v hv).trans hw)

/-- A search that passes unknown nodes over visits the known ones as a search without
them does. -/
theorem visit_known {deps : α → Option (List α)} {c : Bool} :
    ∀ (fuel : ℕ) (w : Walk α) (a : α), (∀ x ∈ w.active, deps x ≠ none) → deps a ≠ none →
      visit ⟨deps, c, false⟩ fuel w a = visit ⟨knownDeps deps, c, true⟩ fuel w a := by
  intro fuel
  induction fuel with
  | zero =>
    intro w a _ ha
    obtain ⟨ds, hd⟩ := Option.ne_none_iff_exists'.mp ha
    rw [visit, visit]
    simp only [hd, knownDeps, Option.map_some]
  | succ fuel ih =>
    intro w a hw ha
    obtain ⟨ds, hd⟩ := Option.ne_none_iff_exists'.mp ha
    have hin : ∀ x ∈ a :: w.active, deps x ≠ none := List.forall_mem_cons.mpr ⟨ha, hw⟩
    have hloop : ds.foldlM (visit ⟨deps, c, false⟩ fuel) { w with active := a :: w.active } =
        (ds.filter fun d => (deps d).isSome).foldlM (visit ⟨knownDeps deps, c, true⟩ fuel)
          { w with active := a :: w.active } :=
      foldlM_known (a :: w.active) (fun v x hv hx => ih v x (hv ▸ hin) hx)
        (fun v x hv hx => visit_unknown (hv ▸ hin) hx) (fun v x v' hv => visit_active hv) rfl
    rw [visit, visit]
    simp only [hd, knownDeps, Option.map_some, hloop]

theorem postOrder_known (deps : α → Option (List α)) (c : Bool) (fuel : ℕ) (roots : List α) :
    postOrder ⟨deps, c, false⟩ fuel roots =
      postOrder ⟨knownDeps deps, c, true⟩ fuel (roots.filter fun a => (deps a).isSome) := by
  have hin : ∀ {v : Walk α}, v.active = [] → ∀ x ∈ v.active, deps x ≠ none := by
    intro v hv x hx
    rw [hv] at hx
    cases hx
  rw [postOrder, postOrder]
  congr 1
  exact foldlM_known [] (fun v x hv hx => visit_known fuel v x (hin hv) hx)
    (fun v x hv hx => visit_unknown (hin hv) hx) (fun v x v' hv => visit_active hv) rfl

section Whole

variable {deps : α → Option (List α)} {nodes : List α}

/-- A search from every node, with cycles raised and unknown nodes passed over. -/
def orderAll (deps : α → Option (List α)) (nodes : List α) : Option (List α) :=
  postOrder ⟨deps, true, false⟩ nodes.length nodes

theorem orderAll_closed {l : List α} (h : orderAll deps nodes = some l)
    (hn : ∀ a, a ∈ nodes ↔ deps a ≠ none) :
    Closed (knownDeps deps) l ∧ l.Nodup ∧ ∀ x, x ∈ l ↔ x ∈ nodes := by
  rw [orderAll, postOrder_known] at h
  have hcycle : ∀ a ds, knownDeps deps a = some ds → ∀ d ∈ ds,
      true = true ∨ (fun _ : α => 0) d < (fun _ : α => 0) a := fun _ _ _ _ _ => .inl rfl
  obtain ⟨hc, hnd, hk, hroots⟩ := postOrder_closed (P := ⟨knownDeps deps, true, true⟩) rfl
    hcycle h
  refine ⟨hc, hnd, ?_⟩
  intro x
  constructor
  · intro hx
    exact (hn x).mpr (mt knownDeps_eq_none.mpr (hk x hx))
  · intro hx
    apply hroots
    refine List.mem_filter.mpr ⟨hx, ?_⟩
    exact Option.isSome_iff_ne_none.mpr ((hn x).mp hx)

/-- Along a closed order that has every node no path comes back. -/
theorem Closed.acyclic {l : List α} (h : Closed deps l)
    (hall : ∀ x, deps x ≠ none → x ∈ l) (x : α) :
    ¬ Relation.TransGen (Dep deps) x x := by
  have hrank : ∀ {a b}, Relation.TransGen (Dep deps) a b → l.idxOf b < l.idxOf a := by
    intro a b hab
    have hstep : ∀ {c d}, Dep deps c d → l.idxOf d < l.idxOf c := by
      rintro c d ⟨ds, hds, hmem⟩
      have hat : AtEach (fun before x => ∀ d, Dep deps x d → d ∈ before) l := by
        rintro before y rest he d ⟨ds, hds, hmem⟩
        exact h before y rest he ds hds d hmem
      exact hat.idxOf_lt (hall c (by simp [hds])) ⟨ds, hds, hmem⟩
    induction hab with
    | single hd => exact hstep hd
    | tail _ hd ih => exact (hstep hd).trans ih
  exact fun hx => lt_irrefl _ (hrank hx)

theorem orderAll_none (hn : ∀ a, a ∈ nodes ↔ deps a ≠ none) :
    orderAll deps nodes = none ↔ ∃ x, Relation.TransGen (Dep (knownDeps deps)) x x := by
  have hall : ∀ x, knownDeps deps x ≠ none → x ∈ nodes :=
    fun x hx => (hn x).mpr (mt knownDeps_eq_none.mpr hx)
  constructor
  · intro h
    rw [orderAll, postOrder_known] at h
    obtain ⟨a, ha, x, hx, hwhy⟩ := postOrder_none (U := nodes) hall h
    rcases hwhy with ⟨_, hact | hcyc⟩ | ⟨_, hmiss⟩
    · cases hact
    · exact ⟨x, hcyc⟩
    · -- every node on the way is known
      have hknown : knownDeps deps x ≠ none := by
        rcases Relation.ReflTransGen.cases_tail hx with rfl | ⟨b, _, ds, hds, hmem⟩
        · exact mt knownDeps_eq_none.mp
            (Option.isSome_iff_ne_none.mp (List.mem_filter.mp ha).2)
        · obtain ⟨ds', _, rfl⟩ := Option.map_eq_some_iff.mp hds
          exact mt knownDeps_eq_none.mp
            (Option.isSome_iff_ne_none.mp (List.mem_filter.mp hmem).2)
      exact absurd hmiss hknown
  · rintro ⟨x, hx⟩
    cases h : orderAll deps nodes with
    | none => rfl
    | some l =>
      obtain ⟨hc, _, hl⟩ := orderAll_closed h hn
      exact absurd hx (hc.acyclic (fun y hy => (hl y).mpr (hall y hy)) x)

end Whole

end DepthFirst
