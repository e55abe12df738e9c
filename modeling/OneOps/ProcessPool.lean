import Mathlib.Data.List.Flatten
import Mathlib.Data.List.Nodup
import Mathlib.Logic.Relation

/-! Processes that interleave over one shared store. A process advances one atomic step
at a time on an input of the environment; runs take the steps in any order. The rules
are induction over a run, rely-guarantee for facts about single processes, and counting
for tokens that the processes hold. -/
namespace ProcessPool

variable {σ π ι ε τ : Type*}

structure Pool (σ π : Type*) where
  shared : σ
  procs : List π

structure Machine (σ π ι ε : Type*) where
  step : ι → σ → π → σ × π
  env : ε → σ → σ

inductive Event (π ι ε : Type*) where
  | spawn (p : π)
  | act (i : ℕ) (inp : ι)
  | env (e : ε)

/-- An action of an index that holds no process changes nothing. -/
def next (M : Machine σ π ι ε) (s : Pool σ π) : Event π ι ε → Pool σ π
  | .spawn p => { s with procs := s.procs ++ [p] }
  | .act i inp =>
    match s.procs[i]? with
    | none => s
    | some p => ⟨(M.step inp s.shared p).1, s.procs.set i (M.step inp s.shared p).2⟩
  | .env e => { s with shared := M.env e s.shared }

def Step (M : Machine σ π ι ε) (G : Pool σ π → Event π ι ε → Prop) (s t : Pool σ π) : Prop :=
  ∃ e, G s e ∧ t = next M s e

def Run (M : Machine σ π ι ε) (G : Pool σ π → Event π ι ε → Prop) : Pool σ π → Pool σ π → Prop :=
  Relation.ReflTransGen (Step M G)

def play (M : Machine σ π ι ε) (s : Pool σ π) (es : List (Event π ι ε)) : Pool σ π :=
  es.foldl (next M) s

variable {M : Machine σ π ι ε} {G H : Pool σ π → Event π ι ε → Prop}

theorem next_act {s : Pool σ π} {i : ℕ} {p : π} (h : s.procs[i]? = some p) (inp : ι) :
    next M s (.act i inp) =
      ⟨(M.step inp s.shared p).1, s.procs.set i (M.step inp s.shared p).2⟩ := by
  simp [next, h]

theorem next_idle {s : Pool σ π} {i : ℕ} (h : s.procs[i]? = none) (inp : ι) :
    next M s (.act i inp) = s := by
  simp [next, h]

theorem getElem?_set_cases {ps : List π} {i j : ℕ} {q r : π} (h : (ps.set i q)[j]? = some r) :
    (i = j ∧ r = q) ∨ (i ≠ j ∧ ps[j]? = some r) := by
  rw [List.getElem?_set] at h
  split_ifs at h with hij hlt
  · exact .inl ⟨hij, (Option.some.inj h).symm⟩
  · exact .inr ⟨hij, h⟩

theorem getElem?_set_at {ps : List π} {i : ℕ} {p : π} (hi : ps[i]? = some p) (q : π) :
    (ps.set i q)[i]? = some q := by
  rw [List.getElem?_set_self (List.getElem?_eq_some_iff.mp hi).1]

/-- Some process has `P` after a step that keeps `P` of the process that takes it. -/
theorem exists_mem_set {P : π → Prop} {ps : List π} {i : ℕ} {p q : π} (hi : ps[i]? = some p)
    (hq : P p → P q) (h : ∃ r ∈ ps, P r) : ∃ r ∈ ps.set i q, P r := by
  obtain ⟨r, hr, hp⟩ := h
  obtain ⟨j, hj⟩ := List.mem_iff_getElem?.mp hr
  by_cases hij : i = j
  · subst hij
    have hrp : r = p := Option.some.inj (hj.symm.trans hi)
    have hlt := (List.getElem?_eq_some_iff.mp hi).1
    exact ⟨q, List.mem_set hlt q, hq (hrp ▸ hp)⟩
  · refine ⟨r, List.mem_of_getElem? (i := j) ?_, hp⟩
    rw [List.getElem?_set_ne hij]
    exact hj

theorem Run.invariant {Inv : Pool σ π → Prop} {s t : Pool σ π} (hr : Run M G s t) (hs : Inv s)
    (hstep : ∀ s e, G s e → Inv s → Inv (next M s e)) : Inv t := by
  induction hr with
  | refl => exact hs
  | tail _ h ih =>
    obtain ⟨e, hg, rfl⟩ := h
    exact hstep _ e hg ih

def Admits (M : Machine σ π ι ε) (G : Pool σ π → Event π ι ε → Prop) :
    Pool σ π → List (Event π ι ε) → Prop
  | _, [] => True
  | s, e :: es => G s e ∧ Admits M G (next M s e) es

theorem run_play : ∀ (es : List (Event π ι ε)) {s : Pool σ π}, Admits M G s es →
    Run M G s (play M s es) := by
  intro es
  induction es with
  | nil => intro s _; exact .refl
  | cons e es ih => intro s h; exact .head ⟨e, h.1, rfl⟩ (ih h.2)

/-- `L` is a fact about one process over the store, `R` what the others may do to the
store. Each step of a process keeps its own `L` and stays within `R`. -/
structure RelyGuarantee (M : Machine σ π ι ε) (G : Pool σ π → Event π ι ε → Prop)
    (I : Pool σ π → Prop) (R : σ → σ → Prop) (L : σ → π → Prop) : Prop where
  act : ∀ s i inp p, G s (.act i inp) → I s → s.procs[i]? = some p → L s.shared p →
    R s.shared (M.step inp s.shared p).1 ∧
      L (M.step inp s.shared p).1 (M.step inp s.shared p).2
  env : ∀ s e, G s (.env e) → I s → R s.shared (M.env e s.shared)
  spawn : ∀ s p, G s (.spawn p) → I s → L s.shared p
  stable : ∀ w w' p, R w w' → L w p → L w' p
  refl : ∀ w, R w w

def Holds (L : σ → π → Prop) (s : Pool σ π) : Prop := ∀ p ∈ s.procs, L s.shared p

section

variable {I : Pool σ π → Prop} {R : σ → σ → Prop} {L : σ → π → Prop}

theorem RelyGuarantee.next_rely (rg : RelyGuarantee M G I R L) {s : Pool σ π} {e : Event π ι ε}
    (hg : G s e) (hi : I s) (hl : Holds L s) : R s.shared (next M s e).shared := by
  cases e with
  | spawn p => exact rg.refl _
  | env x => exact rg.env s x hg hi
  | act i inp =>
    cases h : s.procs[i]? with
    | none => rw [next_idle h]; exact rg.refl _
    | some p =>
      rw [next_act h]
      exact (rg.act s i inp p hg hi h (hl p (List.mem_of_getElem? h))).1

theorem RelyGuarantee.next_holds (rg : RelyGuarantee M G I R L) {s : Pool σ π} {e : Event π ι ε}
    (hg : G s e) (hi : I s) (hl : Holds L s) : Holds L (next M s e) := by
  have hr := rg.next_rely hg hi hl
  intro q hq
  cases e with
  | spawn p =>
    rcases List.mem_append.mp hq with hq | hq
    · exact hl q hq
    · rw [List.mem_singleton.mp hq]
      exact rg.spawn s p hg hi
  | env x => exact rg.stable _ _ q hr (hl q hq)
  | act i inp =>
    cases h : s.procs[i]? with
    | none => rw [next_idle h] at hq ⊢; exact hl q hq
    | some p =>
      have hp := hl p (List.mem_of_getElem? h)
      rw [next_act h] at hq hr ⊢
      rcases List.mem_or_eq_of_mem_set hq with hq | rfl
      · exact rg.stable _ _ q hr (hl q hq)
      · exact (rg.act s i inp p hg hi h hp).2

end

section Tokens

variable [BEq τ]

def held (f : π → List τ) (ps : List π) : List τ := ps.flatMap f

theorem count_held_set (f : π → List τ) (x : τ) :
    ∀ {ps : List π} {i : ℕ} {p : π}, ps[i]? = some p → ∀ q : π,
      (held f (ps.set i q)).count x + (f p).count x = (held f ps).count x + (f q).count x := by
  intro ps
  induction ps with
  | nil => intro i p h; simp at h
  | cons a ps ih =>
    intro i p h q
    cases i with
    | zero =>
      simp only [List.getElem?_cons_zero, Option.some.injEq] at h
      subst h
      simp only [held, List.set_cons_zero, List.flatMap_cons, List.count_append]
      omega
    | succ i =>
      have := ih (i := i) (by simpa using h) q
      simp only [held, List.set_cons_succ, List.flatMap_cons, List.count_append] at this ⊢
      omega

theorem count_held_append (f : π → List τ) (x : τ) (ps : List π) (p : π) :
    (held f (ps ++ [p])).count x = (held f ps).count x + (f p).count x := by
  simp [held, List.flatMap_append, List.count_append]

theorem count_le_held (f : π → List τ) (x : τ) {ps : List π} {p : π} (h : p ∈ ps) :
    (f p).count x ≤ (held f ps).count x := by
  obtain ⟨a, b, rfl⟩ := List.append_of_mem h
  simp only [held, List.flatMap_append, List.flatMap_cons, List.count_append]
  omega

variable [LawfulBEq τ] in
/-- A token that exists once has one holder. -/
theorem holder_unique (f : π → List τ) {x : τ} :
    ∀ {ps : List π}, (held f ps).count x ≤ 1 → ∀ {i j : ℕ} {p q : π}, ps[i]? = some p →
      ps[j]? = some q → x ∈ f p → x ∈ f q → i = j := by
  intro ps
  induction ps with
  | nil => intro _ i j p q h; simp at h
  | cons a ps ih =>
    intro hc i j p q hi hj hp hq
    simp only [held, List.flatMap_cons, List.count_append] at hc
    have hpos : ∀ r ∈ ps, x ∈ f r → 0 < (held f ps).count x := fun r hr hx =>
      Nat.lt_of_lt_of_le (List.count_pos_iff.mpr hx) (count_le_held f x hr)
    cases i with
    | zero =>
      cases j with
      | zero => rfl
      | succ j =>
        simp only [List.getElem?_cons_zero, Option.some.injEq] at hi
        subst hi
        have h₁ := List.count_pos_iff.mpr hp
        have h₂ := hpos q (List.mem_of_getElem? (by simpa using hj)) hq
        simp only [held] at h₂
        omega
    | succ i =>
      cases j with
      | zero =>
        simp only [List.getElem?_cons_zero, Option.some.injEq] at hj
        subst hj
        have h₁ := List.count_pos_iff.mpr hq
        have h₂ := hpos p (List.mem_of_getElem? (by simpa using hi)) hp
        simp only [held] at h₂
        omega
      | succ j =>
        have := ih (by simp only [held]; omega) (i := i) (j := j) (by simpa using hi)
          (by simpa using hj) hp hq
        rw [this]

end Tokens

section Notes

/-- The machine with a note beside every process, taken before each of its steps. -/
def Machine.noting (M : Machine σ π ι ε) (note : σ → π → τ → τ) : Machine σ (π × τ) ι ε where
  step inp w p := ((M.step inp w p.1).1, (M.step inp w p.1).2, note w p.1 p.2)
  env := M.env

def erase (s : Pool σ (π × τ)) : Pool σ π := ⟨s.shared, s.procs.map Prod.fst⟩

def Event.erase : Event (π × τ) ι ε → Event π ι ε
  | .spawn p => .spawn p.1
  | .act i inp => .act i inp
  | .env e => .env e

/-- Notes watch the run and do not influence it. -/
theorem erase_next (note : σ → π → τ → τ) (s : Pool σ (π × τ)) (e : Event (π × τ) ι ε) :
    erase (next (M.noting note) s e) = next M (erase s) e.erase := by
  cases e with
  | spawn p => simp [erase, next, Event.erase]
  | env x => rfl
  | act i inp =>
    cases h : s.procs[i]? with
    | none =>
      have he : (erase s).procs[i]? = none := by simpa [erase] using h
      rw [next_idle h, Event.erase, next_idle he]
    | some p =>
      have he : (erase s).procs[i]? = some p.1 := by simp [erase, h]
      rw [next_act h, Event.erase, next_act he]
      simp [erase, Machine.noting, List.map_set]

end Notes

end ProcessPool
