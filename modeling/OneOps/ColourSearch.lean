import OneOps.ListSplit
import Mathlib.Data.List.Nodup
import Mathlib.Data.List.Chain
import Mathlib.Algebra.Group.Nat.Defs
import Mathlib.Algebra.Order.BigOperators.Group.List
import Mathlib.Algebra.Order.Ring.Nat
import Mathlib.Logic.Relation

/-! Search for a cycle with an explicit stack and three colours. A white node is new, a grey
one is on the path from the start, and a black one is finished. A frame counts how many of
its node's successors it has looked at. The search stops at the first grey successor. -/
namespace ColourSearch

open ListSplit

variable {α : Type*} [DecidableEq α]

inductive Colour where
  | white | grey | black
  deriving DecidableEq, Repr

/-- The frames have the innermost first, the path has it last. -/
structure Search (α : Type*) where
  stack : List (α × ℕ)
  path : List α
  colour : α → Colour

def enter (s : Search α) (node : α) (i : ℕ) : Search α :=
  if i = 0 then
    { s with path := s.path ++ [node], colour := Function.update s.colour node .grey }
  else s

def round (deps : α → List α) (s : Search α) (node : α) (i : ℕ) (below : List (α × ℕ)) :
    Except (List α) (Search α) :=
  let s := enter s node i
  match (deps node)[i]? with
  | some next =>
    match s.colour next with
    | .grey => .error (s.path.drop (s.path.idxOf next) ++ [next])
    | .white => .ok { s with stack := (next, 0) :: (node, i + 1) :: below }
    | .black => .ok { s with stack := (node, i + 1) :: below }
  | none =>
    .ok ⟨below, s.path.dropLast, Function.update s.colour node .black⟩

def run (deps : α → List α) : ℕ → Search α → Option (Except (List α) (α → Colour))
  | fuel, s =>
    match s.stack with
    | [] => some (.ok s.colour)
    | (node, i) :: below =>
      match fuel with
      | 0 => none
      | fuel + 1 =>
        match round deps s node i below with
        | .error cycle => some (.error cycle)
        | .ok s => run deps fuel s

def searchFrom (deps : α → List α) (fuel : ℕ) (start : α) (colour : α → Colour) :
    Option (Except (List α) (α → Colour)) :=
  run deps fuel ⟨[(start, 0)], [], colour⟩

def searchAll (deps : α → List α) (fuel : ℕ) :
    List α → (α → Colour) → Option (Except (List α) (α → Colour))
  | [], colour => some (.ok colour)
  | start :: starts, colour =>
    if colour start = .white then
      match searchFrom deps fuel start colour with
      | some (.ok colour) => searchAll deps fuel starts colour
      | result => result
    else searchAll deps fuel starts colour

def bound (deps : α → List α) (nodes : List α) : ℕ :=
  (nodes.map fun a => (deps a).length + 1).sum

section Invariant

variable {deps : α → List α} {s s' : Search α} {node : α} {i : ℕ} {below : List (α × ℕ)}

/-- The frames below a node: each waits for the one above it, and has nothing but black
successors before that one. -/
def Below (deps : α → List α) (colour : α → Colour) : α → List (α × ℕ) → Prop
  | _, [] => True
  | above, (node, i) :: below =>
    (∃ k, i = k + 1 ∧ (deps node)[k]? = some above ∧
      ∀ d ∈ (deps node).take k, colour d = .black) ∧
    Below deps colour node below

def Finished (deps : α → List α) (colour : α → Colour) (l : List α) : Prop :=
  (∀ x, colour x = .black ↔ x ∈ l) ∧ AtEach (fun before x => ∀ d ∈ deps x, d ∈ before) l

structure Inv (deps : α → List α) (s : Search α) : Prop where
  finished : ∃ l, Finished deps s.colour l
  grey : ∀ x, s.colour x = .grey ↔ x ∈ s.path
  nodup : s.path.Nodup
  idle : s.stack = [] → s.path = []
  waiting : ∀ node i below, s.stack = (node, i) :: below → Below deps s.colour node below
  scanned : ∀ node i below, s.stack = (node, i) :: below →
    ∀ d ∈ (deps node).take i, s.colour d = .black
  fresh : ∀ node below, s.stack = (node, 0) :: below →
    s.colour node = .white ∧ s.path.reverse = below.map Prod.fst
  entered : ∀ node i below, s.stack = (node, i + 1) :: below →
    s.path.reverse = node :: below.map Prod.fst

/-- The state of a round after the innermost node has its colour. -/
structure Entered (deps : α → List α) (s : Search α) (node : α) (i : ℕ)
    (below : List (α × ℕ)) : Prop where
  finished : ∃ l, Finished deps s.colour l
  grey : ∀ x, s.colour x = .grey ↔ x ∈ s.path
  nodup : s.path.Nodup
  waiting : Below deps s.colour node below
  scanned : ∀ d ∈ (deps node).take i, s.colour d = .black
  path : s.path.reverse = node :: below.map Prod.fst

omit [DecidableEq α] in
/-- Colouring keeps what waits, as long as no black node loses its colour. -/
theorem Below.mono {colour colour' : α → Colour}
    (hb : ∀ x, colour x = .black → colour' x = .black) :
    ∀ {above : α} {below : List (α × ℕ)}, Below deps colour above below →
      Below deps colour' above below := by
  intro above below
  induction below generalizing above with
  | nil => exact fun _ => trivial
  | cons f below ih =>
    rintro ⟨⟨k, hk, hd, hs⟩, hrest⟩
    exact ⟨⟨k, hk, hd, fun d hm => hb d (hs d hm)⟩, ih hrest⟩

theorem Inv.enter (h : Inv deps s) (hs : s.stack = (node, i) :: below) :
    Entered deps (enter s node i) node i below := by
  cases i with
  | succ i => exact ⟨h.finished, h.grey, h.nodup, h.waiting _ _ _ hs, h.scanned _ _ _ hs,
      h.entered _ _ _ hs⟩
  | zero =>
    obtain ⟨hwhite, hpath⟩ := h.fresh _ _ hs
    -- a white node is neither black nor on the path
    have hblack : ∀ x, Function.update s.colour node .grey x = .black ↔ s.colour x = .black := by
      intro x
      by_cases hx : x = node
      · subst hx
        simp [hwhite]
      · rw [Function.update_of_ne hx]
    have hnew : node ∉ s.path := by
      intro hm
      rw [← h.grey, hwhite] at hm
      cases hm
    rw [ColourSearch.enter, if_pos rfl]
    refine ⟨?_, ?_, ?_, ?_, by simp, by simp [hpath]⟩
    · obtain ⟨l, hl, ho⟩ := h.finished
      exact ⟨l, fun x => (hblack x).trans (hl x), ho⟩
    · intro x
      by_cases hx : x = node
      · subst hx
        simp
      · simp [h.grey, hx]
    · rw [List.nodup_append]
      refine ⟨h.nodup, by simp, ?_⟩
      rintro x hx y hy rfl
      exact hnew (List.mem_singleton.mp hy ▸ hx)
    · exact (h.waiting _ _ _ hs).mono fun x hx => (hblack x).mpr hx

omit [DecidableEq α] in
theorem Entered.path_eq (h : Entered deps s node i below) :
    s.path = (below.map Prod.fst).reverse ++ [node] := by
  rw [← List.reverse_reverse s.path, h.path, List.reverse_cons]

omit [DecidableEq α] in
theorem take_snoc {k : ℕ} {l : List α} {d : α} (h : l[k]? = some d) :
    l.take (k + 1) = l.take k ++ [d] := by
  rw [List.take_add_one, h]
  rfl

omit [DecidableEq α] in
/-- The frame moves on past a black successor. -/
theorem Entered.skip (h : Entered deps s node i below) {next : α}
    (hd : (deps node)[i]? = some next) (hc : s.colour next = .black) :
    Inv deps { s with stack := (node, i + 1) :: below } where
  finished := h.finished
  grey := h.grey
  nodup := h.nodup
  idle he := by cases he
  waiting := by
    rintro _ _ _ ⟨⟩
    exact h.waiting
  scanned := by
    rintro _ _ _ ⟨⟩ d hm
    rw [take_snoc hd, List.mem_append, List.mem_singleton] at hm
    rcases hm with hm | rfl
    · exact h.scanned d hm
    · exact hc
  fresh := by
    rintro _ _ ⟨⟩
  entered := by
    rintro _ _ _ ⟨⟩
    exact h.path

omit [DecidableEq α] in
/-- A white successor gets a frame of its own. -/
theorem Entered.push (h : Entered deps s node i below) {next : α}
    (hd : (deps node)[i]? = some next) (hc : s.colour next = .white) :
    Inv deps { s with stack := (next, 0) :: (node, i + 1) :: below } where
  finished := h.finished
  grey := h.grey
  nodup := h.nodup
  idle he := by cases he
  waiting := by
    rintro _ _ _ ⟨⟩
    exact ⟨⟨i, rfl, hd, h.scanned⟩, h.waiting⟩
  scanned := by
    rintro _ _ _ ⟨⟩ d hm
    simp at hm
  fresh := by
    rintro _ _ ⟨⟩
    exact ⟨hc, h.path⟩
  entered := by
    rintro _ _ _ ⟨⟩

theorem Entered.leave (h : Entered deps s node i below) (hd : (deps node)[i]? = none) :
    Inv deps ⟨below, s.path.dropLast, Function.update s.colour node .black⟩ := by
  have hdone : ∀ d ∈ deps node, s.colour d = .black := by
    intro d hm
    apply h.scanned d
    rwa [List.take_of_length_le (List.getElem?_eq_none_iff.mp hd)]
  have hpath := h.path_eq
  have hdrop : s.path.dropLast = (below.map Prod.fst).reverse := by simp [hpath]
  have hnd := h.nodup
  rw [hpath, List.nodup_append] at hnd
  have hout : ∀ x ∈ s.path.dropLast, x ≠ node := by
    intro x hx
    exact hnd.2.2 x (hdrop ▸ hx) node (by simp)
  have hmono : ∀ x, s.colour x = .black → Function.update s.colour node .black x = .black := by
    intro x hx
    by_cases hxn : x = node
    · simp [hxn]
    · rwa [Function.update_of_ne hxn]
  refine ⟨?_, ?_, ?_, ?_, ?_, ?_, ?_, ?_⟩
  · obtain ⟨l, hl, ho⟩ := h.finished
    refine ⟨l ++ [node], ?_, atEach_snoc.mpr ⟨ho, fun d hm => (hl d).mp (hdone d hm)⟩⟩
    intro x
    by_cases hx : x = node
    · simp [hx]
    · simp [hl, hx]
  · intro x
    by_cases hx : x = node
    · subst hx
      simp only [Function.update_self, reduceCtorEq, false_iff]
      exact fun hm => hout _ hm rfl
    · simp [hx, h.grey, hpath]
  · rw [hdrop]
    exact hnd.1
  · rintro rfl
    simp [hpath]
  · rintro n k rest rfl
    exact h.waiting.2.mono hmono
  · rintro n k rest rfl d hm
    obtain ⟨⟨m, rfl, hd, hs⟩, _⟩ := h.waiting
    rw [take_snoc hd, List.mem_append, List.mem_singleton] at hm
    rcases hm with hm | rfl
    · exact hmono d (hs d hm)
    · exact Function.update_self ..
  · rintro n rest rfl
    obtain ⟨⟨m, hm, _⟩, _⟩ := h.waiting
    cases hm
  · rintro n k rest rfl
    simp [hdrop]

def IsCycle (deps : α → List α) (c : List α) : Prop :=
  (∃ v middle, c = v :: (middle ++ [v])) ∧ c.IsChain fun a b => b ∈ deps a

omit [DecidableEq α] in
theorem Below.chain {colour : α → Colour} :
    ∀ {above : α} {below : List (α × ℕ)}, Below deps colour above below →
      ((below.map Prod.fst).reverse ++ [above]).IsChain fun a b => b ∈ deps a := by
  intro above below
  induction below generalizing above with
  | nil => exact fun _ => List.isChain_singleton _
  | cons f below ih =>
    rintro ⟨⟨k, _, hd, _⟩, hrest⟩
    rw [List.map_cons, List.reverse_cons, List.append_assoc]
    refine List.isChain_append.mpr ⟨(List.isChain_append.mp (ih hrest)).1, ?_, ?_⟩
    · simp [List.mem_of_getElem? hd]
    · exact (List.isChain_append.mp (ih hrest)).2.2

theorem Entered.cycle (h : Entered deps s node i below) {next : α}
    (hd : (deps node)[i]? = some next) (hc : s.colour next = .grey) :
    IsCycle deps (s.path.drop (s.path.idxOf next) ++ [next]) := by
  have hmem : next ∈ s.path := (h.grey next).mp hc
  have hlt := List.idxOf_lt_length_of_mem hmem
  refine ⟨⟨next, s.path.drop (s.path.idxOf next + 1), ?_⟩, ?_⟩
  · rw [List.drop_eq_getElem_cons hlt, List.getElem_idxOf hlt]
    rfl
  · have hchain : (s.path ++ [next]).IsChain fun a b => b ∈ deps a := by
      rw [h.path_eq, List.append_assoc]
      refine List.isChain_append.mpr ⟨(List.isChain_append.mp h.waiting.chain).1, ?_,
        (List.isChain_append.mp h.waiting.chain).2.2⟩
      simp [List.mem_of_getElem? hd]
    have := hchain.drop (s.path.idxOf next)
    rwa [List.drop_append_of_le_length hlt.le] at this

end Invariant

section Rounds

variable {deps : α → List α} {nodes : List α} {s s' : Search α} {node : α} {i : ℕ}
  {below : List (α × ℕ)}

def Met (s : Search α) (x : α) : Prop := s.colour x ≠ .white ∨ x ∈ s.stack.map Prod.fst

instance (s : Search α) (x : α) : Decidable (Met s x) :=
  inferInstanceAs (Decidable (_ ∨ _))

def unmet (deps : α → List α) (nodes : List α) (s : Search α) : ℕ :=
  (nodes.map fun x => if Met s x then 0 else (deps x).length + 1).sum

def work (deps : α → List α) (nodes : List α) (s : Search α) : ℕ :=
  (s.stack.map fun f => (deps f.1).length - f.2 + 1).sum + unmet deps nodes s

omit [DecidableEq α] in
theorem sum_map_lower {f g : α → ℕ} {a : α} {k : ℕ} {nodes : List α} (ha : a ∈ nodes)
    (hle : ∀ x, f x ≤ g x) (hk : f a + k ≤ g a) :
    (nodes.map f).sum + k ≤ (nodes.map g).sum := by
  induction nodes with
  | nil => cases ha
  | cons b nodes ih =>
    simp only [List.map_cons, List.sum_cons]
    rcases List.mem_cons.mp ha with rfl | ha
    · have := List.sum_le_sum fun x (_ : x ∈ nodes) => hle x
      omega
    · have := ih ha
      have := hle b
      omega

theorem unmet_term_le (hmet : ∀ x, Met s x → Met s' x) (x : α) :
    (if Met s' x then 0 else (deps x).length + 1) ≤
      if Met s x then 0 else (deps x).length + 1 := by
  by_cases hx : Met s x
  · rw [if_pos hx, if_pos (hmet x hx)]
  · rw [if_neg hx]
    split <;> omega

theorem unmet_le (hmet : ∀ x, Met s x → Met s' x) : unmet deps nodes s' ≤ unmet deps nodes s :=
  List.sum_le_sum fun x _ => unmet_term_le hmet x

theorem unmet_lower {a : α} (hmet : ∀ x, Met s x → Met s' x) (ha : a ∈ nodes) (hold : ¬ Met s a)
    (hnew : Met s' a) : unmet deps nodes s' + ((deps a).length + 1) ≤ unmet deps nodes s := by
  apply sum_map_lower ha (unmet_term_le hmet)
  rw [if_pos hnew, if_neg hold, Nat.zero_add]

/-- A round that does not stop: it keeps the invariant, it forgets no node, and there is
less to do. -/
structure Advances (deps : α → List α) (nodes : List α) (s s' : Search α) : Prop where
  inv : Inv deps s'
  met : ∀ x, Met s x → Met s' x
  work : work deps nodes s' < work deps nodes s

theorem enter_colour_white {x : α} (h : (enter s node i).colour x = .white) :
    s.colour x = .white := by
  unfold enter at h
  by_cases hi : i = 0
  · rw [if_pos hi] at h
    by_cases hx : x = node
    · simp [hx] at h
    · simpa [hx] using h
  · rwa [if_neg hi] at h

theorem Met.entered {x : α} (hm : Met s x) (he : Entered deps (enter s node i) node i below)
    (hs : s.stack = (node, i) :: below) : (enter s node i).colour x ≠ .white := by
  intro hw
  rcases hm with hx | hx
  · exact hx (enter_colour_white hw)
  · have hgrey : (enter s node i).colour x = .grey := by
      rw [hs, List.map_cons, ← he.path, List.mem_reverse] at hx
      exact (he.grey x).mpr hx
    rw [hgrey] at hw
    cases hw

theorem round_spec (hU : ∀ a, ∀ d ∈ deps a, d ∈ nodes) (h : Inv deps s)
    (hs : s.stack = (node, i) :: below) :
    (∃ c, round deps s node i below = .error c ∧ IsCycle deps c) ∨
      ∃ s', round deps s node i below = .ok s' ∧ Advances deps nodes s s' := by
  have he := h.enter hs
  have hmet : ∀ x, Met s x → (enter s node i).colour x ≠ .white := fun x hx => hx.entered he hs
  unfold round
  cases hd : (deps node)[i]? with
  | none =>
    have hout : ∀ x, Met s x →
        Met ⟨below, (enter s node i).path.dropLast,
          Function.update (enter s node i).colour node .black⟩ x := by
      intro x hx
      left
      by_cases hxn : x = node
      · simp [hxn]
      · simpa [hxn] using hmet x hx
    refine .inr ⟨_, rfl, he.leave hd, hout, ?_⟩
    have hle : unmet deps nodes _ ≤ unmet deps nodes s := unmet_le hout
    simp only [work, hs, List.map_cons, List.sum_cons]
    omega
  | some next =>
    have hi : i < (deps node).length := (List.getElem?_eq_some_iff.mp hd).1
    cases hc : (enter s node i).colour next with
    | grey => exact .inl ⟨_, by simp only [hc], he.cycle hd hc⟩
    | black =>
      have hout : ∀ x, Met s x →
          Met ⟨(node, i + 1) :: below, (enter s node i).path, (enter s node i).colour⟩ x :=
        fun x hx => .inl (hmet x hx)
      refine .inr ⟨_, by simp only [hc], he.skip hd hc, hout, ?_⟩
      have hle : unmet deps nodes _ ≤ unmet deps nodes s := unmet_le hout
      simp only [work, hs, List.map_cons, List.sum_cons]
      omega
    | white =>
      have hout : ∀ x, Met s x →
          Met ⟨(next, 0) :: (node, i + 1) :: below, (enter s node i).path,
            (enter s node i).colour⟩ x :=
        fun x hx => .inl (hmet x hx)
      refine .inr ⟨_, by simp only [hc], he.push hd hc, hout, ?_⟩
      have hlt : unmet deps nodes _ + ((deps next).length + 1) ≤ unmet deps nodes s :=
        unmet_lower hout (hU node next (List.mem_of_getElem? hd)) (fun hm => hmet next hm hc)
          (.inr (by simp))
      simp only [work, hs, List.map_cons, List.sum_cons]
      omega

structure Settled (deps : α → List α) (colour : α → Colour) : Prop where
  finished : ∃ l, Finished deps colour l
  noGrey : ∀ x, colour x ≠ .grey

omit [DecidableEq α] in
theorem Inv.settled (h : Inv deps s) (hs : s.stack = []) :
    Settled deps s.colour ∧ ∀ x, Met s x → s.colour x = .black := by
  have hnone : ∀ x, s.colour x ≠ .grey := by
    intro x hx
    rw [h.grey, h.idle hs] at hx
    cases hx
  refine ⟨⟨h.finished, hnone⟩, ?_⟩
  intro x hx
  rcases hx with hx | hx
  · cases hc : s.colour x with
    | white => exact absurd hc hx
    | grey => exact absurd hc (hnone x)
    | black => rfl
  · rw [hs] at hx
    cases hx

theorem run_spec (hU : ∀ a, ∀ d ∈ deps a, d ∈ nodes) :
    ∀ {fuel : ℕ} {s : Search α}, Inv deps s → work deps nodes s ≤ fuel →
      (∃ c, run deps fuel s = some (.error c) ∧ IsCycle deps c) ∨
        ∃ colour, run deps fuel s = some (.ok colour) ∧ Settled deps colour ∧
          ∀ x, Met s x → colour x = .black := by
  intro fuel
  induction fuel with
  | zero =>
    intro s h hw
    cases hs : s.stack with
    | cons f below => simp [work, hs] at hw
    | nil => exact .inr ⟨s.colour, by simp [run, hs], h.settled hs⟩
  | succ fuel ih =>
    intro s h hw
    cases hs : s.stack with
    | nil => exact .inr ⟨s.colour, by simp [run, hs], h.settled hs⟩
    | cons f below =>
      obtain ⟨node, i⟩ := f
      rw [run]
      simp only [hs]
      rcases round_spec hU h hs with ⟨c, hr, hc⟩ | ⟨s', hr, ha⟩
      · exact .inl ⟨c, by simp only [hr], hc⟩
      · simp only [hr]
        have hless := ha.work
        rcases ih ha.inv (by omega) with hfound | ⟨colour, hrun, hset, hmet⟩
        · exact .inl hfound
        · exact .inr ⟨colour, hrun, hset, fun x hx => hmet x (ha.met x hx)⟩

theorem searchFrom_spec (hU : ∀ a, ∀ d ∈ deps a, d ∈ nodes) {start : α} {colour : α → Colour}
    (hset : Settled deps colour) (hw : colour start = .white) (hm : start ∈ nodes) :
    (∃ c, searchFrom deps (bound deps nodes) start colour = some (.error c) ∧ IsCycle deps c) ∨
      ∃ colour', searchFrom deps (bound deps nodes) start colour = some (.ok colour') ∧
        Settled deps colour' ∧ colour' start = .black ∧
        ∀ x, colour x = .black → colour' x = .black := by
  have hinv : Inv deps ⟨[(start, 0)], [], colour⟩ := by
    refine ⟨hset.finished, ?_, List.nodup_nil, ?_, ?_, ?_, ?_, ?_⟩
    · intro x
      simpa using hset.noGrey x
    · exact fun _ => rfl
    · rintro _ _ _ ⟨⟩
      trivial
    · rintro _ _ _ ⟨⟩ d hd
      simp at hd
    · rintro _ _ ⟨⟩
      exact ⟨hw, rfl⟩
    · rintro _ _ _ ⟨⟩
  have hwork : work deps nodes ⟨[(start, 0)], [], colour⟩ ≤ bound deps nodes := by
    have := sum_map_lower (k := (deps start).length + 1)
      (f := fun x => if Met ⟨[(start, 0)], [], colour⟩ x then 0 else (deps x).length + 1)
      (g := fun x => (deps x).length + 1) hm (fun x => by split <;> omega) (by simp [Met])
    simp only [work, unmet, bound, List.map_cons, List.map_nil, List.sum_cons, List.sum_nil]
    omega
  rcases run_spec hU hinv hwork with hfound | ⟨colour', hrun, hset', hmet⟩
  · exact .inl hfound
  · refine .inr ⟨colour', hrun, hset', hmet start (.inr (by simp)), ?_⟩
    intro x hx
    exact hmet x (.inl (by simp [hx]))

/-- The search from the given starts never uses up its bound: it finds a cycle, or it
finishes every start. -/
theorem searchAll_spec (hU : ∀ a, ∀ d ∈ deps a, d ∈ nodes) :
    ∀ {starts : List α} {colour : α → Colour}, Settled deps colour → (∀ x ∈ starts, x ∈ nodes) →
      (∃ c, searchAll deps (bound deps nodes) starts colour = some (.error c) ∧ IsCycle deps c) ∨
        ∃ colour', searchAll deps (bound deps nodes) starts colour = some (.ok colour') ∧
          Settled deps colour' ∧ (∀ x ∈ starts, colour' x = .black) ∧
          ∀ x, colour x = .black → colour' x = .black := by
  intro starts
  induction starts with
  | nil =>
    intro colour hset _
    exact .inr ⟨colour, rfl, hset, by simp, fun _ hx => hx⟩
  | cons start starts ih =>
    intro colour hset hm
    have hrest : ∀ x ∈ starts, x ∈ nodes := fun x hx => hm x (List.mem_cons_of_mem _ hx)
    rw [searchAll]
    by_cases hw : colour start = .white
    · rw [if_pos hw]
      rcases searchFrom_spec hU hset hw (hm start List.mem_cons_self) with
        ⟨c, hr, hc⟩ | ⟨colour₁, hr, hset₁, hstart, hkeep₁⟩
      · exact .inl ⟨c, by simp only [hr], hc⟩
      · simp only [hr]
        rcases ih hset₁ hrest with hfound | ⟨colour₂, hrun, hset₂, hall, hkeep₂⟩
        · exact .inl hfound
        · refine .inr ⟨colour₂, hrun, hset₂, ?_, fun x hx => hkeep₂ x (hkeep₁ x hx)⟩
          intro x hx
          rcases List.mem_cons.mp hx with rfl | hx
          · exact hkeep₂ _ hstart
          · exact hall x hx
    · rw [if_neg hw]
      have hblack : colour start = .black := by
        cases hc : colour start with
        | white => exact absurd hc hw
        | grey => exact absurd hc (hset.noGrey start)
        | black => rfl
      rcases ih hset hrest with hfound | ⟨colour₂, hrun, hset₂, hall, hkeep₂⟩
      · exact .inl hfound
      · refine .inr ⟨colour₂, hrun, hset₂, ?_, hkeep₂⟩
        intro x hx
        rcases List.mem_cons.mp hx with rfl | hx
        · exact hkeep₂ _ hblack
        · exact hall x hx

/-- A search that ends within a bound ends in the same way within a larger one. -/
theorem run_more {r : Except (List α) (α → Colour)} (k : ℕ) :
    ∀ {fuel : ℕ} {s : Search α}, run deps fuel s = some r → run deps (fuel + k) s = some r := by
  intro fuel
  induction fuel with
  | zero =>
    intro s h
    cases hs : s.stack with
    | nil =>
      rw [run] at h ⊢
      simpa only [hs] using h
    | cons f below =>
      rw [run] at h
      simp only [hs] at h
      cases h
  | succ fuel ih =>
    intro s h
    rw [Nat.succ_add]
    rw [run] at h ⊢
    cases hs : s.stack with
    | nil => simpa only [hs] using h
    | cons f below =>
      simp only [hs] at h ⊢
      cases hr : round deps s f.1 f.2 below with
      | error c => simpa only [hr] using h
      | ok s' =>
        simp only [hr] at h ⊢
        exact ih h

theorem searchAll_more {r : Except (List α) (α → Colour)} {fuel : ℕ} (k : ℕ) :
    ∀ {starts : List α} {colour : α → Colour}, searchAll deps fuel starts colour = some r →
      searchAll deps (fuel + k) starts colour = some r := by
  intro starts
  induction starts with
  | nil => exact fun h => h
  | cons start starts ih =>
    intro colour h
    rw [searchAll] at h ⊢
    by_cases hw : colour start = .white
    · rw [if_pos hw] at h ⊢
      cases hr : searchFrom deps fuel start colour with
      | none =>
        rw [hr] at h
        cases h
      | some result =>
        have hmore : searchFrom deps (fuel + k) start colour = some result := run_more k hr
        rw [hr] at h
        rw [hmore]
        cases result with
        | error c => exact h
        | ok colour' => exact ih h
    · rw [if_neg hw] at h ⊢
      exact ih h

end Rounds

section Ranks

variable {deps : α → List α}

omit [DecidableEq α] in
theorem IsCycle.not_ranked {c : List α} (h : IsCycle deps c) {rank : α → ℕ}
    (hr : ∀ x, ∀ d ∈ deps x, rank d < rank x) : False := by
  obtain ⟨⟨v, middle, rfl⟩, hchain⟩ := h
  have hlt : (v :: (middle ++ [v])).Pairwise fun a b => rank b < rank a := by
    apply List.isChain_iff_pairwise.mp
    exact hchain.imp fun a b hab => hr a b hab
  exact lt_irrefl _ ((List.pairwise_cons.mp hlt).1 v (by simp))

omit [DecidableEq α] in
theorem IsCycle.transGen {c : List α} (h : IsCycle deps c) :
    ∃ v, Relation.TransGen (fun a b => b ∈ deps a) v v := by
  obtain ⟨⟨v, middle, rfl⟩, hchain⟩ := h
  refine ⟨v, ?_⟩
  have hpair : (v :: (middle ++ [v])).Pairwise (Relation.TransGen fun a b => b ∈ deps a) :=
    List.isChain_iff_pairwise.mp (hchain.imp fun _ _ hab => .single hab)
  exact (List.pairwise_cons.mp hpair).1 v (by simp)

omit [DecidableEq α] in
theorem acyclic_of_ranked {rank : α → ℕ} (hr : ∀ x, ∀ d ∈ deps x, rank d < rank x) (v : α) :
    ¬ Relation.TransGen (fun a b => b ∈ deps a) v v := by
  have hlt : ∀ a b, Relation.TransGen (fun a b => b ∈ deps a) a b → rank b < rank a := by
    intro a b h
    induction h with
    | single he => exact hr a _ he
    | tail _ he ih => exact (hr _ _ he).trans ih
  exact fun h => lt_irrefl _ (hlt v v h)

end Ranks

end ColourSearch
