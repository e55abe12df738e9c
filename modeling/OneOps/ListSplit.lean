import Mathlib.Data.List.Forall2
import Mathlib.Data.List.Infix
import Mathlib.Data.List.Induction
import Mathlib.Order.Lattice
import Mathlib.Tactic.Common

/-! Statements about every place of a list, where what is said of an element depends on
what stands before it: a list of steps with the state that each of them finds. -/
namespace ListSplit

variable {α : Type*}

/-- `Q before x` holds at every place of the list. -/
def AtEach (Q : List α → α → Prop) (xs : List α) : Prop :=
  ∀ before x rest, xs = before ++ x :: rest → Q before x

variable {Q : List α → α → Prop}

theorem atEach_nil : AtEach Q [] := by
  intro before x rest he
  simp at he

theorem atEach_snoc {xs : List α} {a : α} : AtEach Q (xs ++ [a]) ↔ AtEach Q xs ∧ Q xs a := by
  constructor
  · intro h
    refine ⟨?_, h xs a [] rfl⟩
    intro before x rest he
    exact h before x (rest ++ [a]) (by simp [he])
  · rintro ⟨h, ha⟩ before x rest he
    rcases List.eq_nil_or_concat rest with rfl | ⟨rest', y, rfl⟩
    · obtain ⟨rfl, hax⟩ := List.append_inj' he rfl
      cases hax
      exact ha
    · rw [List.concat_eq_append, ← List.cons_append, ← List.append_assoc] at he
      exact h before x rest' (List.append_inj' he rfl).1

theorem atEach_iff_get {xs : List α} : AtEach Q xs ↔ ∀ i : Fin xs.length, Q (xs.take i) xs[i] := by
  constructor
  · intro h i
    apply h (xs.take i) xs[i] (xs.drop (i + 1))
    rw [Fin.getElem_fin, ← List.drop_eq_getElem_cons, List.take_append_drop]
  · intro h before x rest he
    have hlt : before.length < xs.length := by
      rw [he, List.length_append, List.length_cons]
      omega
    simpa [he] using h ⟨before.length, hlt⟩

/-- Two conditions that agree wherever the first one has held so far hold together. -/
theorem atEach_congr {A B : List α → α → Prop} {I : List α → Prop} (hnil : I [])
    (hiff : ∀ xs a, I xs → (A xs a ↔ B xs a)) (hstep : ∀ xs a, I xs → A xs a → I (xs ++ [a]))
    (xs : List α) : AtEach A xs ↔ AtEach B xs := by
  have hinv : ∀ xs, AtEach A xs → I xs := by
    intro xs
    induction xs using List.reverseRecOn with
    | nil => exact fun _ => hnil
    | append_singleton xs a ih =>
      intro h
      obtain ⟨hxs, ha⟩ := atEach_snoc.mp h
      exact hstep xs a (ih hxs) ha
  induction xs using List.reverseRecOn with
  | nil => exact ⟨fun _ => atEach_nil, fun _ => atEach_nil⟩
  | append_singleton xs a ih =>
    rw [atEach_snoc, atEach_snoc]
    constructor
    · rintro ⟨hxs, ha⟩
      exact ⟨ih.mp hxs, (hiff xs a (hinv xs hxs)).mp ha⟩
    · rintro ⟨hxs, ha⟩
      exact ⟨ih.mpr hxs, (hiff xs a (hinv xs (ih.mpr hxs))).mpr ha⟩

theorem AtEach.idxOf_lt [DecidableEq α] {R : α → α → Prop} {xs : List α}
    (h : AtEach (fun before x => ∀ d, R x d → d ∈ before) xs) {x d : α} (hx : x ∈ xs)
    (hd : R x d) : xs.idxOf d < xs.idxOf x := by
  obtain ⟨before, rest, rfl, hnew⟩ := List.eq_append_cons_of_mem hx
  have hdm := h before x rest rfl d hd
  rw [List.idxOf_append_of_mem hdm, List.idxOf_append_of_notMem hnew, List.idxOf_cons_self]
  have := List.idxOf_lt_length_of_mem hdm
  omega

/-- Choosing from the first `n` elements gives the first `n` choices exactly when all of these
elements are chosen or none of the others is. -/
theorem filterMap_take_eq_iff {β : Type*} (f : α → Option β) (n : ℕ) (xs : List α) :
    (xs.take n).filterMap f = (xs.filterMap f).take n ↔
      (∀ x ∈ xs.take n, (f x).isSome) ∨ ∀ x ∈ xs.drop n, f x = none := by
  have hsplit : xs.filterMap f = (xs.take n).filterMap f ++ (xs.drop n).filterMap f := by
    rw [← List.filterMap_append, List.take_append_drop]
  have hle : ((xs.take n).filterMap f).length ≤ n :=
    (List.length_filterMap_le _ _).trans (List.length_take_le _ _)
  have hrest : (xs.drop n).filterMap f = [] ↔ ∀ x ∈ xs.drop n, f x = none :=
    List.filterMap_eq_nil_iff
  have hfull : ((xs.take n).filterMap f).length = (xs.take n).length ↔
      ∀ x ∈ xs.take n, (f x).isSome :=
    List.filterMap_length_eq_length
  rw [hsplit, List.take_append, List.take_of_length_le hle, List.self_eq_append_right,
    List.take_eq_nil_iff, ← hrest, ← hfull, List.length_take]
  constructor
  · rintro (hn | hnil)
    · left
      have := List.length_filterMap_le f (xs.take n)
      rw [List.length_take] at this
      omega
    · exact .inr hnil
  · rintro (hlen | hnil)
    · rcases Nat.le_total n xs.length with hx | hx
      · left
        rw [Nat.min_eq_left hx] at hlen
        omega
      · right
        rw [List.drop_of_length_le hx, List.filterMap_nil]
    · exact .inr hnil

theorem idxOf_lt_iff_of_descending [LinearOrder α] {xs : List α}
    (h : xs.Pairwise fun x y => y ≤ x) {a b : α} (ha : a ∈ xs) (hb : b ∈ xs) :
    xs.idxOf a < xs.idxOf b ↔ b < a := by
  have before : ∀ {x y : α}, x ∈ xs → y ∈ xs → xs.idxOf x < xs.idxOf y → y ≤ x := by
    intro x y hx hy hlt
    have hp := List.pairwise_iff_getElem.mp h (xs.idxOf x) (xs.idxOf y)
      (List.idxOf_lt_length_of_mem hx) (List.idxOf_lt_length_of_mem hy) hlt
    rwa [List.getElem_idxOf, List.getElem_idxOf] at hp
  constructor
  · intro hlt
    refine lt_of_le_of_ne (before ha hb hlt) ?_
    rintro rfl
    exact lt_irrefl _ hlt
  · intro hlt
    rcases Nat.lt_trichotomy (xs.idxOf a) (xs.idxOf b) with hi | hi | hi
    · exact hi
    · exact absurd ((List.idxOf_inj ha).mp hi) hlt.ne'
    · exact absurd (before hb ha hi) (not_le.mpr hlt)

theorem find?_first {R : α → α → Prop} {p : α → Bool} {xs : List α} {x : α} (h : xs.Pairwise R)
    (hx : xs.find? p = some x) : ∀ y ∈ xs, p y → y = x ∨ R x y := by
  obtain ⟨_, before, rest, rfl, hbefore⟩ := List.find?_eq_some_iff_append.mp hx
  intro y hy hpy
  rcases List.mem_append.mp hy with hb | hr
  · exact absurd hpy (by simpa using hbefore y hb)
  · rcases List.mem_cons.mp hr with rfl | hr
    · exact .inl rfl
    · exact .inr (List.rel_of_pairwise_cons (List.pairwise_append.mp h).2.1 hr)

theorem forall₂_left {β : Type*} {P : α → β → Prop} {xs : List α} {ys : List β}
    (h : List.Forall₂ P xs ys) {x : α} (hx : x ∈ xs) : ∃ y ∈ ys, P x y := by
  obtain ⟨i, hi, rfl⟩ := List.getElem_of_mem hx
  have hlen := h.length_eq
  exact ⟨ys[i], List.getElem_mem _, h.get hi (by omega)⟩

theorem forall₂_right {β : Type*} {P : α → β → Prop} {xs : List α} {ys : List β}
    (h : List.Forall₂ P xs ys) {y : β} (hy : y ∈ ys) : ∃ x ∈ xs, P x y := by
  obtain ⟨i, hi, rfl⟩ := List.getElem_of_mem hy
  have hlen := h.length_eq
  exact ⟨xs[i], List.getElem_mem _, h.get (by omega) hi⟩

theorem exists_split_cons {Q R : α → Prop} {a : α} {l : List α} :
    (∃ before x later, a :: l = before ++ x :: later ∧ (∀ g ∈ before, Q g) ∧ R x) ↔
      R a ∨ (Q a ∧ ∃ before x later, l = before ++ x :: later ∧ (∀ g ∈ before, Q g) ∧ R x) := by
  constructor
  · rintro ⟨before, x, later, heq, hQ, hR⟩
    cases before with
    | nil =>
      obtain ⟨rfl, -⟩ := List.cons.inj heq
      exact .inl hR
    | cons b before =>
      obtain ⟨rfl, htail⟩ := List.cons.inj heq
      obtain ⟨hb, hQ⟩ := List.forall_mem_cons.mp hQ
      exact .inr ⟨hb, before, x, later, htail, hQ, hR⟩
  · rintro (h | ⟨ha, before, x, later, rfl, hQ, hR⟩)
    · exact ⟨[], a, l, rfl, List.forall_mem_nil _, h⟩
    · exact ⟨a :: before, x, later, rfl, List.forall_mem_cons.mpr ⟨ha, hQ⟩, hR⟩

end ListSplit
