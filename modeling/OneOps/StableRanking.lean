import Mathlib.Data.List.MinMax
import Mathlib.Data.List.Sort

/-! Lists sorted by a score, the best first, where elements of equal score keep their order. -/
namespace StableRanking

variable {α β : Type*} [LinearOrder β]

def byDescending (f : α → β) (l : List α) : List α := l.insertionSort fun a b => f b ≤ f a

variable {f : α → β} {l : List α}

@[simp] theorem mem_byDescending {x : α} : x ∈ byDescending f l ↔ x ∈ l :=
  List.mem_insertionSort _

theorem byDescending_perm (f : α → β) (l : List α) : (byDescending f l).Perm l :=
  List.perm_insertionSort _ _

theorem byDescending_pairwise (f : α → β) (l : List α) :
    (byDescending f l).Pairwise fun a b => f b ≤ f a := by
  have : Std.Total fun a b => f b ≤ f a := ⟨fun a b => le_total (f b) (f a)⟩
  have : IsTrans α fun a b => f b ≤ f a := ⟨fun _ _ _ hab hbc => hbc.trans hab⟩
  exact List.pairwise_insertionSort _ l

theorem head?_byDescending (f : α → β) (l : List α) :
    (byDescending f l).head? = l.argmax f := by
  induction l with
  | nil => rfl
  | cons a l ih =>
    unfold byDescending at ih ⊢
    rw [List.insertionSort_cons, List.argmax_cons, ← ih]
    cases List.insertionSort (fun a b => f b ≤ f a) l with
    | nil => rfl
    | cons b rest =>
      rw [List.orderedInsert]
      by_cases hlt : f a < f b
      · rw [if_neg (not_le.mpr hlt)]
        exact (if_pos hlt).symm
      · rw [if_pos (not_lt.mp hlt)]
        exact (if_neg hlt).symm

theorem orderedInsert_stable {R : α → α → Prop} {a : α}
    (hl : l.Pairwise fun x y => f y < f x ∨ f x = f y ∧ R x y) (ha : ∀ x ∈ l, R a x) :
    (l.orderedInsert (fun x y => f y ≤ f x) a).Pairwise
      fun x y => f y < f x ∨ f x = f y ∧ R x y := by
  induction l with
  | nil => exact List.pairwise_singleton _ _
  | cons b l ih =>
    rw [List.pairwise_cons] at hl
    rw [List.orderedInsert]
    split_ifs with hab
    · refine List.Pairwise.cons ?_ (List.Pairwise.cons hl.1 hl.2)
      intro x hx
      have hle : f x ≤ f a := by
        rcases List.mem_cons.mp hx with rfl | hx
        · exact hab
        · rcases hl.1 x hx with hlt | ⟨heq, _⟩
          · exact hlt.le.trans hab
          · exact heq ▸ hab
      rcases hle.lt_or_eq with hlt | heq
      · exact Or.inl hlt
      · exact Or.inr ⟨heq.symm, ha x hx⟩
    · refine List.Pairwise.cons ?_ (ih hl.2 fun x hx => ha x (List.mem_cons_of_mem b hx))
      intro x hx
      rcases List.mem_orderedInsert _ |>.mp hx with rfl | hx
      · exact Or.inl (not_le.mp hab)
      · exact hl.1 x hx

theorem byDescending_stable {R : α → α → Prop} (h : l.Pairwise R) :
    (byDescending f l).Pairwise fun x y => f y < f x ∨ f x = f y ∧ R x y := by
  induction l with
  | nil => exact List.Pairwise.nil
  | cons a l ih =>
    rw [List.pairwise_cons] at h
    exact orderedInsert_stable (ih h.2) fun x hx => h.1 x (mem_byDescending.mp hx)

/-- In a list in strict order the first `k` elements are those with fewer than `k` before them. -/
theorem mem_take_iff {R : α → α → Prop} [DecidableRel R] (hirrefl : ∀ x, ¬ R x x)
    (hasymm : ∀ x y, R x y → ¬ R y x) (h : l.Pairwise R) {k : ℕ} {x : α} :
    x ∈ l.take k ↔ x ∈ l ∧ (l.filter fun y => R y x).length < k := by
  induction l generalizing k with
  | nil => simp
  | cons a l ih =>
    rw [List.pairwise_cons] at h
    cases k with
    | zero => simp
    | succ k =>
      rw [List.take_succ_cons, List.mem_cons, List.mem_cons]
      by_cases hxa : x = a
      · have hnone : (a :: l).filter (fun y => R y x) = [] := by
          rw [List.filter_eq_nil_iff]
          intro y hy
          rw [decide_eq_true_eq]
          rcases List.mem_cons.mp hy with rfl | hy
          · exact hxa ▸ hirrefl _
          · exact hxa ▸ hasymm _ _ (h.1 y hy)
        rw [hnone]
        simp [hxa]
      · have hiff : x ∈ l → ((a :: l).filter fun y => R y x).length =
            (l.filter fun y => R y x).length + 1 := by
          intro hx
          have hax : decide (R a x) = true := decide_eq_true (h.1 x hx)
          rw [List.filter_cons_of_pos (by exact hax), List.length_cons]
        rw [ih h.2]
        constructor
        · rintro (rfl | ⟨hx, hlt⟩)
          · exact absurd rfl hxa
          · exact ⟨Or.inr hx, by rw [hiff hx]; omega⟩
        · rintro ⟨rfl | hx, hlt⟩
          · exact absurd rfl hxa
          · rw [hiff hx] at hlt
            exact Or.inr ⟨hx, by omega⟩

end StableRanking
