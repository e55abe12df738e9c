import Mathlib.Logic.Relation
import Mathlib.Algebra.BigOperators.Group.Finset.Basic
import Mathlib.Algebra.Order.BigOperators.Group.List
import Mathlib.Algebra.BigOperators.Ring.Finset
import Mathlib.Algebra.Order.Ring.Nat
import Mathlib.Data.List.Nodup
import Mathlib.Data.List.Perm.Subperm

/-! Trees given by a list of children for each node. A node that satisfies `P` has at most
`W` children, all of which satisfy `P` one level lower; then `levels` below it there are at
most `W + W² + ⋯` nodes. -/
namespace BoundedTree

variable {α : Type*} (children : α → List α)

def descendants : ℕ → α → List α
  | 0, _ => []
  | L + 1, a => (children a).flatMap fun c => c :: descendants L c

def Descends (a b : α) : Prop := Relation.TransGen (fun x y => y ∈ children x) a b

def treeSize (W L : ℕ) : ℕ := ∑ l ∈ Finset.range L, W ^ (l + 1)

theorem treeSize_succ (W L : ℕ) : treeSize W (L + 1) = W * (1 + treeSize W L) := by
  rw [treeSize, Finset.sum_range_succ', treeSize, mul_add, Finset.mul_sum, mul_one, zero_add,
    pow_one, add_comm]
  congr 1
  apply Finset.sum_congr rfl
  intro l _
  rw [pow_succ', pow_succ']

/-- Levels sink along the edges and the nodes of level zero are leaves. -/
structure Graded (P : α → Prop) (level : α → ℕ) (W : ℕ) : Prop where
  width : ∀ a, P a → (children a).length ≤ W
  closed : ∀ a, P a → ∀ c ∈ children a, P c
  sinks : ∀ a, P a → ∀ c ∈ children a, level c < level a

variable {children}

theorem Graded.length_descendants {P : α → Prop} {level : α → ℕ} {W : ℕ}
    (h : Graded children P level W) :
    ∀ (L : ℕ) (a : α), P a → (descendants children L a).length ≤ treeSize W L := by
  intro L
  induction L with
  | zero => intro a _; simp [descendants, treeSize]
  | succ L ih =>
    intro a ha
    have each : ∀ n ∈ (children a).map (fun c => (c :: descendants children L c).length),
        n ≤ 1 + treeSize W L := by
      intro n hn
      obtain ⟨c, hc, rfl⟩ := List.mem_map.mp hn
      have := ih c (h.closed a ha c hc)
      rw [List.length_cons]
      omega
    calc (descendants children (L + 1) a).length
        = ((children a).map fun c => (c :: descendants children L c).length).sum := by
          simp only [descendants, List.length_flatMap]
      _ ≤ (children a).length * (1 + treeSize W L) := by
          have := List.sum_le_card_nsmul _ _ each
          simpa using this
      _ ≤ treeSize W (L + 1) := by
          rw [treeSize_succ]
          exact Nat.mul_le_mul_right _ (h.width a ha)

theorem Graded.descends {P : α → Prop} {level : α → ℕ} {W : ℕ} (h : Graded children P level W)
    {a b : α} (ha : P a) (hd : Descends children a b) : P b ∧ level b < level a := by
  induction hd with
  | single hc => exact ⟨h.closed a ha _ hc, h.sinks a ha _ hc⟩
  | tail _ hc ih => exact ⟨h.closed _ ih.1 _ hc, (h.sinks _ ih.1 _ hc).trans ih.2⟩

theorem mem_descendants_of_child {L : ℕ} {a c : α} (h : c ∈ children a) :
    c ∈ descendants children (L + 1) a :=
  List.mem_flatMap.mpr ⟨c, h, List.mem_cons_self⟩

theorem Graded.mem_descendants {P : α → Prop} {level : α → ℕ} {W : ℕ}
    (h : Graded children P level W) {b : α} :
    ∀ (L : ℕ) (a : α), P a → level a ≤ L → Descends children a b →
      b ∈ descendants children L a := by
  intro L
  induction L with
  | zero =>
    intro a ha hl hd
    obtain ⟨c, hc, _⟩ := Relation.TransGen.head'_iff.mp hd
    have := h.sinks a ha c hc
    omega
  | succ L ih =>
    intro a ha hl hd
    obtain ⟨c, hc, hcb⟩ := Relation.TransGen.head'_iff.mp hd
    have hlt := h.sinks a ha c hc
    rcases Relation.reflTransGen_iff_eq_or_transGen.mp hcb with rfl | hcb
    · exact mem_descendants_of_child hc
    · apply List.mem_flatMap.mpr
      exact ⟨c, hc, List.mem_cons_of_mem _ (ih c (h.closed a ha c hc) (by omega) hcb)⟩

/-- Distinctly named nodes below `a` are at most as many as a full tree has. -/
theorem Graded.count_le {P : α → Prop} {level : α → ℕ} {W : ℕ} (h : Graded children P level W)
    {κ : Type*} {name : α → κ} {nodes : List α} (hn : (nodes.map name).Nodup) {a : α} (ha : P a)
    (hd : ∀ b ∈ nodes, Descends children a b) : nodes.length ≤ treeSize W (level a) := by
  have hsub : nodes.map name ⊆ (descendants children (level a) a).map name := by
    intro k hk
    obtain ⟨b, hb, rfl⟩ := List.mem_map.mp hk
    exact List.mem_map_of_mem (h.mem_descendants _ a ha le_rfl (hd b hb))
  have hle := (hn.subperm hsub).length_le
  rw [List.length_map, List.length_map] at hle
  exact hle.trans (h.length_descendants _ a ha)

end BoundedTree
