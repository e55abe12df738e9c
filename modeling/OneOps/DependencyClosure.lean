import Mathlib.Data.Finset.Card
import Mathlib.Data.List.Chain
import Mathlib.Logic.Relation
import Mathlib.Tactic.Push

/-! Dependency graphs given as lists of nodes with the ids they depend on. Ids may
repeat, dangle or form cycles. The marking loop repeats in-place passes until one
changes nothing; depth is measured by dependency chains and by resolution rounds. -/
namespace DependencyClosure

variable {β : Type*}

/-- `a` depends directly on `b` in some node that carries the id `a`. -/
def Edge (nodes : List (β × List β)) (a b : β) : Prop := ∃ n ∈ nodes, n.1 = a ∧ b ∈ n.2

def Reaches (nodes : List (β × List β)) : β → β → Prop := Relation.ReflTransGen (Edge nodes)

def DependsOn (nodes : List (β × List β)) : β → β → Prop := Relation.TransGen (Edge nodes)

theorem dependsOn_closed {nodes : List (β × List β)} {P : β → Prop}
    (h : ∀ a b, P a → Edge nodes a b → P b) {a b : β} (ha : P a) (hab : DependsOn nodes a b) :
    P b := by
  induction hab with
  | single he => exact h a _ ha he
  | tail _ he ih => exact h _ _ ih he

section Marking

variable [DecidableEq β]

def mark (marked : List β) (n : β × List β) : List β :=
  if n.1 ∈ marked then marked
  else if n.2.any (· ∈ marked) then marked ++ [n.1]
  else marked

def pass (nodes : List (β × List β)) (marked : List β) : List β := nodes.foldl mark marked

def sweep (nodes : List (β × List β)) : ℕ → List β → List β
  | 0, marked => marked
  | fuel + 1, marked =>
    if (pass nodes marked).length = marked.length then marked
    else sweep nodes fuel (pass nodes marked)

def closure (nodes : List (β × List β)) (seed : List β) : List β :=
  sweep nodes (nodes.length + 1) seed

def markFlag (s : List β × Bool) (n : β × List β) : List β × Bool :=
  if n.1 ∈ s.1 then s
  else if n.2.any (· ∈ s.1) then (s.1 ++ [n.1], true)
  else s

/-- The loop itself: lower the flag, sweep, repeat while the flag was raised. `none` when
the bound on the number of sweeps is hit. -/
def whileChanged (nodes : List (β × List β)) : ℕ → List β → Option (List β)
  | 0, _ => none
  | fuel + 1, marked =>
    match nodes.foldl markFlag (marked, false) with
    | (marked', true) => whileChanged nodes fuel marked'
    | (marked', false) => some marked'

theorem mark_extends (marked : List β) (n : β × List β) : marked <+: mark marked n := by
  unfold mark
  split_ifs
  · exact List.prefix_refl _
  · exact List.prefix_append _ _
  · exact List.prefix_refl _

theorem pass_extends (nodes : List (β × List β)) (marked : List β) :
    marked <+: pass nodes marked := by
  induction nodes generalizing marked with
  | nil => exact List.prefix_refl _
  | cons n nodes ih => exact (mark_extends marked n).trans (ih (mark marked n))

theorem pass_absorbs {nodes : List (β × List β)} {n : β × List β} (hn : n ∈ nodes) {b : β}
    (hb : b ∈ n.2) {marked : List β} (hm : b ∈ marked) : n.1 ∈ pass nodes marked := by
  induction nodes generalizing marked with
  | nil => cases hn
  | cons m nodes ih =>
    rcases List.mem_cons.mp hn with rfl | hn
    · apply (pass_extends nodes (mark marked n)).subset
      unfold mark
      split_ifs with h₁ h₂
      · exact h₁
      · simp
      · exact absurd (List.any_eq_true.mpr ⟨b, hb, decide_eq_true hm⟩) h₂
    · exact ih hn ((mark_extends marked m).subset hm)

theorem pass_sound {nodes : List (β × List β)} {seed : List β} :
    ∀ sub : List (β × List β), sub ⊆ nodes → ∀ marked : List β,
      (∀ a ∈ marked, ∃ s ∈ seed, Reaches nodes a s) →
      ∀ a ∈ pass sub marked, ∃ s ∈ seed, Reaches nodes a s := by
  intro sub
  induction sub with
  | nil => intro _ marked hm a ha; exact hm a ha
  | cons n sub ih =>
    intro hsub marked hm a ha
    refine ih (fun x hx => hsub (List.mem_cons_of_mem _ hx)) (mark marked n) ?_ a ha
    intro c hc
    unfold mark at hc
    split_ifs at hc with h₁ h₂
    · exact hm c hc
    · rcases List.mem_append.mp hc with hc | hc
      · exact hm c hc
      · obtain ⟨b, hb, hbm⟩ := List.any_eq_true.mp h₂
        obtain ⟨s, hs, hreach⟩ := hm b (of_decide_eq_true hbm)
        have he : Edge nodes c b :=
          ⟨n, hsub List.mem_cons_self, (List.mem_singleton.mp hc).symm, hb⟩
        exact ⟨s, hs, hreach.head he⟩
    · exact hm c hc

def unmarked (nodes : List (β × List β)) (marked : List β) : Finset β :=
  (nodes.map Prod.fst).toFinset \ marked.toFinset

theorem pass_marks_new {nodes : List (β × List β)} {marked rest : List β}
    (h : pass nodes marked = marked ++ rest) (hne : rest ≠ []) :
    ∃ a ∈ nodes.map Prod.fst, a ∉ marked ∧ a ∈ pass nodes marked := by
  induction nodes generalizing marked rest with
  | nil =>
    have he : marked = marked ++ rest := h
    exact absurd (List.self_eq_append_right.mp he) hne
  | cons n nodes ih =>
    by_cases hm : mark marked n = marked
    · have hp : pass nodes marked = marked ++ rest := by
        rw [← h]
        show pass nodes marked = pass nodes (mark marked n)
        rw [hm]
      obtain ⟨a, ha, hn, hin⟩ := ih hp hne
      refine ⟨a, List.mem_cons_of_mem _ ha, hn, ?_⟩
      show a ∈ pass nodes (mark marked n)
      rw [hm]
      exact hin
    · have hnm : n.1 ∉ marked := by
        intro hin
        exact hm (by simp [mark, hin])
      refine ⟨n.1, List.mem_cons_self, hnm, (pass_extends nodes (mark marked n)).subset ?_⟩
      unfold mark at hm ⊢
      split_ifs at hm ⊢ <;> simp_all

theorem pass_shrinks {nodes : List (β × List β)} {marked : List β}
    (h : (pass nodes marked).length ≠ marked.length) :
    (unmarked nodes (pass nodes marked)).card < (unmarked nodes marked).card := by
  obtain ⟨rest, hrest⟩ := pass_extends nodes marked
  have hne : rest ≠ [] := by
    rintro rfl
    exact h (by rw [← hrest]; simp)
  obtain ⟨a, ha, hn, hin⟩ := pass_marks_new hrest.symm hne
  apply Finset.card_lt_card
  refine Finset.ssubset_iff_of_subset ?_ |>.mpr ⟨a, ?_, ?_⟩
  · intro b hb
    simp only [unmarked, Finset.mem_sdiff, List.mem_toFinset] at hb ⊢
    exact ⟨hb.1, fun hm => hb.2 ((pass_extends nodes marked).subset hm)⟩
  · simp only [unmarked, Finset.mem_sdiff, List.mem_toFinset]
    exact ⟨ha, hn⟩
  · simp only [unmarked, Finset.mem_sdiff, List.mem_toFinset, not_and, not_not]
    exact fun _ => hin

theorem unmarked_card_le (nodes : List (β × List β)) (seed : List β) :
    (unmarked nodes seed).card ≤ nodes.length := by
  have h : (unmarked nodes seed).card ≤ (nodes.map Prod.fst).toFinset.card :=
    Finset.card_le_card Finset.sdiff_subset
  have hmap := (nodes.map Prod.fst).toFinset_card_le
  rw [List.length_map] at hmap
  exact h.trans hmap

/-- Enough sweeps end in a list that one more sweep leaves unchanged. -/
theorem sweep_fixpoint {nodes : List (β × List β)} :
    ∀ (fuel : ℕ) (marked : List β), (unmarked nodes marked).card < fuel →
      pass nodes (sweep nodes fuel marked) = sweep nodes fuel marked := by
  intro fuel
  induction fuel with
  | zero => intro marked h; omega
  | succ fuel ih =>
    intro marked h
    unfold sweep
    split_ifs with hl
    · exact ((pass_extends nodes marked).eq_of_length hl.symm).symm
    · have := pass_shrinks hl
      exact ih _ (by omega)

theorem closure_fixpoint (nodes : List (β × List β)) (seed : List β) :
    pass nodes (closure nodes seed) = closure nodes seed := by
  apply sweep_fixpoint
  exact Nat.lt_succ_of_le (unmarked_card_le nodes seed)

theorem sweep_sound {nodes : List (β × List β)} {seed : List β} :
    ∀ (fuel : ℕ) (marked : List β), (∀ a ∈ marked, ∃ s ∈ seed, Reaches nodes a s) →
      ∀ a ∈ sweep nodes fuel marked, ∃ s ∈ seed, Reaches nodes a s := by
  intro fuel
  induction fuel with
  | zero => intro marked h; exact h
  | succ fuel ih =>
    intro marked h
    unfold sweep
    split_ifs
    · exact h
    · exact ih _ (pass_sound nodes (List.Subset.refl _) marked h)

theorem sweep_keeps {nodes : List (β × List β)} :
    ∀ (fuel : ℕ) (marked : List β), marked ⊆ sweep nodes fuel marked := by
  intro fuel
  induction fuel with
  | zero => intro marked; exact List.Subset.refl _
  | succ fuel ih =>
    intro marked
    unfold sweep
    split_ifs
    · exact List.Subset.refl _
    · exact fun a ha => ih _ ((pass_extends nodes marked).subset ha)

theorem mem_closure {nodes : List (β × List β)} {seed : List β} {a : β} :
    a ∈ closure nodes seed ↔ ∃ s ∈ seed, Reaches nodes a s := by
  constructor
  · exact sweep_sound _ _ (fun b hb => ⟨b, hb, .refl⟩) a
  · rintro ⟨s, hs, h⟩
    induction h using Relation.ReflTransGen.head_induction_on with
    | refl => exact sweep_keeps _ _ hs
    | head he _ ih =>
      obtain ⟨n, hn, rfl, hb⟩ := he
      rw [← closure_fixpoint]
      exact pass_absorbs hn hb ih

theorem markFlag_cases (marked : List β) (changed : Bool) (n : β × List β) :
    markFlag (marked, changed) n = (marked, changed) ∧ mark marked n = marked ∨
      markFlag (marked, changed) n = (marked ++ [n.1], true) ∧
        mark marked n = marked ++ [n.1] := by
  unfold markFlag mark
  split_ifs
  · exact Or.inl ⟨rfl, rfl⟩
  · exact Or.inr ⟨rfl, rfl⟩
  · exact Or.inl ⟨rfl, rfl⟩

theorem foldl_markFlag (nodes : List (β × List β)) (marked : List β) (changed : Bool) :
    nodes.foldl markFlag (marked, changed) =
      (pass nodes marked, changed || decide ((pass nodes marked).length ≠ marked.length)) := by
  induction nodes generalizing marked changed with
  | nil => simp [pass]
  | cons n nodes ih =>
    have hpass : pass (n :: nodes) marked = pass nodes (mark marked n) := rfl
    rw [List.foldl_cons, hpass]
    rcases markFlag_cases marked changed n with ⟨hf, hm⟩ | ⟨hf, hm⟩
    · rw [hf, hm]
      exact ih marked changed
    · rw [hf, hm, ih, Bool.true_or]
      have hlen := (pass_extends nodes (marked ++ [n.1])).length_le
      rw [List.length_append, List.length_singleton] at hlen
      rw [decide_eq_true (Nat.ne_of_gt hlen), Bool.or_true]

/-- The loop ends within one sweep for each unmarked id and one more, in the same list. -/
theorem whileChanged_eq_sweep {nodes : List (β × List β)} :
    ∀ (fuel : ℕ) (marked : List β), (unmarked nodes marked).card < fuel →
      whileChanged nodes fuel marked = some (sweep nodes fuel marked) := by
  intro fuel
  induction fuel with
  | zero => intro marked h; omega
  | succ fuel ih =>
    intro marked h
    unfold whileChanged sweep
    rw [foldl_markFlag, Bool.false_or]
    split_ifs with hl
    · rw [decide_eq_false (not_not_intro hl)]
      exact congrArg some ((pass_extends nodes marked).eq_of_length hl.symm).symm
    · rw [decide_eq_true hl]
      have := pass_shrinks hl
      exact ih _ (by omega)

theorem sweep_more {nodes : List (β × List β)} (k : ℕ) :
    ∀ (fuel : ℕ) (marked : List β), (unmarked nodes marked).card < fuel →
      sweep nodes (fuel + k) marked = sweep nodes fuel marked := by
  intro fuel
  induction fuel with
  | zero => intro marked h; omega
  | succ fuel ih =>
    intro marked h
    rw [Nat.succ_add]
    unfold sweep
    split_ifs with hl
    · rfl
    · have := pass_shrinks hl
      exact ih _ (by omega)

/-- With any bound above the number of nodes the loop returns the closure. -/
theorem whileChanged_closure (nodes : List (β × List β)) (seed : List β) (k : ℕ) :
    whileChanged nodes (nodes.length + 1 + k) seed = some (closure nodes seed) := by
  have hc := unmarked_card_le nodes seed
  rw [whileChanged_eq_sweep _ _ (by omega), sweep_more k _ _ (by omega)]
  rfl

/-- What the loop adds to the seed are ids of nodes with a dependency that reaches it. -/
theorem mem_closure_iff {nodes : List (β × List β)} {seed : List β} {a : β} :
    a ∈ closure nodes seed ↔
      a ∈ seed ∨ ∃ n ∈ nodes, n.1 = a ∧ ∃ b ∈ n.2, ∃ s ∈ seed, Reaches nodes b s := by
  rw [mem_closure]
  constructor
  · rintro ⟨s, hs, h⟩
    rcases Relation.ReflTransGen.cases_head h with rfl | ⟨b, ⟨n, hn, hna, hb⟩, hreach⟩
    · exact Or.inl hs
    · exact Or.inr ⟨n, hn, hna, b, hb, s, hs, hreach⟩
  · rintro (ha | ⟨n, hn, hna, b, hb, s, hs, hreach⟩)
    · exact ⟨a, ha, .refl⟩
    · exact ⟨s, hs, .head ⟨n, hn, hna, hb⟩ hreach⟩

end Marking

section Depth

/-- `a` is resolved after `k` rounds when all its dependencies were after `k - 1`. -/
def Resolved (nodes : List (β × List β)) : ℕ → β → Prop
  | 0, _ => False
  | k + 1, a => ∀ b, Edge nodes a b → Resolved nodes k b

def ChainsBounded (nodes : List (β × List β)) (k : ℕ) : Prop :=
  ∀ l : List β, l.IsChain (Edge nodes) → l.length ≤ k

theorem unresolved_chain {nodes : List (β × List β)} :
    ∀ (k : ℕ) (a : β), ¬ Resolved nodes k a →
      ∃ l : List β, (a :: l).IsChain (Edge nodes) ∧ l.length = k := by
  intro k
  induction k with
  | zero => intro a _; exact ⟨[], List.isChain_singleton a, rfl⟩
  | succ k ih =>
    intro a h
    simp only [Resolved, not_forall] at h
    obtain ⟨b, he, hb⟩ := h
    obtain ⟨l, hl, hlen⟩ := ih b hb
    exact ⟨b :: l, List.IsChain.cons_cons he hl, by simp [hlen]⟩

theorem resolved_of_bounded {nodes : List (β × List β)} {k : ℕ} (h : ChainsBounded nodes k)
    (a : β) : Resolved nodes k a := by
  by_contra hn
  obtain ⟨l, hl, hlen⟩ := unresolved_chain k a hn
  have := h (a :: l) hl
  simp only [List.length_cons] at this
  omega

theorem resolved_mono {nodes : List (β × List β)} :
    ∀ (k : ℕ) (a : β), Resolved nodes k a → Resolved nodes (k + 1) a := by
  intro k
  induction k with
  | zero => intro a h; exact h.elim
  | succ k ih => intro a h b he; exact ih b (h b he)

theorem resolved_of_le {nodes : List (β × List β)} {k l : ℕ} (h : k ≤ l) {a : β}
    (ha : Resolved nodes k a) : Resolved nodes l a := by
  induction l, h using Nat.le_induction with
  | base => exact ha
  | succ l _ ih => exact resolved_mono l a ih

theorem chain_of_resolved {nodes : List (β × List β)} :
    ∀ (k : ℕ) (a : β) (l : List β), Resolved nodes k a → (a :: l).IsChain (Edge nodes) →
      l.length < k := by
  intro k
  induction k with
  | zero => intro a l h _; exact h.elim
  | succ k ih =>
    intro a l h hl
    cases l with
    | nil => exact Nat.succ_pos k
    | cons b l =>
      rw [List.isChain_cons_cons] at hl
      exact Nat.succ_lt_succ (ih b l (h b hl.1) hl.2)

theorem bounded_of_resolved {nodes : List (β × List β)} {k : ℕ} (h : ∀ a, Resolved nodes k a) :
    ChainsBounded nodes k := by
  intro l hl
  cases l with
  | nil => exact Nat.zero_le k
  | cons a l => exact chain_of_resolved k a l (h a) hl

/-- As long as something in a dependency-closed set is unresolved after `n` rounds, the next
round resolves something of it. -/
theorem exists_next_level {nodes : List (β × List β)} {P : β → Prop}
    (hclosed : ∀ a b, P a → Edge nodes a b → P b) {n k : ℕ} {a : β} (ha : P a)
    (hk : Resolved nodes k a) (hn : ¬ Resolved nodes n a) :
    ∃ b, P b ∧ Resolved nodes (n + 1) b ∧ ¬ Resolved nodes n b := by
  by_contra hno
  push Not at hno
  have hdown : ∀ (d : ℕ) (c : β), P c → Resolved nodes (n + d) c → Resolved nodes n c := by
    intro d
    induction d with
    | zero => exact fun c _ h => h
    | succ d ih =>
      intro c hc h
      exact hno c hc fun b he => ih b (hclosed c b hc he) (h b he)
  exact hn (hdown k a ha (resolved_of_le (Nat.le_add_left k n) hk))

end Depth

end DependencyClosure
