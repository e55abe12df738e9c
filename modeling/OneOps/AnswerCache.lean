import Mathlib.Logic.Function.Basic
import Mathlib.Tactic.Common

/-! A cache of answers, with the question behind every row. A question is everything that
its answer depends on, and some questions have none; a key may leave part of the question
out. A row that is served is right exactly when the question it was stored for has the
answer of the question that is asked. -/
namespace AnswerCache

variable {κ ι ρ : Type*}

/-- `origins` holds the question that each row answers. The cache itself does not have it. -/
structure Traced (key : ι → κ) (answer : ι → Option ρ) (rows : κ → Option ρ)
    (origins : κ → Option ι) : Prop where
  missing : ∀ k, origins k = none → rows k = none
  stored : ∀ k i, origins k = some i → key i = k ∧ rows k = answer i ∧ answer i ≠ none

def Faithful (key : ι → κ) (answer : ι → Option ρ) (rows : κ → Option ρ) (i : ι) : Prop :=
  ∀ r, rows (key i) = some r → answer i = some r

def Agrees (key : ι → κ) (answer : ι → Option ρ) (origins : κ → Option ι) (i : ι) : Prop :=
  ∀ j, origins (key i) = some j → answer j = answer i

variable {key : ι → κ} {answer : ι → Option ρ} {rows : κ → Option ρ} {origins : κ → Option ι}

theorem traced_empty : Traced key answer (fun _ => none) fun _ => none :=
  ⟨fun _ _ => rfl, fun _ _ h => (by cases h)⟩

theorem Traced.faithful_iff (h : Traced key answer rows origins) (i : ι) :
    Faithful key answer rows i ↔ Agrees key answer origins i := by
  constructor
  · intro hf j hj
    obtain ⟨_, hrow, hne⟩ := h.stored _ j hj
    obtain ⟨r, hr⟩ := Option.ne_none_iff_exists'.mp hne
    rw [hf r (hrow.trans hr), hr]
  · intro ha r hr
    cases hj : origins (key i) with
    | none =>
      rw [h.missing _ hj] at hr
      cases hr
    | some j =>
      rw [← ha j hj, ← (h.stored _ j hj).2.1, hr]

/-- A row that is there was stored for a question of its key. -/
theorem Traced.origin (h : Traced key answer rows origins) {k : κ} {r : ρ} (hr : rows k = some r) :
    ∃ j, origins k = some j ∧ key j = k ∧ answer j = some r := by
  cases hj : origins k with
  | none =>
    rw [h.missing k hj] at hr
    cases hr
  | some j =>
    obtain ⟨hkey, hrow, _⟩ := h.stored k j hj
    exact ⟨j, rfl, hkey, hrow.symm.trans hr⟩

variable [DecidableEq κ]

theorem Traced.drop (h : Traced key answer rows origins) (k : κ) :
    Traced key answer (Function.update rows k none) (Function.update origins k none) := by
  constructor
  · intro k' hk'
    by_cases hk : k' = k
    · simp [hk]
    · rw [Function.update_of_ne hk] at hk' ⊢
      exact h.missing k' hk'
  · intro k' i hi
    by_cases hk : k' = k
    · simp [hk] at hi
    · rw [Function.update_of_ne hk] at hi ⊢
      exact h.stored k' i hi

theorem Traced.store (h : Traced key answer rows origins) {i : ι} {r : ρ} (hr : answer i = some r) :
    Traced key answer (Function.update rows (key i) (some r))
      (Function.update origins (key i) (some i)) := by
  constructor
  · intro k hk'
    by_cases hk : k = key i
    · simp [hk] at hk'
    · rw [Function.update_of_ne hk] at hk' ⊢
      exact h.missing k hk'
  · intro k j hj
    by_cases hk : k = key i
    · rw [hk, Function.update_self, Option.some.injEq] at hj
      subst hj
      rw [hk, Function.update_self]
      exact ⟨rfl, hr.symm, by simp [hr]⟩
    · rw [Function.update_of_ne hk] at hj ⊢
      exact h.stored k j hj

end AnswerCache
