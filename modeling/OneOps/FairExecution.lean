import Mathlib.Logic.Relation
import Mathlib.Order.WellFounded
import Mathlib.Tactic.Choose
import Mathlib.Tactic.Push

/-! Infinite executions of a step relation, seen through a view of the state. Steps keep the
view or lower it in a well-founded order; an execution is fair when the view does not stay
the same forever before it is done. Fair executions get done. -/
namespace FairExecution

variable {α κ : Type*}

def Execution (step : α → α → Prop) (f : ℕ → α) : Prop := ∀ i, step (f i) (f (i + 1))

def Fair (v : α → κ) (done : κ → Prop) (f : ℕ → α) : Prop :=
  ∀ i, done (v (f i)) ∨ ∃ j, i ≤ j ∧ v (f (j + 1)) ≠ v (f j)

variable {step : α → α → Prop} {v : α → κ} {done : κ → Prop} {lt : κ → κ → Prop}

theorem Execution.reaches {f : ℕ → α} (h : Execution step f) {i n : ℕ} (hin : i ≤ n) :
    Relation.ReflTransGen step (f i) (f n) := by
  induction n, hin using Nat.le_induction with
  | base => exact .refl
  | succ n _ ih => exact ih.tail (h n)

theorem Execution.lowers {f : ℕ → α} (hf : Execution step f)
    (h : ∀ x y, step x y → v y = v x ∨ lt (v y) (v x)) :
    ∀ {d i : ℕ}, v (f (i + d + 1)) ≠ v (f (i + d)) → ∃ n, lt (v (f n)) (v (f i)) := by
  intro d
  induction d with
  | zero =>
    intro i hne
    exact ⟨i + 1, (h _ _ (hf i)).resolve_left hne⟩
  | succ d ih =>
    intro i hne
    rcases h _ _ (hf i) with hkeep | hlow
    · have hshift : i + (d + 1) = i + 1 + d := by omega
      rw [hshift] at hne
      obtain ⟨n, hn⟩ := ih hne
      exact ⟨n, hkeep ▸ hn⟩
    · exact ⟨i + 1, hlow⟩

theorem fair_done (hlt : WellFounded lt) (h : ∀ x y, step x y → v y = v x ∨ lt (v y) (v x))
    {f : ℕ → α} (hf : Execution step f) (hfair : Fair v done f) : ∃ n, done (v (f n)) := by
  have main : ∀ k, ∀ i, v (f i) = k → ∃ n, done (v (f n)) := by
    intro k
    induction k using hlt.induction with
    | _ k ih =>
      intro i hi
      rcases hfair i with hd | ⟨j, hij, hne⟩
      · exact ⟨i, hd⟩
      · obtain ⟨d, rfl⟩ := Nat.exists_eq_add_of_le hij
        obtain ⟨n, hn⟩ := hf.lowers h hne
        exact ih _ (hi ▸ hn) n rfl
  exact main _ 0 rfl

theorem fair_of_done {f : ℕ → α} {n : ℕ} (h : ∀ i, n ≤ i → done (v (f i))) : Fair v done f := by
  intro i
  by_contra hno
  push Not at hno
  obtain ⟨hnot, hstuck⟩ := hno
  have hsame : ∀ d, v (f (i + d)) = v (f i) := by
    intro d
    induction d with
    | zero => rfl
    | succ d ih => exact (hstuck (i + d) (Nat.le_add_right i d)).trans ih
  exact hnot (hsame n ▸ h (i + n) (Nat.le_add_left n i))

/-- Where steps can wait and every state that is not done can be moved on, every state has a
fair execution: it moves on while it can. -/
theorem exists_fair (hidle : ∀ x, step x x)
    (h : ∀ x, done (v x) ∨ ∃ y, step x y ∧ v y ≠ v x) (x : α) :
    ∃ f : ℕ → α, f 0 = x ∧ Execution step f ∧ Fair v done f := by
  classical
  have hnext : ∀ x, ∃ y, step x y ∧ (done (v x) ∨ v y ≠ v x) := by
    intro x
    rcases h x with hd | ⟨y, hs, hne⟩
    · exact ⟨x, hidle x, .inl hd⟩
    · exact ⟨y, hs, .inr hne⟩
  choose next hstep hmove using hnext
  have hsucc : ∀ i, next^[i + 1] x = next (next^[i] x) :=
    fun i => Function.iterate_succ_apply' next i x
  refine ⟨fun n => next^[n] x, rfl, fun i => ?_, fun i => ?_⟩
  · simp only [hsucc]
    exact hstep _
  · refine (hmove (next^[i] x)).imp_right fun hne => ⟨i, le_rfl, ?_⟩
    simp only [hsucc]
    exact hne

end FairExecution
