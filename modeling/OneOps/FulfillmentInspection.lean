import OneOps.DependencyClosure
import OneOps.FulfillmentDb

/-! The pure helpers of the executor: they look at one listing of a RITM's task rows
and decide what is ready, what a failure poisons and whether the run is over. -/
namespace FulfillmentInspection

open FulfillmentContracts
open FulfillmentDb
open DependencyClosure

/-- The `by_tmpl` dictionary: a later row with the same template id wins. -/
def byTmpl (tasks : List TaskRow) (dep : String) : Option TaskRow :=
  tasks.reverse.find? fun t => t.templateTaskId = dep

def Waiting (s : TaskState) : Prop := s = .pending ∨ s = .ready

instance (s : TaskState) : Decidable (Waiting s) := inferInstanceAs (Decidable (_ ∨ _))

/-- The states in which a dependency no longer holds its dependents back. -/
def Satisfied (s : TaskState) : Prop := s = .done ∨ s = .skipped

instance (s : TaskState) : Decidable (Satisfied s) := inferInstanceAs (Decidable (_ ∨ _))

def depOk (tasks : List TaskRow) (dep : String) : Bool :=
  match byTmpl tasks dep with
  | none => false
  | some row => Satisfied row.state

def depsOk (tasks : List TaskRow) (t : TaskRow) : Bool :=
  Waiting t.state && t.dependsOn.all (depOk tasks)

def readyTaskIds (tasks : List TaskRow) : List String :=
  (tasks.filter (depsOk tasks)).map (·.taskId)

def readyTasks (tasks : List TaskRow) : List TaskRow :=
  tasks.filter fun t => t.taskId ∈ readyTaskIds tasks

def taskNodes (tasks : List TaskRow) : List (String × List String) :=
  tasks.map fun t => (t.templateTaskId, t.dependsOn)

def poisonedTemplates (tasks : List TaskRow) (seed : List String) : List String :=
  closure (taskNodes tasks) seed

/-- The loop of `_poisoned_templates`, run for at most `fuel` sweeps. -/
def poisonLoop (tasks : List TaskRow) (fuel : ℕ) (seed : List String) : Option (List String) :=
  whileChanged (taskNodes tasks) fuel seed

def failedTemplates (tasks : List TaskRow) : List String :=
  (tasks.filter fun t => t.state = .failed).map (·.templateTaskId)

def transitivelyBlockedTaskIds (tasks : List TaskRow) : List (String × TaskState × ℕ) :=
  if (failedTemplates tasks).isEmpty then []
  else (tasks.filter fun t => Waiting t.state ∧
      t.templateTaskId ∈ poisonedTemplates tasks (failedTemplates tasks)).map
    fun t => (t.taskId, t.state, t.version)

def InFlight (s : TaskState) : Prop := s = .pending ∨ s = .ready ∨ s = .inProgress

instance (s : TaskState) : Decidable (InFlight s) := inferInstanceAs (Decidable (_ ∨ _))

/-- `none` is `(False, "")`. The `blocked` answer sits under the in-flight test. -/
def isTerminal (tasks : List TaskRow) : Option RitmOutcome :=
  if tasks.any (fun t => InFlight t.state) then
    if tasks.all (fun t => t.state = .blocked ∨ t.state = .done ∨ t.state = .skipped) then
      some .blocked
    else none
  else if tasks.all (fun t => Satisfied t.state) then some .fulfilled
  else if tasks.any (fun t => t.state = .done) && tasks.any (fun t => t.state = .failed) then
    some .partialFailure
  else some .failed

def countByState (tasks : List TaskRow) (s : TaskState) : ℕ :=
  (tasks.filter fun t => t.state = s).length

def renderDisplay (ritmId : String) (outcome : RitmOutcome) (tasks : List TaskRow) : String :=
  let done := toString (countByState tasks .done)
  let failed := toString (countByState tasks .failed)
  let total := toString tasks.length
  match outcome with
  | .fulfilled =>
    "Fulfillment " ++ ritmId ++ " completed: " ++ done ++ "/" ++ total ++ " tasks done."
  | .partialFailure => "Fulfillment " ++ ritmId ++ " ended with partial failure: " ++
      done ++ "/" ++ total ++ " done, " ++ failed ++ " failed."
  | .blocked => "Fulfillment " ++ ritmId ++ " is blocked awaiting approval."
  | .failed => "Fulfillment " ++ ritmId ++ " failed: " ++ failed ++ " failed task(s)."

/-- The loop ends within one sweep more than there are tasks. It returns the seed and the
template ids of the tasks from which a seed id is reached through their dependencies. -/
theorem poisoned_templates_exact (tasks : List TaskRow) (seed : List String) :
    (∀ k, poisonLoop tasks (tasks.length + 1 + k) seed = some (poisonedTemplates tasks seed)) ∧
      ∀ x, x ∈ poisonedTemplates tasks seed ↔
        x ∈ seed ∨ ∃ t ∈ tasks, t.templateTaskId = x ∧
          ∃ d ∈ t.dependsOn, ∃ s ∈ seed, Reaches (taskNodes tasks) d s := by
  constructor
  · intro k
    have hlen : (taskNodes tasks).length = tasks.length := List.length_map _
    rw [← hlen]
    exact whileChanged_closure (taskNodes tasks) seed k
  · intro x
    unfold poisonedTemplates
    rw [DependencyClosure.mem_closure_iff]
    constructor
    · rintro (hx | ⟨n, hn, hnx, d, hd, hreach⟩)
      · exact Or.inl hx
      · obtain ⟨t, ht, rfl⟩ := List.mem_map.mp hn
        exact Or.inr ⟨t, ht, hnx, d, hd, hreach⟩
    · rintro (hx | ⟨t, ht, htx, d, hd, hreach⟩)
      · exact Or.inl hx
      · exact Or.inr ⟨_, List.mem_map_of_mem ht, htx, d, hd, hreach⟩

theorem mem_transitivelyBlocked {tasks : List TaskRow} {x : String × TaskState × ℕ} :
    x ∈ transitivelyBlockedTaskIds tasks ↔
      ∃ t ∈ tasks, x = (t.taskId, t.state, t.version) ∧ Waiting t.state ∧
        ∃ f ∈ tasks, f.state = .failed ∧
          Reaches (taskNodes tasks) t.templateTaskId f.templateTaskId := by
  have hseed : ∀ a, a ∈ failedTemplates tasks ↔
      ∃ f ∈ tasks, f.state = .failed ∧ f.templateTaskId = a := by
    intro a
    simp [failedTemplates, and_assoc]
  unfold transitivelyBlockedTaskIds
  split
  · rename_i he
    have hnone : failedTemplates tasks = [] := List.isEmpty_iff.mp he
    simp only [List.not_mem_nil, false_iff, not_exists, not_and]
    intro t _ _ _ f hf hfail
    have := (hseed f.templateTaskId).mpr ⟨f, hf, hfail, rfl⟩
    simp [hnone] at this
  · simp only [List.mem_map, List.mem_filter, decide_eq_true_eq]
    constructor
    · rintro ⟨t, ⟨ht, hw, hp⟩, rfl⟩
      obtain ⟨s, hs, hr⟩ := mem_closure.mp hp
      obtain ⟨f, hf, hfail, rfl⟩ := (hseed s).mp hs
      exact ⟨t, ht, rfl, hw, f, hf, hfail, hr⟩
    · rintro ⟨t, ht, rfl, hw, f, hf, hfail, hr⟩
      exact ⟨t, ⟨ht, hw, mem_closure.mpr ⟨_, (hseed _).mpr ⟨f, hf, hfail, rfl⟩, hr⟩⟩, rfl⟩

theorem mem_readyTasks {tasks : List TaskRow} {t : TaskRow} :
    t ∈ readyTasks tasks ↔
      t ∈ tasks ∧ ∃ u ∈ tasks, u.taskId = t.taskId ∧ depsOk tasks u = true := by
  rw [readyTasks, List.mem_filter, decide_eq_true_eq]
  simp only [readyTaskIds, List.mem_map, List.mem_filter]
  constructor
  · rintro ⟨ht, u, ⟨hu, hok⟩, he⟩
    exact ⟨ht, u, hu, he, hok⟩
  · rintro ⟨ht, u, hu, he, hok⟩
    exact ⟨ht, u, ⟨hu, hok⟩, he⟩

theorem byTmpl_eq_some {tasks : List TaskRow} {dep : String} {r : TaskRow}
    (h : byTmpl tasks dep = some r) : r ∈ tasks ∧ r.templateTaskId = dep := by
  refine ⟨List.mem_reverse.mp (List.mem_of_find?_eq_some h), ?_⟩
  have := List.find?_some h
  simpa using this

theorem depOk_iff {tasks : List TaskRow} {dep : String} :
    depOk tasks dep = true ↔ ∃ r, byTmpl tasks dep = some r ∧ Satisfied r.state := by
  unfold depOk
  cases byTmpl tasks dep <;> simp

theorem depsOk_iff {tasks : List TaskRow} {t : TaskRow} :
    depsOk tasks t = true ↔ Waiting t.state ∧ ∀ dep ∈ t.dependsOn, depOk tasks dep = true := by
  simp [depsOk]

theorem isTerminal_ne_blocked (tasks : List TaskRow) : isTerminal tasks ≠ some .blocked := by
  unfold isTerminal
  split_ifs with h₁ h₂
  · obtain ⟨t, ht, hs⟩ := List.any_eq_true.mp h₁
    have hb := of_decide_eq_true (List.all_eq_true.mp h₂ t ht)
    have hf : InFlight t.state := of_decide_eq_true hs
    unfold InFlight at hf
    rcases hf with h | h | h <;> simp [h] at hb
  all_goals simp

theorem isTerminal_eq_none {tasks : List TaskRow} :
    isTerminal tasks = none ↔ ∃ t ∈ tasks, InFlight t.state := by
  have hany : tasks.any (fun t => InFlight t.state) = true ↔ ∃ t ∈ tasks, InFlight t.state := by
    simp
  have hblocked := isTerminal_ne_blocked tasks
  rw [← hany]
  unfold isTerminal at hblocked ⊢
  split_ifs at hblocked ⊢ <;> simp_all

theorem isTerminal_fulfilled {tasks : List TaskRow} :
    isTerminal tasks = some .fulfilled ↔ ∀ t ∈ tasks, Satisfied t.state := by
  constructor
  · intro h
    unfold isTerminal at h
    split_ifs at h with h₁ h₂ h₃ <;> simp_all
  · intro h
    have hfl : tasks.any (fun t => InFlight t.state) = false := by
      simp only [List.any_eq_false, decide_eq_true_eq]
      intro t ht hf
      unfold InFlight at hf
      rcases h t ht with hs | hs <;> simp [hs] at hf
    have hall : tasks.all (fun t => Satisfied t.state) = true := by simpa using h
    simp [isTerminal, hfl, hall]

end FulfillmentInspection
