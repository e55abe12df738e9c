import OneOps.DependencyClosure
import OneOps.FulfillmentContracts

/-! What the constructors of catalog templates and plans accept. Both `_validate_dag`
validators look at one dependency at a time: an unknown id and a self-reference are refused,
a repeated id and a cycle through several tasks are not seen. -/
namespace FulfillmentTemplates

open DependencyClosure
open FulfillmentContracts

/-- The two `ValueError`s of `_validate_dag`. -/
inductive DagError where
  | unknownTask (taskId dep : String)
  | selfDependency (taskId : String)
  deriving DecidableEq, Repr

def checkDep (ids : List String) (taskId dep : String) : Option DagError :=
  if dep ∉ ids then some (.unknownTask taskId dep)
  else if dep = taskId then some (.selfDependency taskId)
  else none

def validateDag (nodes : List (String × List String)) : Option DagError :=
  nodes.findSome? fun n => n.2.findSome? (checkDep (nodes.map Prod.fst) n.1)

/-- What a template or a plan is for: every dependency is a task of the list, ids are
distinct, and no task waits for itself. -/
structure WellFormed (nodes : List (String × List String)) : Prop where
  named : ∀ n ∈ nodes, ∀ dep ∈ n.2, dep ∈ nodes.map Prod.fst
  distinct : (nodes.map Prod.fst).Nodup
  acyclic : ∀ a, ¬ DependsOn nodes a a

/-- Two different tasks that wait for each other, directly or through others. -/
def Deadlocked (nodes : List (String × List String)) : Prop :=
  ∃ a b, a ≠ b ∧ DependsOn nodes a b ∧ DependsOn nodes b a

section Checks

variable {nodes : List (String × List String)}

theorem checkDep_none {ids : List String} {taskId dep : String} :
    checkDep ids taskId dep = none ↔ dep ∈ ids ∧ dep ≠ taskId := by
  unfold checkDep
  by_cases h₁ : dep ∈ ids
  · by_cases h₂ : dep = taskId
    · subst h₂
      simp [h₁]
    · simp [h₁, h₂]
  · simp [h₁]

theorem validateDag_none : validateDag nodes = none ↔ DagShape (nodes.map Prod.fst) nodes := by
  simp only [validateDag, List.findSome?_eq_none_iff, checkDep_none, DagShape]

theorem fst_templateNodes (tasks : List CatalogTemplateTask) :
    (templateNodes tasks).map Prod.fst = tasks.map (·.taskId) := by
  rw [templateNodes, List.map_map]
  rfl

theorem fst_planNodes (tasks : List TaskPlanItem) :
    (planNodes tasks).map Prod.fst = tasks.map (·.templateTaskId) := by
  rw [planNodes, List.map_map]
  rfl

theorem catalog_dag_checked (t : CatalogTemplate) : validateDag (templateNodes t.tasks) = none := by
  rw [validateDag_none, fst_templateNodes]
  exact t.valid.dag

theorem plan_dag_checked (p : FulfillmentPlan) : validateDag (planNodes p.tasks) = none := by
  rw [validateDag_none, fst_planNodes]
  exact p.valid.dag

theorem deadlocked_of_cycle (h : DagShape (nodes.map Prod.fst) nodes) {a : String}
    (hc : DependsOn nodes a a) : Deadlocked nodes := by
  obtain ⟨b, ⟨n, hn, rfl, hb⟩, hrest⟩ := Relation.TransGen.head'_iff.mp hc
  have hne : b ≠ n.1 := (h n hn b hb).2
  refine ⟨n.1, b, hne.symm, .single ⟨n, hn, rfl, hb⟩, ?_⟩
  exact (Relation.reflTransGen_iff_eq_or_transGen.mp hrest).resolve_left hne.symm

theorem not_deadlocked (h : ∀ a, ¬ DependsOn nodes a a) : ¬ Deadlocked nodes := by
  rintro ⟨a, b, _, hab, hba⟩
  exact h a (hab.trans hba)

theorem checked_wellFormed_iff (h : validateDag nodes = none) :
    WellFormed nodes ↔ (nodes.map Prod.fst).Nodup ∧ ¬ Deadlocked nodes := by
  rw [validateDag_none] at h
  constructor
  · intro hw
    exact ⟨hw.distinct, not_deadlocked hw.acyclic⟩
  · rintro ⟨hd, hn⟩
    refine ⟨fun n hn dep hdep => (h n hn dep hdep).1, hd, ?_⟩
    intro a hc
    exact hn (deadlocked_of_cycle h hc)

end Checks

/-- Every template and every plan that can be constructed is well formed exactly when no id
repeats and no two tasks wait for each other. -/
theorem constructed_wellFormed_iff (t : CatalogTemplate) (p : FulfillmentPlan) :
    (WellFormed (templateNodes t.tasks) ↔
      (t.tasks.map (·.taskId)).Nodup ∧ ¬ Deadlocked (templateNodes t.tasks)) ∧
    (WellFormed (planNodes p.tasks) ↔
      (p.tasks.map (·.templateTaskId)).Nodup ∧ ¬ Deadlocked (planNodes p.tasks)) := by
  constructor
  · rw [checked_wellFormed_iff (catalog_dag_checked t), fst_templateNodes]
  · rw [checked_wellFormed_iff (plan_dag_checked p), fst_planNodes]

def manualStep (taskId : String) (dependsOn : List String) : CatalogTemplateTask :=
  ⟨taskId, taskId, .manual, none, dependsOn, none, none, none⟩

def laptopTemplate (tasks : List CatalogTemplateTask) : CatalogTemplateFields :=
  ⟨"CAT-LAPTOP", "T001", "Laptop", none, "hardware", "GRP-IT", 60, tasks⟩

def manualItem (taskId : String) (dependsOn : List String) : TaskPlanItem :=
  ⟨taskId, taskId, .manual, none, dependsOn, none, none, []⟩

def circularSteps : List (String × List String) :=
  [("image", ["deliver"]), ("deliver", ["image"])]

def repeatedSteps : List (String × List String) := [("image", []), ("image", [])]

def templateOf (steps : List (String × List String)) : CatalogTemplateFields :=
  laptopTemplate (steps.map fun n => manualStep n.1 n.2)

def planOf (steps : List (String × List String)) : FulfillmentPlanFields :=
  ⟨"CAT-LAPTOP", steps.map fun n => manualItem n.1 n.2, 60⟩

/-- The constructors accept a template and a plan with a cycle of two tasks, and a template
and a plan with a repeated id; none of them is well formed. -/
theorem malformed_accepted :
    ((templateOf circularSteps).Valid ∧ (planOf circularSteps).Valid ∧
      ¬ WellFormed (templateNodes (templateOf circularSteps).tasks) ∧
      ¬ WellFormed (planNodes (planOf circularSteps).tasks)) ∧
    (templateOf repeatedSteps).Valid ∧ (planOf repeatedSteps).Valid ∧
      ¬ WellFormed (templateNodes (templateOf repeatedSteps).tasks) ∧
      ¬ WellFormed (planNodes (planOf repeatedSteps).tasks) := by
  have hcycle : ¬ WellFormed circularSteps := by
    intro h
    have hab : Edge circularSteps "image" "deliver" :=
      ⟨("image", ["deliver"]), by decide, rfl, by decide⟩
    have hba : Edge circularSteps "deliver" "image" :=
      ⟨("deliver", ["image"]), by decide, rfl, by decide⟩
    exact h.acyclic "image" (.tail (.single hab) hba)
  have hrepeat : ¬ WellFormed repeatedSteps := by
    intro h
    have := h.distinct
    simp [repeatedSteps] at this
  refine ⟨⟨by decide, by decide, hcycle, hcycle⟩, by decide, by decide, hrepeat, hrepeat⟩

end FulfillmentTemplates
