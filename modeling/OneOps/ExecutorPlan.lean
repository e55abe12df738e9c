import OneOps.RowMerge
import OneOps.FulfillmentContracts

/-! The rows of the executor's two accumulating channels and their reducers: the plan
keeps the first definition of a step, the results keep the last one. Every row carries
its `step_id`, so the anonymous keys of the reducers do not arise. -/
namespace ExecutorPlan

open FulfillmentContracts
open RowMerge

inductive StepStatus where
  | success | failed | denied | blocked
  deriving DecidableEq, Repr

structure ParameterBinding where
  fromStep : String
  fromField : String
  toParam : String
  required : Bool

/-- A serialised plan step. `turnId` is absent on generated steps and on plans that the
fast path builds; the generation budgets are counts. -/
structure Step where
  stepId : String
  agentId : String
  parameters : JsonObject
  dependsOn : List String
  turnId : Option String
  toolId : String
  intent : Option String
  parameterBindings : List ParameterBinding
  dependencyTypes : List (String × String)
  genDepth : ℕ
  genMaxDepth : Option ℕ
  genMaxWidth : Option ℕ

structure StepResult where
  stepId : String
  agentId : String
  turnId : Option String
  status : StepStatus
  output : Json
  error : Option String
  toolId : String
  latencyMs : Option ℕ
  generationNote : String

def makeResult (step : Step) (status : StepStatus) (output : Json) (error : Option String)
    (toolId : String) (latencyMs : Option ℕ) : StepResult :=
  ⟨step.stepId, step.agentId, step.turnId, status, output, error, toolId, latencyMs, ""⟩

def mergeStepResults (left right : List StepResult) : List StepResult :=
  mergeLast StepResult.stepId left right

def mergePlan (left right : List Step) : List Step := mergeFirst Step.stepId left right

/-- `dependency_type`: the first pair that names the dependency, `hard` by default. -/
def dependencyType (step : Step) (dep : String) : String :=
  ((step.dependencyTypes.find? fun pair => pair.1 = dep).map Prod.snd).getD "hard"

end ExecutorPlan
