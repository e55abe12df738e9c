import OneOps.ExecutorPlan
import Mathlib.Data.List.Sort
import Mathlib.Algebra.Group.Nat.Defs

/-! The nodes of the executor graph that run a plan: `dispatch_wave` picks the runnable
steps, `run_step` takes one of them through its guards and its handler, `aggregate`
orders the results. The services a node calls are parameters; a paused node restarts
from the top with the same payload, so `runStep` is its last pass. -/
namespace ExecutorNodes

open FulfillmentContracts
open ExecutorPlan
open RowMerge

/-- One segment of a dotted path. Values other than dicts answer by attribute. -/
def segmentGet (getAttr : Json → String → Json) (cur : Json) (seg : String) : Json :=
  if seg = "" then .null
  else
    match cur with
    | .obj fields => ((fields.find? fun f => f.1 = seg).map Prod.snd).getD .null
    | v => getAttr v seg

def walk (getAttr : Json → String → Json) : Json → List String → Json
  | cur, [] => cur
  | cur, seg :: segs =>
    match segmentGet getAttr cur seg with
    | .null => .null
    | next => walk getAttr next segs

def segments (path : String) : List String := (path.toList.splitOn '.').map String.ofList

def dottedGet (getAttr : Json → String → Json) (obj : Json) (path : String) : Json :=
  walk getAttr obj (segments path)

abbrev PreviousResults := List (String × StepResult)

def previous (prev : PreviousResults) (stepId : String) : Option StepResult :=
  (prev.find? fun p => p.1 = stepId).map Prod.snd

inductive BindAction where
  | bind (toParam : String) (value : Json)
  | skip
  | blocked (reason : String)

/-- The field at the top level of the producer's output, else under `bindable`. -/
def boundValue (getAttr : Json → String → Json) (output : Json) (fromField : String) : Json :=
  match dottedGet getAttr output fromField with
  | .null =>
    match output with
    | .obj fields =>
      dottedGet getAttr (((fields.find? fun f => f.1 = "bindable").map Prod.snd).getD .null)
        fromField
    | _ => .null
  | v => v

def resolveOneBinding (getAttr : Json → String → Json) (b : ParameterBinding) (kind : String)
    (prev : PreviousResults) : BindAction :=
  let unsuccessful (why : String) : BindAction :=
    if kind = "soft" then .skip
    else if b.required then .blocked ("upstream step '" ++ b.fromStep ++ "' " ++ why)
    else .skip
  match previous prev b.fromStep with
  | none => unsuccessful "produced no result"
  | some r =>
    if r.status ≠ .success then unsuccessful "did not succeed"
    else
      match boundValue getAttr r.output b.fromField with
      | .null =>
        if b.required then
          .blocked ("required input '" ++ b.toParam ++ "' is missing — '" ++ b.fromStep ++ "." ++
            b.fromField ++ "' was not in its output")
        else .skip
      | v => .bind b.toParam v

/-- The loop over the declared bindings; the first one that blocks ends it. -/
def resolveFrom (getAttr : Json → String → Json) (step : Step) (prev : PreviousResults) :
    JsonObject → List ParameterBinding → Except String JsonObject
  | bound, [] => .ok bound
  | bound, b :: bs =>
    match resolveOneBinding getAttr b (dependencyType step b.fromStep) prev with
    | .blocked reason => .error reason
    | .bind toParam v => resolveFrom getAttr step prev (upsert Prod.fst bound (toParam, v)) bs
    | .skip => resolveFrom getAttr step prev bound bs

def resolveBindings (getAttr : Json → String → Json) (step : Step) (prev : PreviousResults) :
    Except String JsonObject :=
  resolveFrom getAttr step prev [] step.parameterBindings

/-- A well-typed generated step as the handler wrote it: empty fields are the absent ones. An
entry that is no dict and a `depends_on` that cannot be iterated raise in `run_step`, and a
negative `_gen_max_width` slices from the end; they are left out. -/
structure RawStep where
  agentId : String
  parameters : JsonObject
  dependsOn : List String

def generatedId (parentId : String) (i : ℕ) : String := parentId ++ ".g" ++ toString i

def namespaceGeneratedSteps (parent : Step) (capped : List RawStep) : List Step × List String :=
  let named := capped.zipIdx.filter fun p => p.1.agentId ≠ ""
  (named.map fun p =>
      { stepId := generatedId parent.stepId p.2
        agentId := p.1.agentId
        parameters := p.1.parameters
        dependsOn := if p.1.dependsOn = [] then [parent.stepId] else p.1.dependsOn
        turnId := none
        toolId := ""
        intent := none
        parameterBindings := []
        dependencyTypes := []
        genDepth := parent.genDepth + 1
        genMaxDepth := parent.genMaxDepth
        genMaxWidth := parent.genMaxWidth },
    (capped.filter fun r => r.agentId = "").map fun _ => "a generated step had no agent_id")

/-- The platform budgets, read from the environment. -/
structure Budgets where
  maxGenerationDepth : ℕ
  maxGeneratedPerStep : ℕ

/-- A step's override, unless it is absent or zero. -/
def override (o : Option ℕ) (dflt : ℕ) : ℕ :=
  match o with
  | some (n + 1) => n + 1
  | _ => dflt

def maxDepth (B : Budgets) (s : Step) : ℕ := override s.genMaxDepth B.maxGenerationDepth

def maxWidth (B : Budgets) (s : Step) : ℕ := override s.genMaxWidth B.maxGeneratedPerStep

def normaliseGeneratedSteps (B : Budgets) (parent : Step) (raw : List RawStep) :
    List Step × String :=
  if maxDepth B parent ≤ parent.genDepth then
    ([], "generation depth limit (" ++ toString (maxDepth B parent) ++ ") reached at '" ++
      parent.stepId ++ "' — " ++ toString raw.length ++ " follow-up step(s) not spawned")
  else
    let note := if maxWidth B parent < raw.length then
        ["generation width limit (" ++ toString (maxWidth B parent) ++ ") at '" ++ parent.stepId ++
          "' — " ++ toString (raw.length - maxWidth B parent) ++ " step(s) dropped"]
      else []
    let out := namespaceGeneratedSteps parent (raw.take (maxWidth B parent))
    (out.1, "; ".intercalate (note ++ out.2))

inductive ExecutionTier where
  | read | action
  deriving DecidableEq, Repr

structure Agent where
  tier : ExecutionTier
  dataClassification : String
  managesOwnApproval : Bool
  beforeInvocation : List String
  afterInvocation : List String

structure Request where
  requestId : String
  tenantId : String
  sessionId : String
  userId : String
  role : String
  message : String
  focusEntityId : String
  focusServiceId : String
  timeFilter : JsonObject

inductive PolicyDecision where
  | allow
  | deny (reason : String)
  | canned (response ruleId : String)

/-- The handler's answer, which the step executor stamps with `make_result`. -/
inductive ExecOutcome where
  | replied (status : StepStatus) (output : Json) (error : Option String) (toolId : String)
      (latencyMs : Option ℕ) (generated : List RawStep)
  | raised (error : String)

inductive HookPhase where
  | before | after
  deriving DecidableEq, Repr

/-- The dependencies injected into `ExecutorNodes`, with the user's approval answers. -/
structure Services where
  agents : String → Option Agent
  tools : String → Option ExecutionTier
  policy : Request → Agent → Step → PolicyDecision
  hooks : HookPhase → List String → Agent → Step → Request → Option StepResult → Option String
  approved : Step → Request → Bool
  run : Step → Request → PreviousResults → JsonObject → ExecOutcome
  getAttr : Json → String → Json

structure Send where
  step : Step
  request : Request
  previousResults : PreviousResults

inductive Activity where
  | beforeHooks | handler | afterHooks
  deriving DecidableEq, Repr

/-- One pass of `run_step`: its two channel writes, and what it called on the way. -/
structure StepRun where
  send : Send
  result : StepResult
  generated : List Step
  activity : List Activity

def stepIsAction (S : Services) (step : Step) (agent : Agent) : Bool :=
  match (if step.toolId = "" then none else S.tools step.toolId) with
  | some tier => tier = .action
  | none => agent.tier = .action

def evaluateStepPolicy (S : Services) (x : Send) (agent : Agent) : Option StepResult :=
  match S.policy x.request agent x.step with
  | .allow => none
  | .deny reason => some (makeResult x.step .denied .null (some ("policy: " ++ reason)) "" none)
  | .canned response ruleId =>
    some (makeResult x.step .success
      (.obj [("canned_response", .str response), ("policy_rule", .str ruleId)]) none "" none)

/-- Generated steps may only name registered agents. -/
def appendGeneratedSteps (S : Services) (B : Budgets) (x : Send) (result : StepResult)
    (raw : List RawStep) : StepResult × List Step :=
  if raw = [] then (result, [])
  else
    let out := normaliseGeneratedSteps B x.step raw
    let valid := out.1.filter fun s => (S.agents s.agentId).isSome
    let refused := (out.1.filter fun s => (S.agents s.agentId).isNone).map fun s =>
      "refused generated step naming unknown agent '" ++ s.agentId ++ "'"
    let note := "; ".intercalate ((if out.2 = "" then [] else [out.2]) ++ refused)
    (if note = "" then result else { result with generationNote := note }, valid)

def failedResult (step : Step) (error : String) : StepResult :=
  makeResult step .failed .null (some error) "" none

def runStepWork (S : Services) (B : Budgets) (x : Send) (agent : Agent) (bound : JsonObject) :
    StepResult × List Step :=
  let reply : StepResult × List RawStep :=
    match S.run x.step x.request x.previousResults bound with
    | .raised e => (failedResult x.step ("step executor raised: " ++ e), [])
    | .replied status output error toolId latencyMs raw =>
      (makeResult x.step status output error toolId latencyMs, raw)
  match S.hooks .after agent.afterInvocation agent x.step x.request (some reply.1) with
  | some e => (failedResult x.step ("after-hook aborted: " ++ e), [])
  | none => appendGeneratedSteps S B x reply.1 reply.2

def runStep (S : Services) (B : Budgets) (x : Send) : StepRun :=
  match S.agents x.step.agentId with
  | none =>
    ⟨x, failedResult x.step ("agent '" ++ x.step.agentId ++ "' has no active registry record"), [],
      []⟩
  | some agent =>
    match evaluateStepPolicy S x agent with
    | some r => ⟨x, r, [], []⟩
    | none =>
      match resolveBindings S.getAttr x.step x.previousResults with
      | .error reason => ⟨x, makeResult x.step .blocked .null (some reason) "" none, [], []⟩
      | .ok bound =>
        match S.hooks .before agent.beforeInvocation agent x.step x.request none with
        | some e =>
          ⟨x, failedResult x.step ("before-hook aborted: " ++ e), [], [.beforeHooks]⟩
        | none =>
          if stepIsAction S x.step agent && !agent.managesOwnApproval &&
              !S.approved x.step x.request then
            ⟨x, makeResult x.step .denied .null (some "action not approved by the user") "" none,
              [],
              [.beforeHooks]⟩
          else
            let out := runStepWork S B x agent bound
            ⟨x, out.1, out.2, [.beforeHooks, .handler, .afterHooks]⟩

structure ExecutorState where
  request : Request
  plan : List Step
  stepResults : List StepResult
  unrouted : List String

inductive Dispatch where
  | aggregate
  | sends (xs : List Send)

def completed (s : ExecutorState) : List String := s.stepResults.map (·.stepId)

def remaining (s : ExecutorState) : List Step :=
  s.plan.filter fun p => p.stepId ∉ completed s

def runnable (s : ExecutorState) : List Step :=
  (remaining s).filter fun p => ∀ d ∈ p.dependsOn, d ∈ completed s

def resultOf (s : ExecutorState) (stepId : String) : Option StepResult :=
  s.stepResults.reverse.find? fun r => r.stepId = stepId

def depResults (s : ExecutorState) (step : Step) : PreviousResults :=
  step.dependsOn.filterMap fun d => (resultOf s d).map fun r => (d, r)

def dispatchWave (s : ExecutorState) : Dispatch :=
  if runnable s = [] then .aggregate
  else .sends ((runnable s).map fun p => ⟨p, s.request, depResults s p⟩)

/-- The writes of a wave, folded into the channels in dispatch order. -/
def applyRuns (s : ExecutorState) (runs : List StepRun) : ExecutorState :=
  { s with
    plan := runs.foldl (fun acc r => mergePlan acc r.generated) s.plan
    stepResults := runs.foldl (fun acc r => mergeStepResults acc [r.result]) s.stepResults }

def thisTurn (turnId : String) (rid : Option String) : Bool :=
  turnId = "" ∨ rid = none ∨ rid = some "" ∨ rid = some turnId

def turnResults (s : ExecutorState) : List StepResult :=
  s.stepResults.filter fun r => thisTurn s.request.requestId r.turnId

def turnPlan (s : ExecutorState) : List Step :=
  s.plan.filter fun p => thisTurn s.request.requestId p.turnId

def synthesized (s : ExecutorState) : List StepResult :=
  ((turnPlan s).filter fun p => p.stepId ∉ (turnResults s).map (·.stepId)).map fun p =>
    makeResult p .blocked .null (some "not executed — an upstream dependency did not complete") ""
      none

/-- The place of a result in the render order; unknown steps come last. -/
def orderOf (s : ExecutorState) (r : StepResult) : ℕ :=
  ((turnPlan s).findIdx? fun p => p.stepId = r.stepId).getD (10 ^ 6)

def ordered (s : ExecutorState) : List StepResult :=
  (turnResults s ++ synthesized s).insertionSort fun a b => orderOf s a ≤ orderOf s b

inductive TurnStatus where
  | executed | partly | blocked | failed
  deriving DecidableEq, Repr

def overallStatus (ordered : List StepResult) (unrouted : List String) : TurnStatus :=
  let some_ (p : StepStatus → Bool) : Bool := ordered.any fun r => p r.status
  let succeeded := some_ fun v => v = .success
  let failed := some_ fun v => v = .failed ∨ v = .denied
  let blocked := some_ fun v => v = .blocked
  if succeeded && !failed && !blocked && unrouted.isEmpty then .executed
  else if succeeded then .partly
  else if blocked && !failed then .blocked
  else .failed

def aggregate (s : ExecutorState) : List StepResult × TurnStatus :=
  (ordered s, overallStatus (ordered s) s.unrouted)

end ExecutorNodes
