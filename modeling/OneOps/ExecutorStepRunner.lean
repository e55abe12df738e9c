import OneOps.RegistryService
import OneOps.ExecutorWaves

/-! The step executor that runs registered tools. A step that names a tool runs that one; for
any other step the tool is picked by the parameters that it has. The approval gate has
decided before that, from the step's tool or else from the tier of its agent. -/
namespace ExecutorStepRunner

open FulfillmentContracts
open ExecutorPlan
open ExecutorNodes
open ExecutorWaves
open RegistryReads
open RegistryService
open RowMerge

def contextBoundParams : List String :=
  ["tenant_id", "user_id", "role", "request_id", "session_id", "trace_id"]

def entityShapedParams : List String :=
  ["ticket_id", "article_id", "entity_id", "incident_id", "request_id", "problem_id", "change_id",
    "asset_id", "ci_id", "kb_id"]

def requiredParams (tool : ToolRecord) : List String :=
  ((tool.body.parameters.filter fun p => p.required ∧ p.name ∉ contextBoundParams).map
    ToolParameter.name).dedup

def toolSpecificity (need : List String) : ℕ × ℕ :=
  (need.length, (need.filter fun p => p ∈ entityShapedParams).length)

def emptyValue : Json → Bool
  | .null => true
  | .str s => s = ""
  | .arr xs => xs.isEmpty
  | .obj fields => fields.isEmpty
  | _ => false

def presentParams (params : JsonObject) : List String :=
  (params.filter fun p => !emptyValue p.2).map Prod.fst

def primaryId (agent : AgentRecord) : String :=
  (agent.body.fastPath.map FastPathSpec.primaryToolId).getD ""

def candidateToolIds (agent : AgentRecord) : List String :=
  match agent.body.toolRefs.map ToolRef.toolId with
  | [] => if primaryId agent = "" then [] else [primaryId agent]
  | ids => ids

def primaryToolIfFits (S : Service) (primary : String) (candidates present : List String) :
    Option (String × ToolRecord) :=
  if primary = "" ∨ primary ∉ candidates then none
  else
    match getOptional S.tools primary with
    | none => none
    | some tool => if requiredParams tool ⊆ present then some (primary, tool) else none

def higher (s t : ℕ × ℕ) : Bool := t.1 < s.1 || (t.1 = s.1 && t.2 < s.2)

def fitting (S : Service) (present : List String) (toolId : String) :
    Option (String × ToolRecord) :=
  (getOptional S.tools toolId).bind fun tool =>
    if requiredParams tool ≠ [] ∧ requiredParams tool ⊆ present then some (toolId, tool) else none

/-- The first of the most specific tools whose required parameters are all there. -/
def bestSpecificityTool (S : Service) (candidates present : List String) :
    Option (String × ToolRecord) :=
  candidates.foldl (fun best toolId =>
    match fitting S present toolId with
    | none => best
    | some hit =>
      match best with
      | none => some hit
      | some b =>
        if higher (toolSpecificity (requiredParams hit.2)) (toolSpecificity (requiredParams b.2))
        then some hit else best) none

def pickTool (S : Service) (agent : AgentRecord) (params : JsonObject) :
    String × Option ToolRecord :=
  match candidateToolIds agent with
  | [] => ("", none)
  | [only] => (only, getOptional S.tools only)
  | first :: rest =>
    let present := presentParams params
    match primaryToolIfFits S (primaryId agent) (first :: rest) present with
    | some hit => (hit.1, some hit.2)
    | none =>
      match bestSpecificityTool S (first :: rest) present with
      | some hit => (hit.1, some hit.2)
      | none =>
        if primaryId agent ≠ "" then (primaryId agent, getOptional S.tools (primaryId agent))
        else (first, getOptional S.tools first)

def selectTool (S : Service) (agent : AgentRecord) (step : Step) : String × Option ToolRecord :=
  if step.toolId ≠ "" then
    if step.toolId ∈ agent.body.toolRefs.map ToolRef.toolId then
      (step.toolId, getOptional S.tools step.toolId)
    else (step.toolId, none)
  else pickTool S agent step.parameters

/-- What is behind the registry: which handlers resolve, what a user adds to the arguments
when asked for a missing record, and what a handler answers. -/
structure Handlers where
  unresolvable : String → Option String
  elicited : ToolRecord → JsonObject → Request → JsonObject
  call : ToolRecord → JsonObject → Request → PreviousResults → ExecOutcome

def failedReply (error : String) : ExecOutcome := .replied .failed .null (some error) "" none []

def handlerArguments (H : Handlers) (tool : ToolRecord) (step : Step) (request : Request)
    (bound : JsonObject) : JsonObject :=
  let arguments := mergeLast Prod.fst step.parameters bound
  mergeLast Prod.fst arguments (H.elicited tool arguments request)

def invokedTool (S : Service) (H : Handlers) (step : Step) : Option ToolRecord :=
  if step.agentId = "" then none
  else
    (getOptional S.agents step.agentId).bind fun agent =>
      (selectTool S agent step).2.filter fun tool => (H.unresolvable tool.body.handlerRef).isNone

def runHandler (S : Service) (H : Handlers) (step : Step) (request : Request)
    (prev : PreviousResults) (bound : JsonObject) : ExecOutcome :=
  if step.agentId = "" then failedReply "step has no agent_id"
  else
    match getOptional S.agents step.agentId with
    | none => failedReply ("unknown agent '" ++ step.agentId ++ "'")
    | some agent =>
      match (selectTool S agent step).2 with
      | none => failedReply ("agent " ++ step.agentId ++
          " has no invokable tool — tool_refs missing or none satisfies the step parameter shape")
      | some tool =>
        match H.unresolvable tool.body.handlerRef with
        | some error => failedReply error
        | none => H.call tool (handlerArguments H tool step request bound) request prev

theorem invokedTool_cases {S : Service} {H : Handlers} {step : Step} {tool : ToolRecord}
    (h : invokedTool S H step = some tool) :
    step.agentId ≠ "" ∧ ∃ agent, getOptional S.agents step.agentId = some agent ∧
      (selectTool S agent step).2 = some tool ∧ H.unresolvable tool.body.handlerRef = none := by
  unfold invokedTool at h
  by_cases hid : step.agentId = ""
  · rw [if_pos hid] at h
    cases h
  rw [if_neg hid] at h
  obtain ⟨agent, hagent, h⟩ := Option.bind_eq_some_iff.mp h
  obtain ⟨hsel, hres⟩ := Option.filter_eq_some_iff.mp h
  exact ⟨hid, agent, hagent, hsel, by simpa using hres⟩

def nodeAgent (a : AgentRecord) : Agent :=
  ⟨a.body.abacTags.tier, a.body.abacTags.dataClassification.value, a.body.managesOwnApproval,
    a.body.beforeInvocation, a.body.afterInvocation⟩

/-- Policies, hooks and the user's answers, which may be others in every wave. -/
structure Surroundings where
  policy : Request → Agent → Step → PolicyDecision
  hooks : HookPhase → List String → Agent → Step → Request → Option StepResult → Option String
  approved : Step → Request → Bool
  getAttr : Json → String → Json

def services (S : Service) (H : Handlers) (E : Surroundings) : Services where
  agents agentId := (getOptional S.agents agentId).map nodeAgent
  tools toolId := (getOptional S.tools toolId).map fun t => t.body.executionType
  policy := E.policy
  hooks := E.hooks
  approved := E.approved
  run := runHandler S H
  getAttr := E.getAttr

/-- The handler of the tool is called in this pass of `run_step`. -/
def Invokes (S : Service) (H : Handlers) (E : Surroundings) (B : Budgets) (x : Send)
    (tool : ToolRecord) : Prop :=
  .handler ∈ (runStep (services S H E) B x).activity ∧ invokedTool S H x.step = some tool

def Approved (S : Service) (H : Handlers) (E : Surroundings) (x : Send) (agent : AgentRecord) :
    Prop :=
  stepIsAction (services S H E) x.step (nodeAgent agent) = true ∧ E.approved x.step x.request = true

/-- An action tool is called after an approval, or by an agent that asks for it itself. -/
def Gated (S : Service) (H : Handlers) (E : Surroundings) (B : Budgets) (x : Send) : Prop :=
  ∀ tool, Invokes S H E B x tool → tool.body.executionType = .action →
    ∃ agent, getOptional S.agents x.step.agentId = some agent ∧
      (agent.body.managesOwnApproval = true ∨ Approved S H E x agent)

/-- The step passes what comes before the gate. -/
structure Passes (V : Services) (x : Send) (agent : Agent) : Prop where
  policy : evaluateStepPolicy V x agent = none
  bindings : ∃ bound, resolveBindings V.getAttr x.step x.previousResults = .ok bound
  hooks : V.hooks .before agent.beforeInvocation agent x.step x.request none = none

section Gate

variable {S : Service} {H : Handlers} {E : Surroundings} {B : Budgets} {x : Send}

theorem handler_iff {V : Services} : .handler ∈ (runStep V B x).activity ↔
    ∃ agent, V.agents x.step.agentId = some agent ∧ Passes V x agent ∧
      (stepIsAction V x.step agent = true → agent.managesOwnApproval = false →
        V.approved x.step x.request = true) := by
  unfold runStep
  cases hagent : V.agents x.step.agentId with
  | none => simp
  | some agent =>
    simp only [Option.some.injEq, exists_eq_left']
    cases hpol : evaluateStepPolicy V x agent with
    | some r => exact ⟨fun h => (by cases h), fun h => absurd h.1.policy (by simp [hpol])⟩
    | none =>
      cases hbind : resolveBindings V.getAttr x.step x.previousResults with
      | error reason =>
        refine ⟨fun h => (by cases h), fun h => ?_⟩
        obtain ⟨bound, hb⟩ := h.1.bindings
        rw [hbind] at hb
        cases hb
      | ok bound =>
        cases hhook : V.hooks .before agent.beforeInvocation agent x.step x.request none with
        | some e =>
          refine ⟨fun h => (by simp at h), fun h => absurd h.1.hooks (by simp [hhook])⟩
        | none =>
          have hpass : Passes V x agent := ⟨hpol, ⟨bound, hbind⟩, hhook⟩
          simp only [hpass, true_and]
          cases stepIsAction V x.step agent <;> cases agent.managesOwnApproval <;>
            cases V.approved x.step x.request <;> simp

/-- A step that names no tool, of an agent that is not an action agent, must not come to
an action tool. -/
def Fits (S : Service) (H : Handlers) (E : Surroundings) (x : Send) : Prop :=
  ∀ agent tool, getOptional S.agents x.step.agentId = some agent →
    Passes (services S H E) x (nodeAgent agent) → x.step.toolId = "" →
    invokedTool S H x.step = some tool → tool.body.executionType = .action →
    agent.body.abacTags.tier = .action ∨ agent.body.managesOwnApproval = true

theorem stepIsAction_named {agent : AgentRecord} {tool : ToolRecord} (hname : x.step.toolId ≠ "")
    (hsel : (selectTool S agent x.step).2 = some tool) (ht : tool.body.executionType = .action) :
    stepIsAction (services S H E) x.step (nodeAgent agent) = true := by
  unfold selectTool at hsel
  rw [if_pos hname] at hsel
  by_cases hm : x.step.toolId ∈ agent.body.toolRefs.map ToolRef.toolId
  · rw [if_pos hm] at hsel
    have htools : (services S H E).tools x.step.toolId = some .action := by
      rw [← ht]
      exact Option.map_eq_some_iff.mpr ⟨tool, hsel, rfl⟩
    simp [stepIsAction, hname, htools]
  · rw [if_neg hm] at hsel
    cases hsel

theorem stepIsAction_unnamed {agent : AgentRecord} (hname : x.step.toolId = "") :
    stepIsAction (services S H E) x.step (nodeAgent agent) = true ↔
      agent.body.abacTags.tier = .action := by
  simp only [stepIsAction, hname, if_true, nodeAgent]
  exact decide_eq_true_iff

theorem services_agent {agent : AgentRecord}
    (h : getOptional S.agents x.step.agentId = some agent) :
    (services S H E).agents x.step.agentId = some (nodeAgent agent) := by
  simp [services, h]

theorem gated_iff_fits : Gated S H E B x ↔ Fits S H E x := by
  constructor
  · intro h agent tool hagent hpass hname htool hact
    by_contra hn
    rw [not_or] at hn
    have hno : ¬ stepIsAction (services S H E) x.step (nodeAgent agent) = true :=
      fun hs => hn.1 ((stepIsAction_unnamed hname).mp hs)
    have hrun : Invokes S H E B x tool :=
      ⟨handler_iff.mpr ⟨nodeAgent agent, services_agent hagent, hpass, fun hs => absurd hs hno⟩,
        htool⟩
    obtain ⟨agent', hagent', hmanages | happ⟩ := h tool hrun hact
    · rw [hagent] at hagent'
      cases hagent'
      exact hn.2 hmanages
    · rw [hagent] at hagent'
      cases hagent'
      exact hno happ.1
  · rintro h tool ⟨hrun, htool⟩ hact
    obtain ⟨_, agent, hagent, hsel, _⟩ := invokedTool_cases htool
    obtain ⟨a, ha, hpass, hgate⟩ := handler_iff.mp hrun
    rw [services_agent hagent] at ha
    cases ha
    refine ⟨agent, hagent, ?_⟩
    by_cases hm : agent.body.managesOwnApproval = true
    · exact .inl hm
    · have his : stepIsAction (services S H E) x.step (nodeAgent agent) = true := by
        by_cases hname : x.step.toolId = ""
        · exact (stepIsAction_unnamed hname).mpr
            ((h agent tool hagent hpass hname htool hact).resolve_right hm)
        · exact stepIsAction_named hname hsel hact
      exact .inr ⟨his, hgate his (by simpa [nodeAgent] using hm)⟩

end Gate

/-- In every run of the wave loop, whatever is planned, generated and answered, action tools
are called behind the gate exactly when each dispatched step fits its agent's tier. -/
theorem action_gate_iff (S : Service) (H : Handlers) (E : ℕ → Surroundings) (B : Budgets)
    (s : ExecutorState) :
    (∀ n xs, dispatchWave (after (fun k => services S H (E k)) B s n).state = .sends xs →
      ∀ x ∈ xs, Gated S H (E n) B x) ↔
    ∀ n xs, dispatchWave (after (fun k => services S H (E k)) B s n).state = .sends xs →
      ∀ x ∈ xs, Fits S H (E n) x := by
  simp only [gated_iff_fits]

def updateTicket : ToolRecord :=
  ⟨"update_ticket", 1, .draft, ⟨"tickets:update", .action, [⟨"ticket_id", true⟩], true, []⟩⟩

def notesAgent : AgentRecord :=
  let plain := readAgent "uc_notes" [] []
  { plain with body := { plain.body with toolRefs := [⟨"update_ticket", 1⟩] } }

theorem notesAgent_rules : ∀ a ∈ [notesAgent], CrossFieldRules a := by
  intro a ha
  rw [List.mem_singleton.mp ha]
  have h : CrossFieldRules (readAgent "uc_notes" [] []) := readAgent_rules (by decide) (by decide)
  exact ⟨h.notOwnPrerequisite, h.notOwnExclusion, h.notOwnMember, h.hooked, fun f hf => by cases hf⟩

theorem updateTicket_rules : ∀ t ∈ [updateTicket], ActionRules t := by
  intro t ht
  rw [List.mem_singleton.mp ht]
  exact fun _ => rfl

def notesRegistry : Service :=
  Service.ofRecords [notesAgent] [updateTicket] notesAgent_rules updateTicket_rules

def anyHandlers : Handlers where
  unresolvable _ := none
  elicited _ _ _ := []
  call _ _ _ _ := .replied .success .null none "" none []

def refusing : Surroundings where
  policy _ _ _ := .allow
  hooks _ _ _ _ _ _ := none
  approved _ _ := false
  getAttr _ _ := .null

def notesPlan : ExecutorState := startOf [plainStep "step_1" "uc_notes" []]

/-- The plan names no tool and the agent only reads, so nobody is asked, and the step runs
the agent's action tool. -/
theorem action_without_approval :
    checkIntegrity notesRegistry = .ok () ∧
    ∃ x tool, dispatchWave (after (fun _ => services notesRegistry anyHandlers refusing)
        defaultBudgets notesPlan 0).state = .sends [x] ∧
      Invokes notesRegistry anyHandlers refusing defaultBudgets x tool ∧
      tool.body.executionType = .action ∧
      ¬ Gated notesRegistry anyHandlers refusing defaultBudgets x := by
  have hcheck : checkIntegrity notesRegistry = .ok () := by decide +kernel
  have htool : (invokedTool notesRegistry anyHandlers (plainStep "step_1" "uc_notes" [])).map
      (fun t => t.body.executionType) = some .action := by decide +kernel
  have hown : (getOptional notesRegistry.agents "uc_notes").map
      (fun a => a.body.managesOwnApproval) = some false := by decide +kernel
  obtain ⟨tool, hinv, hact⟩ := Option.map_eq_some_iff.mp htool
  have hrun : Invokes notesRegistry anyHandlers refusing defaultBudgets
      ⟨plainStep "step_1" "uc_notes" [], sampleRequest, []⟩ tool := ⟨by decide +kernel, hinv⟩
  refine ⟨hcheck, _, tool, rfl, hrun, hact, ?_⟩
  intro hg
  obtain ⟨agent, hagent, hm | happ⟩ := hg tool hrun hact
  · have hagent' : getOptional notesRegistry.agents "uc_notes" = some agent := hagent
    rw [hagent', Option.map_some, hm] at hown
    cases hown
  · cases happ.2

end ExecutorStepRunner
