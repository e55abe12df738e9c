import OneOps.ConversationControl
import OneOps.ConversationFocus
import OneOps.ExecutorRecursionLimit
import OneOps.FastPathDispatch
import OneOps.RouteCache

/-! One turn through the compiled graph, channel by channel: the history and the focus, the
gate, the route, the wave loop or the boundary, and the log. A node that raises ends the turn
and nothing is recorded; a step that waits for the user pauses it, and it is recorded only if
it is resumed to its end. -/
namespace TurnGraph

open EntityExtraction
open EntityIds
open ExecutorPlan
open ExecutorNodes
open ExecutorWaves
open ExecutorWaveLoop
open ExecutorRecursionLimit
open SessionStore
open SessionConversation
open ExecutorMemory (Message TokenBudgetTrimmer)
open ConversationFocus
open ConversationControl
open TurnReply
open RouterPlan (SubQueryRoute assemblePlan serialisePlan)
open RouterFunnel (Router)
open RouteCache (summaryRouter)
open RowMerge

/-- What a turn is asked. A fast-path turn brings its plan, a forced turn its agents; the
clock and the expiry of the window are those of the turn's calls on the store. -/
structure TurnRequest where
  request : Request
  fastPath : Bool
  fastPlan : List Step
  fastPlanIds : (fastPlan.map Step.stepId).Nodup
  forcedAgentIds : List String
  tenantGiven : request.tenantId ≠ ""
  sessionGiven : request.sessionId ≠ ""
  now : ℕ
  expiredAtLoad : Bool
  expired : ℕ → Bool

/-- What is open when a wave runs: whether the user has yet to decide about the action of a
step, and whether its handler asks for something. -/
structure Asks where
  undecided : Step → Request → Bool
  handlerAsks : Step → Request → Bool

/-- What the graph is compiled with, and what the model calls of the turn answer. The gate
and the router are tried three times on an upstream error. -/
structure World where
  characters : CharClasses
  normalizer : EntityIdNormalizer
  retention : RetentionPolicy
  trimmer : Option TokenBudgetTrimmer
  focusIntent : Option FocusIntentClassifier
  classify : Focus → ControlClassifier
  gateRaises : ℕ → Bool
  router : Router
  routeRaises : ℕ → Bool
  clarificationMessage : List NormalizationResult → String
  timeFilter : List Step → String → FulfillmentContracts.JsonObject
  steps : ℕ → Services
  asks : ℕ → Asks
  budgets : Budgets
  wording : Wording
  loads : String → Option FulfillmentContracts.Json
  boundaryAnswer : (outcome reason : String) → Request → Option String

structure TurnState where
  node : Node
  exec : Turn
  history : List Message
  gate : ControlType
  routeOutcome : String
  boundaryReason : String
  entityClarification : String
  finalStatus : String
  finalResponse : String
  session : Session ConversationEvent

/-- How a turn ends without a reply: a node raised, or a step waits for the user. -/
inductive Stop where
  | raised (session : Session ConversationEvent)
  | paused (s : TurnState)

def start (x : TurnRequest) (session : Session ConversationEvent) : TurnState where
  node := .loadSession
  exec := ⟨⟨x.request, x.fastPlan, [], []⟩, [], 0⟩
  history := []
  gate := .none
  routeOutcome := ""
  boundaryReason := ""
  entityClarification := ""
  finalStatus := ""
  finalResponse := ""
  session := session

section

variable (W : World) (x : TurnRequest)

/-- The read warms the window even where the history then cannot be summarised. -/
def loadSessionNode (s : TurnState) : Except Stop TurnState :=
  let read := recent W.retention (expire x.expiredAtLoad s.session)
  match loadSession W.trimmer x.request.tenantId read.1 with
  | .ok history => .ok { s with node := .updateFocus, history := history, session := read.2 }
  | .error _ => .error (.raised read.2)

def focusOf (request : Request) : Focus :=
  if request.focusEntityId = "" then none else some (request.focusEntityId, request.focusServiceId)

def withFocus (request : Request) (focus : Focus) : Request :=
  { request with
    focusEntityId := (focus.map Prod.fst).getD ""
    focusServiceId := (focus.map Prod.snd).getD "" }

def withRequest (t : Turn) (request : Request) : Turn :=
  { t with state := { t.state with request := request } }

def updateFocusNode (s : TurnState) : TurnState :=
  let focus := updateFocus W.characters W.normalizer W.focusIntent s.exec.state.request.message
    (focusOf s.exec.state.request) s.history
  { s with
    node := if x.fastPath ∧ x.fastPlan ≠ [] then .wave else .controlGate
    exec := withRequest s.exec (withFocus s.exec.state.request focus) }

def exhausted (raises : ℕ → Bool) : Bool := raises 0 && raises 1 && raises 2

def controlGateNode (s : TurnState) : Option TurnState :=
  if exhausted W.gateRaises then none
  else
    let result := detectConversationControl W.characters
      (W.classify (focusOf s.exec.state.request)) s.exec.state.request.message
    if result.fires then
      some { s with
        node := .persist
        gate := result.controlType
        finalStatus := "clarification"
        finalResponse := result.responseText.getD "" }
    else some { s with node := .route, gate := result.controlType }

structure RouteUpdate where
  outcome : String
  plan : List Step
  boundaryReason : String
  unrouted : List String
  entityClarification : String
  timeFilter : FulfillmentContracts.JsonObject

def outcomeText : RouterFunnel.RouteOutcome → String
  | .routed => "routed"
  | .noConfidentMatch => "no_confident_match"
  | .policyDenied => "policy_denied"

def forcedDispatchUpdate (request : Request) : Option RouteUpdate :=
  let forced := x.forcedAgentIds.filter fun a =>
    (RegistryReads.getOptional W.router.service.agents a).isSome
  if forced = [] then
    some ⟨"no_confident_match", [], "forced agents have no active registry record", [], "", []⟩
  else
    let parameters := if request.message = "" then []
      else forced.map fun a => (a, [("user_message", request.message), ("query", request.message)])
    (assemblePlan W.router.planner [⟨"sq_forced", forced, parameters, [], []⟩]).map fun plan =>
      ⟨"routed", serialisePlan plan request.requestId, "", [], "", []⟩

def routeCall (request : Request) (history : List Message) (entities : List NormalizedEntity) :
    RouterFunnel.RouteCall where
  queryText := request.message
  principal :=
    { tenantId := x.request.tenantId
      userId := if request.userId = "" then "unknown" else request.userId
      role := if request.role = "" then "unknown" else request.role
      attributes := []
      tenantGiven := x.tenantGiven
      roleGiven := by split <;> simp_all }
  signals := ⟨if request.role = "" then "unknown" else request.role, x.request.tenantId,
    entities.map fun e => (e.entityId, e.serviceId), ∅, false, none⟩
  history := history.map fun t => ⟨ExecutorMemory.field t "role", ExecutorMemory.field t "content"⟩
  ctx := ⟨none, some request.focusEntityId, some request.focusServiceId, []⟩

def updateOf (request : Request) (clarification : String) (result : RouterFunnel.RouteResult) :
    RouteUpdate :=
  match result.outcome, result.plan with
  | .routed, some plan =>
    let steps := serialisePlan plan request.requestId
    ⟨"routed", steps, "", result.unrouted, clarification, W.timeFilter steps request.message⟩
  | outcome, _ =>
    ⟨outcomeText outcome, [], result.boundaryReason, result.unrouted, clarification, []⟩

def chatUpdate (request : Request) (history : List Message) : Option RouteUpdate :=
  let extraction := extract W.characters W.normalizer request.message
  let clarification :=
    if extraction.malformed = [] then "" else W.clarificationMessage extraction.malformed
  if extraction.malformed ≠ [] ∧ extraction.entities = [] then
    some ⟨"entity_clarification", [], "malformed_entity_reference", [], clarification, []⟩
  else if exhausted W.routeRaises then none
  else
    (RouterFunnel.fresh W.router (routeCall x request history extraction.entities)).map
      (updateOf W request clarification)

def routeUpdate (request : Request) (history : List Message) : Option RouteUpdate :=
  if x.forcedAgentIds ≠ [] then forcedDispatchUpdate W x request
  else chatUpdate W x request history

def routed (t : Turn) (u : RouteUpdate) : Turn :=
  { t with
    state :=
      { t.state with
        request := { t.state.request with timeFilter := u.timeFilter }
        plan := mergePlan t.state.plan u.plan
        unrouted := u.unrouted } }

def routeNode (s : TurnState) : Option TurnState :=
  (routeUpdate W x s.exec.state.request s.history).map fun u =>
    { s with
      node := if u.outcome = "routed" then .wave else .boundary
      exec := routed s.exec u
      routeOutcome := u.outcome
      boundaryReason := u.boundaryReason
      entityClarification := u.entityClarification }

def waveNode (s : TurnState) : TurnState :=
  match dispatchWave s.exec.state with
  | .aggregate => { s with node := .aggregate }
  | .sends _ => { s with node := .runStep }

/-- An interrupt of `run_step` for a step: an action that reaches the approval gate undecided,
or a handler that asks. -/
def interrupts (S : Services) (asks : Asks) (x : Send) : Bool :=
  match S.agents x.step.agentId with
  | none => false
  | some agent =>
    (evaluateStepPolicy S x agent).isNone &&
      (resolveBindings S.getAttr x.step x.previousResults).isOk &&
      (S.hooks .before agent.beforeInvocation agent x.step x.request none).isNone &&
      if stepIsAction S x.step agent && !agent.managesOwnApproval then
        asks.undecided x.step x.request ||
          S.approved x.step x.request && asks.handlerAsks x.step x.request
      else asks.handlerAsks x.step x.request

def wavePauses (s : TurnState) : Bool :=
  match dispatchWave s.exec.state with
  | .aggregate => false
  | .sends xs => xs.any (interrupts (W.steps s.exec.waves) (W.asks s.exec.waves))

def runStepNode (s : TurnState) : TurnState :=
  { s with node := .wave, exec := advance (W.steps s.exec.waves) W.budgets s.exec }

def statusText : TurnStatus → String
  | .executed => "executed"
  | .partly => "partial"
  | .blocked => "blocked"
  | .failed => "failed"

def aggregateNode (s : TurnState) : TurnState :=
  { s with
    node := .persist
    finalStatus := statusText (aggregate s.exec.state).2
    finalResponse := aggregateResponse W.wording s.exec.state s.entityClarification }

def malformedFallback : String :=
  "I could not read the record ID in your message. Please send it again, e.g. \"INC0001234\"."

def boundaryNode (s : TurnState) : Option TurnState :=
  if s.routeOutcome = "entity_clarification" then
    some { s with
      node := .persist
      finalStatus := "clarification"
      finalResponse :=
        if s.entityClarification = "" then malformedFallback else s.entityClarification }
  else
    (respond W.wording W.loads s.routeOutcome
      (W.boundaryAnswer s.routeOutcome s.boundaryReason s.exec.state.request)).map fun text =>
        { s with
          node := .persist
          finalStatus :=
            if s.routeOutcome = "no_confident_match" then "clarification" else "denied"
          finalResponse := text }

def persistNode (s : TurnState) : TurnState :=
  { s with
    node := .finished
    session := appendTurnEvents W.retention s.session
      ⟨s.exec.state.request.message, s.finalResponse, false, x.now, x.expired⟩ }

def runNode (s : TurnState) : Node → Except Stop TurnState
  | .loadSession => loadSessionNode W x s
  | .updateFocus => .ok (updateFocusNode W x s)
  | .controlGate => orRaise (controlGateNode W s)
  | .route => orRaise (routeNode W x s)
  | .wave => .ok (waveNode s)
  | .runStep => if wavePauses W s then .error (.paused s) else .ok (runStepNode W s)
  | .aggregate => .ok (aggregateNode W s)
  | .boundary => orRaise (boundaryNode W s)
  | .persist => .ok (persistNode W x s)
  | .finished => .ok s
where
  orRaise (next : Option TurnState) : Except Stop TurnState :=
    match next with
    | some s' => .ok s'
    | none => .error (.raised s.session)

def superstep (s : TurnState) : Except Stop TurnState :=
  runNode W x s s.node

def runFrom (s : TurnState) : ℕ → Except Stop TurnState
  | 0 => .ok s
  | k + 1 =>
    match superstep W x s with
    | .ok s' => runFrom s' k
    | .error stop => .error stop

end

/-- The loop after some waves of a plan with distinct ids. -/
structure Looping (W : World) (t : Turn) (s₀ : ExecutorState) (n : ℕ) : Prop where
  initial : Initial s₀
  exec : t = after W.steps W.budgets s₀ n
  waves : t.waves = n

structure Idle (t : Turn) : Prop where
  ids : (t.state.plan.map Step.stepId).Nodup
  results : t.state.stepResults = []
  runs : t.runs = []
  waves : t.waves = 0

structure Gated (W : World) (x : TurnRequest) (s : TurnState) : Prop where
  detected : ∃ label focus, response label = some s.finalResponse ∧
    detectConversationControl W.characters (W.classify focus) x.request.message = canned label
  status : s.finalStatus = "clarification"
  runs : s.exec.runs = []

structure Bounded (s : TurnState) : Prop where
  outcome : s.routeOutcome ∈ ["entity_clarification", "no_confident_match", "policy_denied"]
  reply : s.finalResponse ≠ ""
  status : s.finalStatus = "clarification" ∨ s.finalStatus = "denied"
  runs : s.exec.runs = []

structure Executed (W : World) (s : TurnState) : Prop where
  loop : ∃ s₀ n, Looping W s.exec s₀ n
  ended : dispatchWave s.exec.state = .aggregate
  reply : s.finalResponse = aggregateResponse W.wording s.exec.state s.entityClarification
  status : s.finalStatus = statusText (aggregate s.exec.state).2

inductive Answer (W : World) (x : TurnRequest) (s : TurnState) : Prop where
  | gated (by_gate : Gated W x s)
  | bounded (by_boundary : Bounded s)
  | executed (by_agents : Executed W s)

theorem Answer.reply_ne_empty {W : World} {x : TurnRequest} {s : TurnState} (h : Answer W x s) :
    s.finalResponse ≠ "" := by
  cases h with
  | gated h =>
    obtain ⟨label, focus, hreply, -⟩ := h.detected
    exact (response_ne_empty hreply).2
  | bounded h => exact h.reply
  | executed h =>
    rw [h.reply]
    exact aggregateResponse_ne_empty _ _

def Phase (W : World) (x : TurnRequest) (s : TurnState) : Node → Prop
  | .loadSession | .updateFocus | .controlGate | .route => Idle s.exec
  | .wave => ∃ s₀ n, Looping W s.exec s₀ n
  | .runStep => ∃ s₀ n, Looping W s.exec s₀ n ∧ dispatchWave s.exec.state ≠ .aggregate
  | .aggregate => ∃ s₀ n, Looping W s.exec s₀ n ∧ dispatchWave s.exec.state = .aggregate
  | .boundary => s.exec.runs = [] ∧
    s.routeOutcome ∈ ["entity_clarification", "no_confident_match", "policy_denied"]
  | .persist | .finished => Answer W x s

def turnHistory (W : World) (x : TurnRequest) (log : List ConversationEvent) :
    Except String (List Message) :=
  loadSession W.trimmer x.request.tenantId (log.rtake W.retention.hotWindowEvents)

def focused (focus : Focus) (request : Request) : Prop :=
  request.focusEntityId = (focus.map Prod.fst).getD "" ∧
    request.focusServiceId = (focus.map Prod.snd).getD ""

def Focused (W : World) (x : TurnRequest) (log : List ConversationEvent) (request : Request) :
    Prop :=
  ∃ history, turnHistory W x log = .ok history ∧
    focused (updateFocus W.characters W.normalizer W.focusIntent x.request.message
      (focusOf x.request) history) request

def Logged (W : World) (x : TurnRequest) (session : Session ConversationEvent) (s : TurnState) :
    Prop :=
  Coherent W.retention s.session ∧
    if s.node = .finished then
      s.session.cold = session.cold ++ written W.retention session.cold
        ⟨x.request.message, s.finalResponse, false, x.now, x.expired⟩
    else s.session.cold = session.cold

/-- The turn loads its history from `log` and runs on `session`, which is another one only
after it was resumed. -/
structure Inv (W : World) (x : TurnRequest) (log : List ConversationEvent)
    (session : Session ConversationEvent) (s : TurnState) : Prop where
  loading : s.node = .loadSession → session.cold = log
  message : s.exec.state.request.message = x.request.message
  unfocused : s.node = .loadSession ∨ s.node = .updateFocus → s.exec.state.request = x.request
  history : s.node = .updateFocus → turnHistory W x log = .ok s.history
  focus : s.node ≠ .loadSession → s.node ≠ .updateFocus → Focused W x log s.exec.state.request
  logged : Logged W x session s
  phase : Phase W x s s.node

section

variable {W : World} {x : TurnRequest} {log : List ConversationEvent}
  {session : Session ConversationEvent} {s s' : TurnState}

theorem inv_start (h : Coherent W.retention session) :
    Inv W x session.cold session (start x session) where
  loading _ := rfl
  message := rfl
  unfocused _ := rfl
  history hn := by cases hn
  focus hn := absurd rfl hn
  logged := ⟨h, rfl⟩
  phase := ⟨x.fastPlanIds, rfl, rfl, rfl⟩

theorem Idle.looping {t : Turn} (h : Idle t) : Looping W t t.state 0 := by
  obtain ⟨ids, results, runs, waves⟩ := h
  refine ⟨⟨ids, results⟩, ?_, waves⟩
  obtain ⟨state, rs, ws⟩ := t
  obtain rfl : rs = [] := runs
  obtain rfl : ws = 0 := waves
  rfl

theorem Idle.withRequest {t : Turn} (h : Idle t) (request : Request) :
    Idle (withRequest t request) :=
  ⟨h.ids, h.results, h.runs, h.waves⟩

theorem Idle.routed {t : Turn} (h : Idle t) (u : RouteUpdate) : Idle (routed t u) :=
  ⟨foldl_insertNew_nodup List.nodup_nil, h.results, h.runs, h.waves⟩

theorem Inv.cold (h : Inv W x log session s) (hn : s.node ≠ .finished) :
    s.session.cold = session.cold := by
  have := h.logged.2
  rwa [if_neg hn] at this

theorem Inv.phaseAt (h : Inv W x log session s) {node : Node} (hn : s.node = node) :
    Phase W x s node :=
  hn ▸ h.phase

/-- A step between the first two nodes and the last. -/
theorem Inv.move (h : Inv W x log session s) (hn : s.node ≠ .finished) (node : Node)
    (hin : node ∉ [.loadSession, .updateFocus, .finished]) (hnode : s'.node = node)
    (hsession : s'.session = s.session)
    (hmessage : s'.exec.state.request.message = x.request.message)
    (hfocus : Focused W x log s'.exec.state.request) (hphase : Phase W x s' node) :
    Inv W x log session s' := by
  subst hnode
  simp only [List.mem_cons, List.not_mem_nil, or_false, not_or] at hin
  refine ⟨fun hw => absurd hw hin.1, hmessage,
    fun hw => absurd hw (not_or.mpr ⟨hin.1, hin.2.1⟩),
    fun hw => absurd hw hin.2.1, fun _ _ => hfocus, ⟨hsession ▸ h.logged.1, ?_⟩, hphase⟩
  rw [if_neg hin.2.2, hsession]
  exact h.cold hn

/-- The window is read: the log is as it was. -/
theorem Inv.read (h : Inv W x log session s) (hn : s.node = .loadSession) :
    (recent W.retention (expire x.expiredAtLoad s.session)).1 =
        session.cold.rtake W.retention.hotWindowEvents ∧
      Coherent W.retention (recent W.retention (expire x.expiredAtLoad s.session)).2 ∧
      (recent W.retention (expire x.expiredAtLoad s.session)).2.cold = session.cold := by
  have hcold := h.cold (hn ▸ by decide)
  have hread := (coherent_expire h.logged.1 x.expiredAtLoad).recent
  rw [expire_cold, hcold] at hread
  refine ⟨hread.1, hread.2, ?_⟩
  rw [recent_cold, expire_cold, hcold]

theorem Inv.loadSession (h : Inv W x log session s) (hn : s.node = .loadSession)
    (hstep : loadSessionNode W x s = .ok s') :
    s'.node = .updateFocus ∧ Inv W x log session s' := by
  obtain ⟨hevents, hcoherent, hcold⟩ := h.read hn
  unfold loadSessionNode at hstep
  dsimp only at hstep
  cases hload : ConversationFocus.loadSession W.trimmer x.request.tenantId
      (recent W.retention (expire x.expiredAtLoad s.session)).1 with
  | error e =>
    rw [hload] at hstep
    cases hstep
  | ok history =>
    rw [hload] at hstep
    obtain rfl := Except.ok.inj hstep
    rw [hevents, h.loading hn] at hload
    exact ⟨rfl, fun hw => (by cases hw), h.message, fun _ => h.unfocused (.inl hn),
      fun _ => hload, fun _ hne => absurd rfl hne, ⟨hcoherent, hcold⟩, h.phaseAt hn⟩

theorem loadSessionNode_raises (h : Inv W x log session s) (hn : s.node = .loadSession)
    {stop : Stop} (hstep : loadSessionNode W x s = .error stop) :
    ∃ left, stop = .raised left ∧ Coherent W.retention left ∧ left.cold = session.cold := by
  unfold loadSessionNode at hstep
  dsimp only at hstep
  split at hstep
  · cases hstep
  · obtain rfl := Except.error.inj hstep
    exact ⟨_, rfl, (h.read hn).2⟩

theorem Inv.updateFocus (h : Inv W x log session s) (hn : s.node = .updateFocus) :
    Inv W x log session (updateFocusNode W x s) := by
  have hrequest := h.unfocused (.inr hn)
  have hidle : Idle s.exec := h.phaseAt hn
  have hfocused : Focused W x log (updateFocusNode W x s).exec.state.request := by
    refine ⟨s.history, h.history hn, ?_⟩
    rw [← hrequest]
    exact ⟨rfl, rfl⟩
  by_cases hfast : x.fastPath ∧ x.fastPlan ≠ []
  · have hnode : (updateFocusNode W x s).node = .wave := if_pos hfast
    refine h.move (hn ▸ by decide) .wave (by decide) hnode rfl h.message hfocused ?_
    exact ⟨_, 0, (hidle.withRequest _).looping⟩
  · have hnode : (updateFocusNode W x s).node = .controlGate := if_neg hfast
    refine h.move (hn ▸ by decide) .controlGate (by decide) hnode rfl h.message hfocused ?_
    exact hidle.withRequest _

theorem Inv.controlGate (h : Inv W x log session s) (hn : s.node = .controlGate)
    (hstep : controlGateNode W s = some s') : Inv W x log session s' := by
  have hidle : Idle s.exec := h.phaseAt hn
  have hfocus := h.focus (hn ▸ by decide) (hn ▸ by decide)
  unfold controlGateNode at hstep
  rw [h.message] at hstep
  obtain ⟨label, hlabel⟩ := detect_cases W.characters
    (W.classify (focusOf s.exec.state.request)) x.request.message
  dsimp only at hstep
  split_ifs at hstep with hraise hfires
  · obtain rfl := Option.some.inj hstep
    refine h.move (hn ▸ by decide) .persist (by decide) rfl rfl h.message hfocus ?_
    rw [hlabel, canned_fires] at hfires
    obtain ⟨text, htext⟩ := Option.isSome_iff_exists.mp (response_isSome hfires)
    refine .gated ⟨⟨label, focusOf s.exec.state.request, ?_, hlabel⟩, rfl, hidle.runs⟩
    have hreply : (detectConversationControl W.characters
        (W.classify (focusOf s.exec.state.request)) x.request.message).responseText.getD "" =
          text := by
      rw [hlabel, canned, htext, Option.getD_some]
    exact htext.trans (congrArg some hreply.symm)
  · obtain rfl := Option.some.inj hstep
    exact h.move (hn ▸ by decide) .route (by decide) rfl rfl h.message hfocus hidle

theorem outcomeText_mem (outcome : RouterFunnel.RouteOutcome) :
    outcomeText outcome ∈ ["routed", "no_confident_match", "policy_denied"] := by
  cases outcome <;> decide

theorem updateOf_outcome (request : Request) (clarification : String)
    (result : RouterFunnel.RouteResult) :
    (updateOf W request clarification result).outcome ∈
      ["routed", "no_confident_match", "policy_denied"] := by
  unfold updateOf
  split
  · exact List.mem_cons_self
  · exact outcomeText_mem _

/-- What is not routed goes to the boundary under one of three names. -/
theorem routeUpdate_outcome {request : Request} {history : List Message} {u : RouteUpdate}
    (h : routeUpdate W x request history = some u) (hrouted : u.outcome ≠ "routed") :
    u.outcome ∈ ["entity_clarification", "no_confident_match", "policy_denied"] := by
  unfold routeUpdate at h
  split at h
  · unfold forcedDispatchUpdate at h
    dsimp only at h
    split at h
    · obtain rfl := Option.some.inj h
      exact List.mem_cons_of_mem _ List.mem_cons_self
    · obtain ⟨plan, -, rfl⟩ := Option.map_eq_some_iff.mp h
      exact absurd rfl hrouted
  · unfold chatUpdate at h
    dsimp only at h
    by_cases hmalformed : (extract W.characters W.normalizer request.message).malformed ≠ [] ∧
        (extract W.characters W.normalizer request.message).entities = []
    · rw [if_pos hmalformed] at h
      obtain rfl := Option.some.inj h
      exact List.mem_cons_self
    · rw [if_neg hmalformed] at h
      split at h
      · cases h
      · obtain ⟨result, -, rfl⟩ := Option.map_eq_some_iff.mp h
        exact List.mem_cons_of_mem _
          (List.mem_of_ne_of_mem hrouted (updateOf_outcome request _ result))

theorem Inv.route (h : Inv W x log session s) (hn : s.node = .route)
    (hstep : routeNode W x s = some s') : Inv W x log session s' := by
  have hidle : Idle s.exec := h.phaseAt hn
  have hfocus := h.focus (hn ▸ by decide) (hn ▸ by decide)
  obtain ⟨u, hu, rfl⟩ := Option.map_eq_some_iff.mp hstep
  by_cases hrouted : u.outcome = "routed"
  · refine h.move (hn ▸ by decide) .wave (by decide) (if_pos hrouted) rfl h.message hfocus ?_
    exact ⟨_, 0, (hidle.routed u).looping⟩
  · refine h.move (hn ▸ by decide) .boundary (by decide) (if_neg hrouted) rfl h.message hfocus ?_
    exact ⟨hidle.runs, routeUpdate_outcome hu hrouted⟩

theorem Inv.wave (h : Inv W x log session s) (hn : s.node = .wave) :
    Inv W x log session (waveNode s) := by
  have hfocus := h.focus (hn ▸ by decide) (hn ▸ by decide)
  obtain ⟨s₀, n, hloop⟩ := h.phaseAt hn
  unfold waveNode
  split
  · next hended =>
    exact h.move (hn ▸ by decide) .aggregate (by decide) rfl rfl h.message hfocus
      ⟨s₀, n, hloop, hended⟩
  · next xs hgoing =>
    refine h.move (hn ▸ by decide) .runStep (by decide) rfl rfl h.message hfocus
      ⟨s₀, n, hloop, ?_⟩
    change dispatchWave s.exec.state ≠ .aggregate
    rw [hgoing]
    nofun

theorem advance_request (S : Services) (B : Budgets) (t : Turn) :
    (advance S B t).state.request = t.state.request := by
  unfold advance
  split <;> rfl

theorem Looping.advance {t : Turn} {s₀ : ExecutorState} {n : ℕ} (h : Looping W t s₀ n)
    (hgoing : dispatchWave t.state ≠ .aggregate) :
    Looping W (advance (W.steps t.waves) W.budgets t) s₀ (n + 1) := by
  refine ⟨h.initial, ?_, ?_⟩
  · rw [h.waves, h.exec]
    rfl
  · unfold ExecutorWaves.advance
    cases hd : dispatchWave t.state with
    | aggregate => exact absurd hd hgoing
    | sends xs => exact congrArg (· + 1) h.waves

theorem Inv.runStep (h : Inv W x log session s) (hn : s.node = .runStep) :
    Inv W x log session (runStepNode W s) := by
  have hfocus := h.focus (hn ▸ by decide) (hn ▸ by decide)
  obtain ⟨s₀, n, hloop, hgoing⟩ := h.phaseAt hn
  have hrequest := advance_request (W.steps s.exec.waves) W.budgets s.exec
  refine h.move (hn ▸ by decide) .wave (by decide) rfl rfl ?_ ?_ ⟨s₀, n + 1, hloop.advance hgoing⟩
  · change (advance _ _ s.exec).state.request.message = _
    rw [hrequest, h.message]
  · change Focused W x log (advance _ _ s.exec).state.request
    rw [hrequest]
    exact hfocus

theorem Inv.aggregate (h : Inv W x log session s) (hn : s.node = .aggregate) :
    Inv W x log session (aggregateNode W s) := by
  have hfocus := h.focus (hn ▸ by decide) (hn ▸ by decide)
  obtain ⟨s₀, n, hloop, hended⟩ := h.phaseAt hn
  exact h.move (hn ▸ by decide) .persist (by decide) rfl rfl h.message hfocus
    (.executed ⟨⟨s₀, n, hloop⟩, hended, rfl, rfl⟩)

theorem malformedFallback_ne_empty : malformedFallback ≠ "" := by decide +kernel

theorem Inv.boundary (h : Inv W x log session s) (hn : s.node = .boundary)
    (hstep : boundaryNode W s = some s') : Inv W x log session s' := by
  have hfocus := h.focus (hn ▸ by decide) (hn ▸ by decide)
  obtain ⟨hruns, houtcome⟩ := h.phaseAt hn
  unfold boundaryNode at hstep
  split_ifs at hstep with hmalformed hempty hunmatched
  · obtain rfl := Option.some.inj hstep
    exact h.move (hn ▸ by decide) .persist (by decide) rfl rfl h.message hfocus
      (.bounded ⟨houtcome, malformedFallback_ne_empty, .inl rfl, hruns⟩)
  · obtain rfl := Option.some.inj hstep
    exact h.move (hn ▸ by decide) .persist (by decide) rfl rfl h.message hfocus
      (.bounded ⟨houtcome, hempty, .inl rfl, hruns⟩)
  · obtain ⟨text, htext, rfl⟩ := Option.map_eq_some_iff.mp hstep
    exact h.move (hn ▸ by decide) .persist (by decide) rfl rfl h.message hfocus
      (.bounded ⟨houtcome, respond_ne_empty htext, .inl rfl, hruns⟩)
  · obtain ⟨text, htext, rfl⟩ := Option.map_eq_some_iff.mp hstep
    exact h.move (hn ▸ by decide) .persist (by decide) rfl rfl h.message hfocus
      (.bounded ⟨houtcome, respond_ne_empty htext, .inr rfl, hruns⟩)

theorem Inv.persist (h : Inv W x log session s) (hn : s.node = .persist) :
    Inv W x log session (persistNode W x s) := by
  have hfocus := h.focus (hn ▸ by decide) (hn ▸ by decide)
  have hanswer : Answer W x s := h.phaseAt hn
  have hspec := appendTurnEvents_spec h.logged.1
    (x := ⟨s.exec.state.request.message, s.finalResponse, false, x.now, x.expired⟩)
  refine ⟨?_, h.message, ?_, ?_, fun _ _ => hfocus, ⟨hspec.2, ?_⟩, ?_⟩
  · rintro hw
    cases hw
  · rintro (hw | hw) <;> cases hw
  · rintro hw
    cases hw
  · have hnode : (persistNode W x s).node = .finished := rfl
    rw [if_pos hnode]
    change (appendTurnEvents _ _ _).cold = _
    rw [hspec.1, h.cold (hn ▸ by decide), h.message]
    rfl
  · change Answer W x (persistNode W x s)
    cases hanswer with
    | gated h => exact .gated ⟨h.detected, h.status, h.runs⟩
    | bounded h => exact .bounded ⟨h.outcome, h.reply, h.status, h.runs⟩
    | executed h => exact .executed ⟨h.loop, h.ended, h.reply, h.status⟩

theorem superstep_at {node : Node} (hn : s.node = node) :
    superstep W x s = runNode W x s node := by
  rw [superstep, hn]

theorem orRaise_ok {next : Option TurnState} (h : runNode.orRaise s next = .ok s') :
    next = some s' := by
  cases next with
  | none => cases h
  | some t => exact congrArg some (Except.ok.inj h)

theorem orRaise_error {next : Option TurnState} {stop : Stop}
    (h : runNode.orRaise s next = .error stop) : stop = .raised s.session := by
  cases next with
  | none => exact (Except.error.inj h).symm
  | some t => cases h

theorem runStep_ok (hn : s.node = .runStep) (hstep : superstep W x s = .ok s') :
    s' = runStepNode W s := by
  have hnode := (superstep_at hn).symm.trans hstep
  simp only [runNode] at hnode
  split_ifs at hnode
  exact (Except.ok.inj hnode).symm

theorem Inv.superstep (h : Inv W x log session s) (hstep : superstep W x s = .ok s') :
    Inv W x log session s' := by
  cases hn : s.node with
  | loadSession => exact (h.loadSession hn ((superstep_at hn).symm.trans hstep)).2
  | updateFocus =>
    obtain rfl := Except.ok.inj ((superstep_at hn).symm.trans hstep)
    exact h.updateFocus hn
  | controlGate => exact h.controlGate hn (orRaise_ok ((superstep_at hn).symm.trans hstep))
  | route => exact h.route hn (orRaise_ok ((superstep_at hn).symm.trans hstep))
  | wave =>
    obtain rfl := Except.ok.inj ((superstep_at hn).symm.trans hstep)
    exact h.wave hn
  | runStep =>
    obtain rfl := runStep_ok hn hstep
    exact h.runStep hn
  | aggregate =>
    obtain rfl := Except.ok.inj ((superstep_at hn).symm.trans hstep)
    exact h.aggregate hn
  | boundary => exact h.boundary hn (orRaise_ok ((superstep_at hn).symm.trans hstep))
  | persist =>
    obtain rfl := Except.ok.inj ((superstep_at hn).symm.trans hstep)
    exact h.persist hn
  | finished =>
    obtain rfl := Except.ok.inj ((superstep_at hn).symm.trans hstep)
    exact h

/-- Where a turn stops, the log is as it was, and a paused one waits before a wave. -/
inductive Stopped (W : World) (x : TurnRequest) (log : List ConversationEvent)
    (session : Session ConversationEvent) : Stop → Prop
  | raised (left : Session ConversationEvent) (coherent : Coherent W.retention left)
      (cold : left.cold = session.cold) : Stopped W x log session (.raised left)
  | paused (s : TurnState) (inv : Inv W x log session s) (node : s.node = .runStep)
      (asks : wavePauses W s = true) : Stopped W x log session (.paused s)

theorem Inv.stops (h : Inv W x log session s) {stop : Stop}
    (hstep : TurnGraph.superstep W x s = .error stop) : Stopped W x log session stop := by
  have hkept : s.node ≠ .finished → stop = .raised s.session → Stopped W x log session stop := by
    rintro hn rfl
    exact .raised _ h.logged.1 (h.cold hn)
  cases hn : s.node with
  | loadSession =>
    obtain ⟨left, rfl, hcoherent, hcold⟩ :=
      loadSessionNode_raises h hn ((superstep_at hn).symm.trans hstep)
    exact .raised left hcoherent hcold
  | controlGate =>
    exact hkept (hn ▸ by decide) (orRaise_error ((superstep_at hn).symm.trans hstep))
  | route => exact hkept (hn ▸ by decide) (orRaise_error ((superstep_at hn).symm.trans hstep))
  | boundary => exact hkept (hn ▸ by decide) (orRaise_error ((superstep_at hn).symm.trans hstep))
  | runStep =>
    have hnode := (superstep_at hn).symm.trans hstep
    simp only [runNode] at hnode
    split_ifs at hnode with hasks
    obtain rfl := Except.error.inj hnode
    exact .paused s h hn hasks
  | updateFocus | wave | aggregate | persist | finished =>
    cases (superstep_at hn).symm.trans hstep

theorem runFrom_ok (hstep : superstep W x s = .ok s') (k : ℕ) :
    runFrom W x s (k + 1) = runFrom W x s' k := by
  rw [runFrom, hstep]

theorem runFrom_error {stop : Stop} (hstep : superstep W x s = .error stop) (k : ℕ) :
    runFrom W x s (k + 1) = .error stop := by
  rw [runFrom, hstep]

theorem Inv.runFrom (h : Inv W x log session s) (k : ℕ) :
    (∀ s', runFrom W x s k = .ok s' → Inv W x log session s') ∧
      ∀ stop, runFrom W x s k = .error stop → Stopped W x log session stop := by
  induction k generalizing s with
  | zero =>
    refine ⟨fun s' hs => ?_, fun stop hstop => (by cases hstop)⟩
    obtain rfl := Except.ok.inj hs
    exact h
  | succ k ih =>
    cases hstep : TurnGraph.superstep W x s with
    | ok s₁ =>
      rw [runFrom_ok hstep]
      exact ih (h.superstep hstep)
    | error stop =>
      rw [runFrom_error hstep]
      refine ⟨fun s' hs => (by cases hs), fun stop' hstop => ?_⟩
      obtain rfl := Except.error.inj hstop
      exact h.stops hstep

def Over : Except Stop TurnState → Prop
  | .ok s => s.node = .finished
  | .error _ => True

def Ends (W : World) (x : TurnRequest) (s : TurnState) : Prop := ∃ k, Over (runFrom W x s k)

theorem Ends.of_ok (hstep : superstep W x s = .ok s') (h : Ends W x s') : Ends W x s := by
  obtain ⟨k, hk⟩ := h
  refine ⟨k + 1, ?_⟩
  rwa [runFrom_ok hstep]

theorem Ends.of_error {stop : Stop} (hstep : superstep W x s = .error stop) : Ends W x s := by
  refine ⟨1, ?_⟩
  rw [runFrom_error hstep]
  trivial

theorem Ends.of_orRaise {next : Option TurnState}
    (hstep : superstep W x s = runNode.orRaise s next)
    (h : ∀ s', next = some s' → Ends W x s') : Ends W x s := by
  cases next with
  | none => exact .of_error hstep
  | some s' => exact .of_ok hstep (h s' rfl)

theorem ends_persist (hn : s.node = .persist) : Ends W x s :=
  .of_ok (superstep_at hn) ⟨0, rfl⟩

theorem ends_boundary (hn : s.node = .boundary) : Ends W x s := by
  have hstep : superstep W x s = runNode.orRaise s (boundaryNode W s) := superstep_at hn
  refine .of_orRaise hstep fun s' hs => ends_persist ?_
  unfold boundaryNode at hs
  split_ifs at hs
  · obtain rfl := Option.some.inj hs
    rfl
  · obtain rfl := Option.some.inj hs
    rfl
  · obtain ⟨text, -, rfl⟩ := Option.map_eq_some_iff.mp hs
    rfl
  · obtain ⟨text, -, rfl⟩ := Option.map_eq_some_iff.mp hs
    rfl

/-- The wave loop is over once its dispatcher says so, and a wave after another it gets there. -/
theorem ends_looping {s₀ : ExecutorState} {w : ℕ} (hw : LastWave W.steps W.budgets s₀ w) (d : ℕ) :
    ∀ {s : TurnState} {n : ℕ}, s.node = .wave → Looping W s.exec s₀ n → w ≤ n + d →
      Ends W x s := by
  induction d with
  | zero =>
    intro s n hn hloop hd
    obtain ⟨j, hj⟩ := Nat.exists_eq_add_of_le hd
    have hended : dispatchWave s.exec.state = .aggregate := by
      have hexec : s.exec = after W.steps W.budgets s₀ (w + j) := hj ▸ hloop.exec
      rw [hexec, advance_ended hw.ended]
      exact hw.ended
    have hnode : (waveNode s).node = .aggregate := by
      unfold waveNode
      rw [hended]
    exact .of_ok (superstep_at hn) (.of_ok (superstep_at hnode) (ends_persist rfl))
  | succ d ih =>
    intro s n hn hloop hd
    apply Ends.of_ok (superstep_at hn)
    unfold waveNode
    split
    · exact .of_ok (superstep_at rfl) (ends_persist rfl)
    · next xs hgoing =>
      by_cases hasks : wavePauses W { s with node := .runStep } = true
      · exact .of_error ((superstep_at rfl).trans (if_pos hasks))
      · have hnode : superstep W x { s with node := .runStep } =
            .ok (runStepNode W { s with node := .runStep }) := if_neg hasks
        exact .of_ok hnode (ih rfl (hloop.advance (hgoing ▸ nofun)) (by omega))

theorem ends_wave (h : Inv W x log session s) (hn : s.node = .wave) : Ends W x s := by
  obtain ⟨s₀, n, hloop⟩ := h.phaseAt hn
  obtain ⟨w, -, hw⟩ := exists_lastWave (B := W.budgets) hloop.initial W.steps
  exact ends_looping hw w hn hloop (by omega)

theorem ends_route (h : Inv W x log session s) (hn : s.node = .route) : Ends W x s := by
  have hstep : superstep W x s = runNode.orRaise s (routeNode W x s) := superstep_at hn
  refine .of_orRaise hstep fun s' hs => ?_
  have hnext := h.route hn hs
  obtain ⟨u, -, rfl⟩ := Option.map_eq_some_iff.mp hs
  by_cases hrouted : u.outcome = "routed"
  · exact ends_wave hnext (if_pos hrouted)
  · exact ends_boundary (if_neg hrouted)

theorem ends_controlGate (h : Inv W x log session s) (hn : s.node = .controlGate) : Ends W x s := by
  have hstep : superstep W x s = runNode.orRaise s (controlGateNode W s) := superstep_at hn
  refine .of_orRaise hstep fun s' hs => ?_
  have hnext := h.controlGate hn hs
  unfold controlGateNode at hs
  dsimp only at hs
  split_ifs at hs
  · obtain rfl := Option.some.inj hs
    exact ends_persist rfl
  · obtain rfl := Option.some.inj hs
    exact ends_route hnext rfl

theorem ends_updateFocus (h : Inv W x log session s) (hn : s.node = .updateFocus) : Ends W x s := by
  have hnext := h.updateFocus hn
  apply Ends.of_ok (superstep_at hn)
  by_cases hfast : x.fastPath ∧ x.fastPlan ≠ []
  · exact ends_wave hnext (if_pos hfast)
  · exact ends_controlGate hnext (if_neg hfast)

theorem start_ends (h : Coherent W.retention session) : Ends W x (start x session) := by
  have hinv : Inv W x session.cold session (start x session) := inv_start h
  cases hload : loadSessionNode W x (start x session) with
  | error left => exact .of_error hload
  | ok s =>
    obtain ⟨hnode, hnext⟩ := hinv.loadSession rfl hload
    exact .of_ok hload (ends_updateFocus hnext hnode)

def invokeGraph (W : World) (configured : ℤ) (x : TurnRequest) (s : TurnState) :
    Except Stop TurnState :=
  match runFrom W x s (safeRecursionLimit W.budgets configured).toNat with
  | .ok s' => if s'.node = .finished then .ok s' else .error (.raised s'.session)
  | .error stop => .error stop

def runTurn (W : World) (configured : ℤ) (x : TurnRequest) (session : Session ConversationEvent) :
    Except Stop TurnState :=
  invokeGraph W configured x (start x session)

/-- The user's answer to a paused turn: how the steps run from the paused wave on, and when. -/
structure Resumption where
  steps : ℕ → Services
  asks : ℕ → Asks
  now : ℕ
  expired : ℕ → Bool

/-- What another step of the paused wave has done is stored with the turn and not done again; it
is one of the answers that its second pass may get. -/
def World.resumed (W : World) (waves : ℕ) (u : Resumption) : World :=
  { W with
    steps := fun k => if k < waves then W.steps k else u.steps k
    asks := u.asks }

def TurnRequest.later (x : TurnRequest) (u : Resumption) : TurnRequest :=
  { x with now := u.now, expired := u.expired }

def resumeTurn (W : World) (configured : ℤ) (x : TurnRequest)
    (session : Session ConversationEvent) (s : TurnState) : Except Stop TurnState :=
  invokeGraph W configured x { s with session := session }

def exchangeOf (x : TurnRequest) (reply : String) : Exchange :=
  ⟨x.request.message, reply, false, x.now, x.expired⟩

/-- What a turn leaves: an answer, and its exchange in the log; or the log as it was, where a
node raised or a step waits for the user. -/
inductive Leaves (W : World) (x : TurnRequest) (log : List ConversationEvent)
    (session : Session ConversationEvent) : Except Stop TurnState → Prop
  | answered {s : TurnState} (answer : Answer W x s) (reply : s.finalResponse ≠ "")
      (focus : Focused W x log s.exec.state.request) (coherent : Coherent W.retention s.session)
      (cold : s.session.cold = session.cold ++
        written W.retention session.cold (exchangeOf x s.finalResponse)) :
      Leaves W x log session (.ok s)
  | paused {s : TurnState} (asks : wavePauses W s = true)
      (focus : Focused W x log s.exec.state.request) (coherent : Coherent W.retention s.session)
      (cold : s.session.cold = session.cold) : Leaves W x log session (.error (.paused s))
  | raised {left : Session ConversationEvent} (coherent : Coherent W.retention left)
      (cold : left.cold = session.cold) : Leaves W x log session (.error (.raised left))

/-- The invocation ends as the graph did, or the limit cut it off. -/
theorem invokeGraph_ends (h : Inv W x log session s) (configured : ℤ) :
    (∀ s', invokeGraph W configured x s = .ok s' →
      s'.node = .finished ∧ Inv W x log session s') ∧
      ∀ stop, invokeGraph W configured x s = .error stop → Stopped W x log session stop := by
  obtain ⟨hok, herror⟩ := h.runFrom (safeRecursionLimit W.budgets configured).toNat
  unfold invokeGraph
  cases hrun : runFrom W x s (safeRecursionLimit W.budgets configured).toNat with
  | error stop =>
    refine ⟨fun s' hs => (by cases hs), fun stop' hstop => ?_⟩
    obtain rfl := Except.error.inj hstop
    exact herror stop hrun
  | ok s₁ =>
    have hinv := hok s₁ hrun
    dsimp only
    split_ifs with hn
    · refine ⟨fun s' hs => ?_, fun stop hstop => (by cases hstop)⟩
      obtain rfl := Except.ok.inj hs
      exact ⟨hn, hinv⟩
    · refine ⟨fun s' hs => (by cases hs), fun stop hstop => ?_⟩
      obtain rfl := Except.error.inj hstop
      exact .raised _ hinv.logged.1 (hinv.cold hn)

theorem invokeGraph_leaves (h : Inv W x log session s) (configured : ℤ) :
    Leaves W x log session (invokeGraph W configured x s) := by
  obtain ⟨hok, hstop⟩ := invokeGraph_ends h configured
  cases hrun : invokeGraph W configured x s with
  | ok s' =>
    obtain ⟨hn, hinv⟩ := hok s' hrun
    have hanswer : Answer W x s' := hinv.phaseAt hn
    have hlog := hinv.logged.2
    rw [if_pos hn] at hlog
    exact .answered hanswer hanswer.reply_ne_empty
      (hinv.focus (hn ▸ by decide) (hn ▸ by decide)) hinv.logged.1 hlog
  | error stop =>
    cases hstop stop hrun with
    | raised left hcoherent hcold => exact .raised hcoherent hcold
    | paused s' hinv hn hasks =>
      exact .paused hasks (hinv.focus (hn ▸ by decide) (hn ▸ by decide)) hinv.logged.1
        (hinv.cold (hn ▸ by decide))

theorem after_congr {S S' : ℕ → Services} {B : Budgets} {s₀ : ExecutorState} {n : ℕ}
    (h : ∀ k < n, S k = S' k) : after S B s₀ n = after S' B s₀ n := by
  induction n with
  | zero => rfl
  | succ n ih =>
    rw [after, after, h n (Nat.lt_succ_self n), ih fun k hk => h k (Nat.lt_succ_of_lt hk)]

theorem Looping.resumed {t : Turn} {s₀ : ExecutorState} {n : ℕ} (h : Looping W t s₀ n)
    (u : Resumption) : Looping (W.resumed n u) t s₀ n := by
  refine ⟨h.initial, h.exec.trans (after_congr fun k hk => ?_), h.waves⟩
  exact (if_pos hk).symm

/-- A paused turn can be resumed on a store that other turns have written to by then. -/
theorem Inv.resumed (h : Inv W x log session s) (hn : s.node = .runStep) (u : Resumption)
    {later : Session ConversationEvent} (hlater : Coherent W.retention later) :
    Inv (W.resumed s.exec.waves u) (x.later u) log later { s with session := later } := by
  obtain ⟨s₀, n, hloop, hgoing⟩ := h.phaseAt hn
  refine ⟨fun hw => ?_, h.message, h.unfocused, h.history, h.focus, ⟨hlater, ?_⟩, ?_⟩
  · rw [hn] at hw
    cases hw
  · rw [if_neg (by rw [hn]; decide)]
  · change Phase _ _ _ s.node
    rw [hn, hloop.waves]
    exact ⟨s₀, n, hloop.resumed u, hgoing⟩

/-- The turns that wait for the user, after any number of resumptions. -/
inductive Waits (W : World) (x : TurnRequest) (session : Session ConversationEvent) :
    World → TurnRequest → TurnState → Prop
  | first (configured : ℤ) (s : TurnState)
      (stop : runTurn W configured x session = .error (.paused s)) : Waits W x session W x s
  | again (W' : World) (x' : TurnRequest) (s s' : TurnState) (u : Resumption)
      (later : Session ConversationEvent) (configured : ℤ) (before : Waits W x session W' x' s)
      (coherent : Coherent W.retention later)
      (stop : resumeTurn (W'.resumed s.exec.waves u) configured (x'.later u) later s =
        .error (.paused s')) :
      Waits W x session (W'.resumed s.exec.waves u) (x'.later u) s'

theorem Waits.inv (h : Coherent W.retention session) {W' : World} {x' : TurnRequest}
    (hw : Waits W x session W' x' s) : W'.retention = W.retention ∧ s.node = .runStep ∧
      ∃ session', Inv W' x' session.cold session' s := by
  induction hw with
  | first configured s stop =>
    cases (invokeGraph_ends (inv_start h) configured).2 _ stop with
    | paused _ hinv hn hasks => exact ⟨rfl, hn, _, hinv⟩
  | again W' x' s s' u later configured before coherent stop ih =>
    obtain ⟨hretention, hn, session', hinv⟩ := ih
    have hresumed := hinv.resumed hn u (hretention ▸ coherent)
    cases (invokeGraph_ends hresumed configured).2 _ stop with
    | paused _ hinv' hn' hasks => exact ⟨hretention, hn', _, hinv'⟩

theorem resumeTurn_leaves (h : Coherent W.retention session) {W' : World} {x' : TurnRequest}
    (hw : Waits W x session W' x' s) (u : Resumption) {later : Session ConversationEvent}
    (hlater : Coherent W.retention later) (configured : ℤ) :
    Leaves (W'.resumed s.exec.waves u) (x'.later u) session.cold later
      (resumeTurn (W'.resumed s.exec.waves u) configured (x'.later u) later s) := by
  obtain ⟨hretention, hn, session', hinv⟩ := hw.inv h
  exact invokeGraph_leaves (hinv.resumed hn u (hretention ▸ hlater)) configured

theorem runFrom_over {r : Except Stop TurnState} {k : ℕ} (h : runFrom W x s k = r) (hover : Over r)
    (j : ℕ) : runFrom W x s (k + j) = r := by
  induction k generalizing s with
  | zero =>
    subst h
    have hn : s.node = .finished := hover
    have hstay : superstep W x s = .ok s := superstep_at hn
    rw [Nat.zero_add]
    induction j with
    | zero => rfl
    | succ j ih =>
      rw [runFrom_ok hstay]
      exact ih
  | succ k ih =>
    rw [Nat.add_right_comm]
    cases hstep : superstep W x s with
    | ok s' =>
      rw [runFrom_ok hstep] at h ⊢
      exact ih h
    | error stop =>
      rw [runFrom_error hstep] at h ⊢
      exact h

/-- Under a limit that is high enough, a turn stops only where one of its nodes does. -/
theorem runTurn_limit (h : Coherent W.retention session) :
    ∃ limit, ∀ configured ≥ limit, ∀ stop, runTurn W configured x session = .error stop →
      ∃ k, runFrom W x (start x session) k = .error stop := by
  obtain ⟨k, hk⟩ := start_ends (x := x) h
  refine ⟨k, fun configured hlimit stop hstop => ⟨k, ?_⟩⟩
  have hle : k ≤ (safeRecursionLimit W.budgets configured).toNat := by
    have : configured ≤ safeRecursionLimit W.budgets configured := by
      unfold safeRecursionLimit
      dsimp only
      split <;> omega
    omega
  obtain ⟨j, hj⟩ := Nat.exists_eq_add_of_le hle
  have hrun := runFrom_over rfl hk j
  unfold runTurn invokeGraph at hstop
  rw [hj, hrun] at hstop
  cases hr : runFrom W x (start x session) k with
  | error stop' =>
    rw [hr] at hstop
    exact congrArg _ (Except.error.inj hstop)
  | ok s =>
    rw [hr] at hk hstop
    have hn : s.node = .finished := hk
    dsimp only at hstop
    rw [if_pos hn] at hstop
    cases hstop

/-- A message that shows a record id is left to the boundary or the agents. -/
theorem Answer.shown (h : Answer W x s) (hword : ∀ c, isIdLetter c → W.characters.word c)
    (hshown : ShowsId W.characters x.request.message.toList) : Bounded s ∨ Executed W s := by
  cases h with
  | gated h =>
    obtain ⟨label, focus, hreply, hdetected⟩ := h.detected
    rw [shownId_passes hword _ hshown] at hdetected
    have hnone : (none : Option String) = response label :=
      congrArg ControlResult.responseText hdetected
    rw [hreply] at hnone
    cases hnone
  | bounded h => exact .inl h
  | executed h => exact .inr h

end

/-- Every turn of the graph, on any coherent store and with any model answers: it is answered by
the gate, the boundary or the agents with a text that is not empty, works with the focus of its
conversation, and adds its exchange to the log; or a node raises, or a step waits for the user,
and the log stays as it is. A turn that waits can be resumed on any later store, to the same
ends. A high enough recursion limit cuts no turn off, and no social reply answers a message that
shows a record id. -/
theorem turn_answered (W : World) (x : TurnRequest) (session : Session ConversationEvent)
    (h : Coherent W.retention session) :
    (∀ configured, Leaves W x session.cold session (runTurn W configured x session)) ∧
      (∀ W' x' s, Waits W x session W' x' s → ∀ u later configured, Coherent W.retention later →
        Leaves (W'.resumed s.exec.waves u) (x'.later u) session.cold later
          (resumeTurn (W'.resumed s.exec.waves u) configured (x'.later u) later s)) ∧
      (∃ limit, ∀ configured ≥ limit, ∀ stop, runTurn W configured x session = .error stop →
        ∃ k, runFrom W x (start x session) k = .error stop) ∧
      ∀ configured s, runTurn W configured x session = .ok s →
        (∀ c, isIdLetter c → W.characters.word c) →
        ShowsId W.characters x.request.message.toList → Bounded s ∨ Executed W s := by
  have hleaves : ∀ configured, Leaves W x session.cold session (runTurn W configured x session) :=
    invokeGraph_leaves (inv_start h)
  refine ⟨hleaves, fun W' x' s hw u later configured hlater =>
    resumeTurn_leaves h hw u hlater configured, runTurn_limit h, ?_⟩
  intro configured s hrun hword hshown
  have hturn := hleaves configured
  rw [hrun] at hturn
  cases hturn with
  | answered answer => exact answer.shown hword hshown

def deskWorld : World where
  characters := asciiClasses
  normalizer := FastPathDispatch.incidentNormalizer
  retention := defaultPolicy
  trimmer := none
  focusIntent := none
  classify _ message := if message = "thanks" then some .thanks else none
  gateRaises _ := false
  router := summaryRouter
  routeRaises _ := false
  clarificationMessage _ := malformedFallback
  timeFilter _ _ := []
  steps _ := failingServices
  asks _ := ⟨fun _ _ => false, fun _ _ => false⟩
  budgets := defaultBudgets
  wording := plainWording
  loads _ := none
  boundaryAnswer _ _ _ := none

def ask (message : String) (forcedAgentIds : List String) : TurnRequest where
  request := ⟨"r1", "t1", "s1", "u1", "requester", message, "", "", []⟩
  fastPath := false
  fastPlan := []
  fastPlanIds := List.nodup_nil
  forcedAgentIds := forcedAgentIds
  tenantGiven := by simp
  sessionGiven := by simp
  now := 0
  expiredAtLoad := true
  expired _ := false

theorem coherent_empty (P : RetentionPolicy) :
    Coherent P (⟨[], none⟩ : Session ConversationEvent) := by
  intro w hw
  cases hw

theorem turn_answered_thanks : ∃ s,
    runTurn deskWorld 60 (ask "thanks" []) ⟨[], none⟩ = .ok s ∧
      s.finalResponse = "You're welcome." ∧ Answer deskWorld (ask "thanks" []) s ∧
      s.session.cold = written defaultPolicy []
        (exchangeOf (ask "thanks" []) "You're welcome.") := by
  have hreply : (runTurn deskWorld 60 (ask "thanks" []) ⟨[], none⟩).toOption.map
      TurnState.finalResponse = some "You're welcome." := by decide +kernel
  obtain ⟨hleaves, -⟩ := turn_answered deskWorld (ask "thanks" []) ⟨[], none⟩ (coherent_empty _)
  have hturn := hleaves 60
  cases hrun : runTurn deskWorld 60 (ask "thanks" []) ⟨[], none⟩ with
  | error left =>
    rw [hrun] at hreply
    cases hreply
  | ok s =>
    rw [hrun] at hreply hturn
    have htext : s.finalResponse = "You're welcome." := Option.some.inj hreply
    cases hturn with
    | answered answer reply focus coherent cold =>
      rw [htext] at cold
      exact ⟨s, rfl, htext, answer, cold⟩

structure Paused where
  world : World
  request : TurnRequest
  state : TurnState

/-- A new turn, with what the graph is compiled with and the model calls answer by then, or the
user's answer to one of those that wait. -/
inductive Call where
  | ask (world : World) (request : TurnRequest) (configured : ℤ)
  | answer (i : ℕ) (u : Resumption) (configured : ℤ)

/-- The store of a conversation, the exchanges that were answered, in order, and the turns that
wait for the user. -/
structure Conversation where
  session : Session ConversationEvent
  exchanges : List Exchange
  paused : List Paused

def Conversation.settle (c : Conversation) (W : World) (x : TurnRequest) :
    Except Stop TurnState → Conversation
  | .ok s =>
    { c with session := s.session, exchanges := c.exchanges ++ [exchangeOf x s.finalResponse] }
  | .error (.raised left) => { c with session := left }
  | .error (.paused s) => { c with session := s.session, paused := c.paused ++ [⟨W, x, s⟩] }

def converseStep (c : Conversation) : Call → Conversation
  | .ask W x configured => c.settle W x (runTurn W configured x c.session)
  | .answer i u configured =>
    match c.paused[i]? with
    | none => c
    | some p =>
      let W := p.world.resumed p.state.exec.waves u
      ({ c with paused := c.paused.eraseIdx i }).settle W (p.request.later u)
        (resumeTurn W configured (p.request.later u) c.session p.state)

def converse (calls : List Call) : Conversation := calls.foldl converseStep ⟨⟨[], none⟩, [], []⟩

def Call.Under (P : RetentionPolicy) : Call → Prop
  | .ask W _ _ => W.retention = P
  | .answer _ _ _ => True

structure Kept (P : RetentionPolicy) (c : Conversation) : Prop where
  coherent : Coherent P c.session
  answered : Answered c.exchanges
  log : c.session.cold = (recorded P c.exchanges).cold

def Resumable (P : RetentionPolicy) (p : Paused) : Prop :=
  p.world.retention = P ∧ p.state.node = .runStep ∧
    ∃ log session, Inv p.world p.request log session p.state

theorem settle_kept {W : World} {x : TurnRequest} {log : List ConversationEvent} {c : Conversation}
    {s : TurnState} (hc : Kept W.retention c) (hp : ∀ p ∈ c.paused, Resumable W.retention p)
    (h : Inv W x log c.session s) (configured : ℤ) :
    Kept W.retention (c.settle W x (invokeGraph W configured x s)) ∧
      ∀ p ∈ (c.settle W x (invokeGraph W configured x s)).paused, Resumable W.retention p := by
  have hleaves := invokeGraph_leaves h configured
  have hstops := (invokeGraph_ends h configured).2
  cases hrun : invokeGraph W configured x s with
  | error stop =>
    rw [hrun] at hleaves
    cases hleaves with
    | raised coherent cold => exact ⟨⟨coherent, hc.answered, cold.trans hc.log⟩, hp⟩
    | paused asks focus coherent cold =>
      refine ⟨⟨coherent, hc.answered, cold.trans hc.log⟩, fun p hmem => ?_⟩
      rcases List.mem_append.mp hmem with hmem | hmem
      · exact hp p hmem
      · rw [List.mem_singleton.mp hmem]
        cases hstops _ hrun with
        | paused s' inv node asks' => exact ⟨rfl, node, log, c.session, inv⟩
  | ok s' =>
    rw [hrun] at hleaves
    cases hleaves with
    | answered answer reply focus coherent cold =>
      refine ⟨⟨coherent, fun e he => ?_, ?_⟩, hp⟩
      · rcases List.mem_append.mp he with he | he
        · exact hc.answered e he
        · rw [List.mem_singleton.mp he]
          exact reply
      · change s'.session.cold = _
        rw [cold, hc.log]
        exact (recorded_cold ..).symm

theorem converseStep_kept {P : RetentionPolicy} {c : Conversation} (hc : Kept P c)
    (hp : ∀ p ∈ c.paused, Resumable P p) (call : Call) (hP : call.Under P) :
    Kept P (converseStep c call) ∧ ∀ p ∈ (converseStep c call).paused, Resumable P p := by
  cases call with
  | ask W x configured =>
    obtain rfl : W.retention = P := hP
    exact settle_kept hc hp (inv_start hc.coherent) configured
  | answer i u configured =>
    simp only [converseStep]
    split
    · exact ⟨hc, hp⟩
    · next p hi =>
      obtain ⟨rfl, hn, log, session, hinv⟩ := hp p (List.mem_of_getElem? hi)
      have hrest : Kept p.world.retention { c with paused := c.paused.eraseIdx i } :=
        ⟨hc.coherent, hc.answered, hc.log⟩
      exact settle_kept (W := p.world.resumed p.state.exec.waves u) hrest
        (fun q hq => hp q (List.mem_of_mem_eraseIdx hq)) (hinv.resumed hn u hc.coherent) configured

theorem converse_kept {P : RetentionPolicy} {calls : List Call}
    (h : ∀ call ∈ calls, call.Under P) : Kept P (converse calls) := by
  have hfold : ∀ (calls : List Call) (c : Conversation), (∀ call ∈ calls, call.Under P) →
      Kept P c → (∀ p ∈ c.paused, Resumable P p) → Kept P (calls.foldl converseStep c) := by
    intro calls
    induction calls with
    | nil => exact fun c _ hc _ => hc
    | cons call calls ih =>
      intro c hcalls hc hp
      obtain ⟨hc', hp'⟩ := converseStep_kept hc hp call (hcalls call List.mem_cons_self)
      exact ih _ (fun x hx => hcalls x (List.mem_cons_of_mem _ hx)) hc' hp'
  exact hfold calls _ h ⟨coherent_empty P, fun x hx => (by cases hx), rfl⟩
    fun p hp => (by cases hp)

def actionServices : Services :=
  { failingServices with agents := fun _ => some ⟨.action, "internal", false, [], []⟩ }

/-- The assignment waits for the user, who says thanks before and after approving it. -/
def deskCalls : List Call :=
  [.ask { deskWorld with
      steps := fun _ => actionServices
      asks := fun _ => ⟨fun _ _ => true, fun _ _ => false⟩ }
    { ask "assign INC0001234" [] with
      fastPath := true
      fastPlan := [plainStep "step_1" "uc05_triage" []]
      fastPlanIds := by decide } 60,
    .ask deskWorld (ask "thanks" []) 60,
    .answer 0 ⟨fun _ => actionServices, fun _ => ⟨fun _ _ => false, fun _ _ => false⟩, 1,
      fun _ => false⟩ 60,
    .ask deskWorld (ask "thanks" []) 60]

end TurnGraph
