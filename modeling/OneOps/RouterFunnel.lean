import OneOps.AuthzRules
import OneOps.RouterDisambiguation
import OneOps.RouterPlanAssembly

/-! The routing funnel without its cache. A message is split into sub-queries; each of them
goes through retrieval, the filters of stage 3 and a choice among the survivors; the agents
that were chosen make the plan. The text functions, the retriever, the stages that call a
model and the glossary are functions of their arguments. -/
namespace RouterFunnel

open VersionedRegistry RegistryReads RowMerge
open RegistryService (Service AgentRecord planAgent)
open ActivationConditions
open AuthzRules
open RouterDisambiguation
open RouterPlan (SubQueryRoute PlanStep assemblePlan)

structure SubQuery where
  id : String
  text : String
  dependsOn : List String := []
  bindings : List (String × String × String) := []
  deriving DecidableEq

structure RewriteResult where
  text : String
  changed : Bool
  deriving DecidableEq

structure ConversationTurn where
  role : String
  content : String
  deriving DecidableEq

structure RouterText extends RouterDisambiguation.Text where
  /-- The entities of a text with their services. -/
  extract : String → List (String × String)
  serviceOf : String → Option String
  isFollowupReference : String → Bool
  referencesLinkedRecord : String → Bool

structure InputField where
  name : String
  autoDeriveFrom : Option String

/-- What the binder reads of an agent's card beside its record. -/
structure Card where
  services : List String
  inputFields : List InputField

/-- The agents that the store serves, deprecated ones among them. -/
def servedAgents (S : Service) : List RouterPlan.AgentRecord :=
  S.agents.envelopes.filterMap fun e => (getOptional S.agents e.id).map planAgent

/-- What a router is wired with. The thresholds are there if the confidence skip is on. -/
structure Router where
  service : Service
  cards : String → Card
  roles : Roles
  text : RouterText
  normalize : String → String
  retrieve : (normalized tenantId : String) → List Candidate
  decompose : String → RequestCtx → List SubQuery
  rewrite : String → List ConversationTurn → RequestCtx → RewriteResult
  unifiedSplitter : Option (String → List ConversationTurn → RequestCtx → List SubQuery)
  disambiguator : Disambiguator
  confidenceSkip : Option (ℚ × ℚ)

def Router.planner (F : Router) : RouterPlan.Registry := ⟨servedAgents F.service⟩

structure RouteCall where
  queryText : String
  principal : Principal
  signals : RequestSignals
  history : List ConversationTurn
  ctx : RequestCtx

abbrev Params := List (String × String)

def paramOf (params : Params) (name : String) : String :=
  ((params.find? fun e => e.1 = name).map Prod.snd).getD ""

def setParam (params : Params) (name value : String) : Params :=
  upsert Prod.fst params (name, value)

def entityFieldNames : List String :=
  ["ticket_id", "article_id", "entity_id", "incident_id", "request_id", "problem_id",
    "change_id", "asset_id", "ci_id", "kb_id"]

/-- The services whose entities a parameter takes. -/
def paramAccepts (name : String) : List String :=
  match name with
  | "ticket_id" => ["incident", "request", "problem", "change", "asset", "cmdb_ci"]
  | "incident_id" => ["incident"]
  | "request_id" => ["request"]
  | "problem_id" => ["problem"]
  | "change_id" => ["change"]
  | "asset_id" => ["asset"]
  | "ci_id" => ["cmdb_ci", "asset"]
  | "article_id" => ["knowledge"]
  | "kb_id" => ["knowledge"]
  | "entity_id" => ["incident", "request", "problem", "change", "asset", "cmdb_ci", "knowledge"]
  | _ => []

def deriveForChat (T : RouterText) (targetField sourceValue : String) : String :=
  if targetField = "service_id" ∧ sourceValue ≠ "" then (T.serviceOf sourceValue).getD "" else ""

def bindField (T : RouterText) (entityId : String) (out : Params) (f : InputField) : Params :=
  if paramOf out f.name ≠ "" then out
  else if f.name ∈ entityFieldNames then setParam out f.name entityId
  else
    match f.autoDeriveFrom with
    | none => out
    | some source =>
      let derived := deriveForChat T f.name (paramOf out source)
      if derived = "" then out else setParam out f.name derived

def firstCompatibleEntity (entities : List (String × String)) (services : List String) :
    Option (String × String) :=
  entities.find? fun e => services = [] ∨ e.2 ∈ services

def bindFastPathFields (F : Router) (agent : AgentRecord) (entities : List (String × String))
    (out : Params) : Params :=
  match agent.body.fastPath, firstCompatibleEntity entities (F.cards agent.id).services with
  | some _, some e => (F.cards agent.id).inputFields.foldl (bindField F.text e.1) out
  | _, _ => out

def bindToolParam (entities : List (String × String)) (out : Params) (name : String) : Params :=
  if name ∉ entityFieldNames ∨ paramOf out name ≠ "" then out
  else
    match firstCompatibleEntity entities (paramAccepts name) with
    | none => out
    | some e => setParam out name e.1

def toolParams (F : Router) (agent : AgentRecord) : List String :=
  agent.body.toolRefs.flatMap fun r =>
    match getOptional F.service.tools r.toolId with
    | none => []
    | some tool => tool.body.parameters.map RegistryService.ToolParameter.name

def bindEntitiesToFastPath (F : Router) (agentId : String) (existing : Params)
    (entities : List (String × String)) : Params :=
  match getOptional F.service.agents agentId with
  | none => existing
  | some agent =>
    if entities = [] then existing
    else (toolParams F agent).foldl (bindToolParam entities)
      (bindFastPathFields F agent entities existing)

/-- The text of the sub-query goes to the agent as it stands. -/
def chatBind (F : Router) (agentId : String) (s : RequestSignals) (text : String) (base : Params) :
    Params :=
  let bound := bindEntitiesToFastPath F agentId base s.presentEntities
  if text = "" then bound
  else insertNew Prod.fst (setParam bound "user_message" text) ("query", text)

def chatEligible (F : Router) (agentId : String) : Bool :=
  match getOptional F.service.agents agentId with
  | none => true
  | some agent => agent.body.chatRouterEligible

def agentAllowed (F : Router) (p : Principal) (agent : AgentRecord) : Bool :=
  isAllowed F.roles p (fromAgentRecord agent p.tenantId)

inductive Stage3 where
  | dropped
  | denied
  | kept (verdict : Ternary)
  deriving DecidableEq

def stage3 (F : Router) (p : Principal) (s : RequestSignals) (c : Candidate) : Stage3 :=
  match getOptional F.service.agents c.agentId with
  | none => .dropped
  | some agent =>
    if evaluate s agent.body.activationCondition = .fail then .dropped
    else if agentAllowed F p agent then .kept (evaluate s agent.body.activationCondition)
    else .denied

/-- The survivors with their verdicts, and whether any candidate was denied. -/
def stage3Filter (F : Router) (p : Principal) (s : RequestSignals) (candidates : List Candidate) :
    List (Candidate × Ternary) × Bool :=
  (candidates.filterMap fun c =>
      match stage3 F p s c with
      | .kept verdict => some (c, verdict)
      | _ => none,
    candidates.any fun c => stage3 F p s c = .denied)

structure FunnelOutcome where
  agentIds : List String
  parametersByAgent : List (String × Params)
  reason : String
  policyDenied : Bool
  deriving DecidableEq

def unrouted (reason : String) (policyDenied : Bool) : FunnelOutcome :=
  ⟨[], [], reason, policyDenied⟩

def routedTo (F : Router) (s : RequestSignals) (text agentId : String) : FunnelOutcome :=
  ⟨[agentId], [(agentId, chatBind F agentId s text [])], "", false⟩

abbrev Survivors := List (Candidate × Ternary)

def survivorIds (survivors : Survivors) : List String := survivors.map fun x => x.1.agentId

/-- Stage 3.6: the best survivor passes and is far ahead. -/
def tryConfidenceSkip (F : Router) : Survivors → Option String
  | (top, .pass) :: (second, _) :: _ =>
    match F.confidenceSkip with
    | none => none
    | some (minScore, minMargin) =>
      if minScore ≤ top.score ∧ minMargin ≤ top.score - second.score then some top.agentId else none
  | _ => none

def shortcut (F : Router) (survivors : Survivors) (prerouteText : String) (hasFocus : Bool) :
    Option String :=
  match deterministicPreroute F.text.toText prerouteText (survivorIds survivors) hasFocus with
  | some t => some t.agentId
  | none =>
    match survivors with
    | [sole] => some sole.1.agentId
    | _ => tryConfidenceSkip F survivors

def declinedOutcome (F : Router) (s : RequestSignals) (text : String) (survivors : Survivors)
    (result : Disambiguation) : FunnelOutcome :=
  match survivors.filter fun x => x.2 = .pass with
  | [sole] => routedTo F s text sole.1.agentId
  | _ => unrouted (if result.rationale = "" then "no confident match" else result.rationale) false

def withIntents (s : RequestSignals) (intents : List String) : RequestSignals :=
  { s with intents := some intents.toFinset }

/-- With the classified intents the activation conditions are looked at once more. -/
def resolveChosen (F : Router) (s : RequestSignals) (result : Disambiguation) : List String :=
  if result.intents = [] then result.selectedAgentIds
  else
    result.selectedAgentIds.filter fun agentId =>
      match getOptional F.service.agents agentId with
      | none => false
      | some agent => survivesFilter agent.body.activationCondition (withIntents s result.intents)

def registeredIds (F : Router) : List String := F.service.agents.envelopes.map Envelope.id

def stage4Disambiguate (F : Router) (s : RequestSignals) (ctx : RequestCtx)
    (normalized text : String) (survivors : Survivors) : FunnelOutcome :=
  let result := disambiguate F.text.toText (registeredIds F) F.disambiguator normalized
    (survivors.map Prod.fst) ctx
  if result.isConfidentMatch then
    let chosen := resolveChosen F s result
    if chosen = [] then unrouted "selected agent(s) failed the intent-resolved check" false
    else ⟨chosen, chosen.map fun a => (a, chatBind F a s text (result.paramsFor a)), "", false⟩
  else declinedOutcome F s text survivors result

def focusId (F : Router) (ctx : RequestCtx) : String := F.text.strip (ctx.focusEntityId.getD "")

def focusService (F : Router) (ctx : RequestCtx) : String :=
  F.text.strip (ctx.focusServiceId.getD "")

def prerouteText (F : Router) (text originalText : String) : String :=
  if originalText = "" then F.normalize text else originalText

def choose (F : Router) (s : RequestSignals) (ctx : RequestCtx) (text originalText : String)
    (survivors : Survivors) : FunnelOutcome :=
  match shortcut F survivors (prerouteText F text originalText) (focusId F ctx ≠ "") with
  | some agentId => routedTo F s text agentId
  | none => stage4Disambiguate F s ctx (F.normalize text) text survivors

def chatCandidates (F : Router) (p : Principal) (text : String) : List Candidate :=
  (F.retrieve (F.normalize text) p.tenantId).filter fun c => chatEligible F c.agentId

def funnel (F : Router) (p : Principal) (s : RequestSignals) (ctx : RequestCtx)
    (text originalText : String) : FunnelOutcome :=
  if F.retrieve (F.normalize text) p.tenantId = [] then unrouted "no candidates retrieved" false
  else if chatCandidates F p text = [] then unrouted "no chat-eligible candidates" false
  else
    let filtered := stage3Filter F p s (chatCandidates F p text)
    if filtered.1 = [] then
      unrouted (if filtered.2 then "every candidate was denied by access policy"
        else "no candidate passed the activation-condition filter") filtered.2
    else choose F s ctx text originalText filtered.1

def subqueries (F : Router) (x : RouteCall) : List SubQuery :=
  match F.unifiedSplitter with
  | some split => split x.queryText x.history x.ctx
  | none => F.decompose x.queryText x.ctx

def specUsable (F : Router) (x : RouteCall) : Bool :=
  match subqueries F x with
  | [sq] => F.text.strip sq.text = F.text.strip x.queryText
  | _ => false

/-- The splitter has resolved the references. Otherwise the message is rewritten as a whole
beside its decomposition, and that is used if the message stayed whole. -/
def rewriteOf (F : Router) (x : RouteCall) (sq : SubQuery) : RewriteResult :=
  if F.unifiedSplitter.isSome then ⟨sq.text, false⟩
  else if specUsable F x then F.rewrite x.queryText x.history x.ctx
  else F.rewrite sq.text x.history x.ctx

def focusFromHistory (F : Router) (history : List ConversationTurn) : Option (String × String) :=
  history.reverse.findSome? fun t =>
    if t.role = "user" then (F.text.extract t.content).head? else none

/-- The entities that a sub-query is about. Those of the request are replaced. -/
def scopedEntities (F : Router) (ctx : RequestCtx) (history : List ConversationTurn)
    (text : String) : List (String × String) :=
  if F.text.extract text ≠ [] then F.text.extract text
  else if focusId F ctx ≠ "" ∧ focusService F ctx ≠ "" ∧ F.text.isFollowupReference text then
    [(focusId F ctx, focusService F ctx)]
  else if F.text.referencesLinkedRecord text then (focusFromHistory F history).toList
  else []

def scopeSubquerySignals (F : Router) (x : RouteCall) (sq : SubQuery) : RequestSignals :=
  let rewritten := rewriteOf F x sq
  let text := if rewritten.changed then rewritten.text else sq.text
  { x.signals with presentEntities := scopedEntities F x.ctx x.history text }

def routeSubquery (F : Router) (x : RouteCall) (sq : SubQuery) : FunnelOutcome :=
  funnel F x.principal (scopeSubquerySignals F x sq) x.ctx (rewriteOf F x sq).text sq.text

inductive RouteOutcome where
  | routed | noConfidentMatch | policyDenied
  deriving DecidableEq, Repr

structure RouteResult where
  outcome : RouteOutcome
  plan : Option (List PlanStep) := none
  boundaryReason : String := ""
  unrouted : List String := []

/-- The verdict of the funnel, from which the result is made. -/
structure Decision where
  outcome : RouteOutcome
  routes : List SubQueryRoute
  unrouted : List String
  reason : String

def routeOf (sq : SubQuery) (outcome : FunnelOutcome) : Option SubQueryRoute :=
  if outcome.agentIds = [] then none
  else some ⟨sq.id, outcome.agentIds, outcome.parametersByAgent, sq.dependsOn, sq.bindings⟩

/-- A single sub-query that failed gives its own reason. -/
def finalizeRoute (outcomes : List (SubQuery × FunnelOutcome)) : Decision :=
  let routes := outcomes.filterMap fun o => routeOf o.1 o.2
  let failed := outcomes.filter fun o => o.2.agentIds = []
  if routes = [] then
    ⟨if failed.any fun o => o.2.policyDenied then .policyDenied else .noConfidentMatch, [], [],
      match outcomes with
      | [o] => o.2.reason
      | _ => "no sub-query produced a confident route"⟩
  else ⟨.routed, routes, failed.map fun o => o.1.text, ""⟩

def decision (F : Router) (x : RouteCall) : Decision :=
  finalizeRoute ((subqueries F x).map fun sq => (sq, routeSubquery F x sq))

/-- `none` where the plan cannot be assembled. -/
def resultOf (F : Router) (d : Decision) : Option RouteResult :=
  match d.outcome with
  | .routed =>
    (assemblePlan F.planner d.routes).map fun plan => ⟨.routed, some plan, "", d.unrouted⟩
  | outcome => some ⟨outcome, none, d.reason, []⟩

def isBlank (F : Router) (x : RouteCall) : Bool := x.queryText = "" ∨ F.text.strip x.queryText = ""

def emptyQuery : RouteResult := ⟨.noConfidentMatch, none, "empty query", []⟩

def fresh (F : Router) (x : RouteCall) : Option RouteResult :=
  if isBlank F x then some emptyQuery else resultOf F (decision F x)

section Chosen

variable {F : Router} {p : Principal} {s : RequestSignals} {ctx : RequestCtx}
  {text originalText agentId : String} {survivors : Survivors}

theorem mem_stage3Filter {candidates : List Candidate} {c : Candidate} {verdict : Ternary} :
    (c, verdict) ∈ (stage3Filter F p s candidates).1 ↔
      c ∈ candidates ∧ stage3 F p s c = .kept verdict := by
  unfold stage3Filter
  rw [List.mem_filterMap]
  constructor
  · rintro ⟨d, hd, h⟩
    cases hs : stage3 F p s d with
    | kept v =>
      rw [hs] at h
      cases h
      exact ⟨hd, hs⟩
    | dropped =>
      rw [hs] at h
      cases h
    | denied =>
      rw [hs] at h
      cases h
  · rintro ⟨hc, hs⟩
    exact ⟨c, hc, by rw [hs]⟩

theorem tryConfidenceSkip_mem (h : tryConfidenceSkip F survivors = some agentId) :
    agentId ∈ survivorIds survivors := by
  unfold tryConfidenceSkip at h
  split at h
  · split at h
    · cases h
    · split at h
      · cases h
        exact List.mem_cons_self
      · cases h
  · cases h

theorem shortcut_mem {query : String} {hasFocus : Bool}
    (h : shortcut F survivors query hasFocus = some agentId) : agentId ∈ survivorIds survivors := by
  unfold shortcut at h
  cases hp : deterministicPreroute F.text.toText query (survivorIds survivors) hasFocus with
  | some t =>
    rw [hp] at h
    cases h
    exact deterministicPreroute_mem hp
  | none =>
    rw [hp] at h
    simp only at h
    split at h
    · cases h
      exact List.mem_cons_self
    · exact tryConfidenceSkip_mem h

theorem mem_routedTo {chosen : String} : agentId ∈ (routedTo F s text chosen).agentIds ↔
    agentId = chosen := List.mem_singleton

theorem declinedOutcome_mem {result : Disambiguation}
    (h : agentId ∈ (declinedOutcome F s text survivors result).agentIds) :
    agentId ∈ survivorIds survivors := by
  unfold declinedOutcome at h
  split at h
  next sole hone =>
    rw [mem_routedTo.mp h]
    have hmem : sole ∈ survivors.filter fun x => x.2 = .pass := by
      rw [hone]
      exact List.mem_cons_self
    exact List.mem_map_of_mem (List.mem_filter.mp hmem).1
  next => cases h

theorem resolveChosen_mem {result : Disambiguation} (h : agentId ∈ resolveChosen F s result) :
    agentId ∈ result.selectedAgentIds := by
  unfold resolveChosen at h
  by_cases hi : result.intents = []
  · rwa [if_pos hi] at h
  · rw [if_neg hi] at h
    exact (List.mem_filter.mp h).1

/-- The agent that stage 4 takes by a pattern, from all registered agents. The survivors
have been left without a choice, and the agent stands the look at its intent. -/
def stage4Target (F : Router) (s : RequestSignals) (ctx : RequestCtx) (text originalText : String)
    (survivors : Survivors) : Option String :=
  match shortcut F survivors (prerouteText F text originalText) (focusId F ctx ≠ ""),
    registeredPreroute F.text.toText (registeredIds F) F.disambiguator (F.normalize text) with
  | none, some t => (resolveChosen F s (prerouteSelect t)).head?
  | _, _ => none

/-- A survivor is chosen, or the registered agent that a pattern names. -/
theorem choose_mem (h : agentId ∈ (choose F s ctx text originalText survivors).agentIds) :
    agentId ∈ survivorIds survivors ∨
      stage4Target F s ctx text originalText survivors = some agentId := by
  unfold choose at h
  split at h
  next a hs =>
    rw [mem_routedTo.mp h]
    exact .inl (shortcut_mem hs)
  next hs =>
    unfold stage4Disambiguate at h
    simp only at h
    split at h
    · split at h
      · cases h
      · have hchosen : agentId ∈ resolveChosen F s (disambiguate F.text.toText (registeredIds F)
            F.disambiguator (F.normalize text) (survivors.map Prod.fst) ctx) := h
        rcases @disambiguate_selected F.text.toText (survivors.map Prod.fst) (registeredIds F)
          F.disambiguator (F.normalize text) ctx with hheld | ⟨t, ht, hd⟩
        · left
          have hmem := hheld _ (resolveChosen_mem hchosen)
          rwa [List.map_map] at hmem
        · right
          rw [hd] at hchosen
          have hone : agentId = t.agentId := List.mem_singleton.mp (resolveChosen_mem hchosen)
          have hsub : ∀ a ∈ resolveChosen F s (prerouteSelect t), a = t.agentId := fun a ha =>
            List.mem_singleton.mp (resolveChosen_mem ha)
          obtain ⟨first, rest, hl⟩ := List.exists_cons_of_ne_nil (List.ne_nil_of_mem hchosen)
          simp only [stage4Target, hs, ht, hl, List.head?_cons, Option.some.injEq]
          rw [hone]
          exact hsub first (by rw [hl]; exact List.mem_cons_self)
    · exact .inl (declinedOutcome_mem h)

def survivorsOf (F : Router) (p : Principal) (s : RequestSignals) (text : String) : Survivors :=
  (stage3Filter F p s (chatCandidates F p text)).1

theorem funnel_mem (h : agentId ∈ (funnel F p s ctx text originalText).agentIds) :
    agentId ∈ survivorIds (survivorsOf F p s text) ∨
      stage4Target F s ctx text originalText (survivorsOf F p s text) = some agentId := by
  unfold funnel at h
  simp only at h
  split at h
  · cases h
  · split at h
    · cases h
    · split at h
      · cases h
      · exact choose_mem h

theorem decision_routes {x : RouteCall} {route : SubQueryRoute}
    (h : route ∈ (decision F x).routes) :
    ∃ sq ∈ subqueries F x, route.agentIds = (routeSubquery F x sq).agentIds := by
  unfold decision finalizeRoute at h
  simp only at h
  split at h
  · cases h
  · obtain ⟨⟨sq, outcome⟩, ho, hroute⟩ := List.mem_filterMap.mp h
    obtain ⟨sq', hsq, he⟩ := List.mem_map.mp ho
    cases he
    refine ⟨sq, hsq, ?_⟩
    unfold routeOf at hroute
    split at hroute
    · cases hroute
    · cases hroute
      rfl

end Chosen

end RouterFunnel
