import OneOps.RouteCache

/-! Who may be in a plan. Stage 3 keeps only agents that are eligible for chat and that the
access policy allows the caller, but agents come into a plan in other ways too: the
disambiguator looks its patterns up among all registered agents, and the planner adds
prerequisites. A plan from the cache was made for another caller of the same role. -/
namespace RouterAuthorization

open RegistryReads ListSplit
open RegistryService (Service readAgent CrossFieldRules checkIntegrity)
open RouterPlanAssembly (Requires assemblePlan_reach)
open AuthzRules
open RouterDisambiguation
open RouterFunnel
open RouteCache

/-- The agent is eligible for chat, and the policy allows it to the caller. -/
def Permitted (F : Router) (p : Principal) (agentId : String) : Prop :=
  ∃ agent, getOptional F.service.agents agentId = some agent ∧
    agent.body.chatRouterEligible = true ∧ agentAllowed F p agent = true

def PlanPermitted (F : Router) (p : Principal) (r : RouteResult) : Prop :=
  ∀ steps, r.outcome = .routed → r.plan = some steps →
    ∀ s ∈ steps, Permitted F p s.agentId

def Authorized (F : Router) (K : KeyText) (c : Cache) : Event → Prop
  | .route x getFails putFails =>
    ∀ r, (route F K c x getFails putFails).2.result = some r → PlanPermitted F x.principal r
  | .expire _ => True

def subquerySurvivors (F : Router) (x : RouteCall) (sq : SubQuery) : Survivors :=
  survivorsOf F x.principal (scopeSubquerySignals F x sq) (rewriteOf F x sq).text

/-- The registered agent that stage 4 takes for a sub-query, if it does. -/
def subqueryTarget (F : Router) (x : RouteCall) (sq : SubQuery) : Option String :=
  stage4Target F (scopeSubquerySignals F x sq) x.ctx (rewriteOf F x sq).text sq.text
    (subquerySurvivors F x sq)

/-- The ways around stage 3 lead to permitted agents: the registered agent that stage 4 takes
is permitted, and so is every agent that it or a survivor requires. -/
structure Covered (F : Router) (x : RouteCall) : Prop where
  separated : Separated x
  target : ∀ sq ∈ subqueries F x, ∀ a, subqueryTarget F x sq = some a →
    Permitted F x.principal a
  prerequisites : ∀ sq ∈ subqueries F x, ∀ a,
    a ∈ survivorIds (subquerySurvivors F x sq) ∨ subqueryTarget F x sq = some a →
      ∀ d, Relation.TransGen (Requires F.planner) a d → Permitted F x.principal d

section Plans

variable {F : Router} {p q : Principal} {x : RouteCall}

theorem Permitted.of_role (h : p.role = q.role) {agentId : String}
    (hp : Permitted F p agentId) : Permitted F q agentId := by
  obtain ⟨agent, hget, hchat, hallowed⟩ := hp
  refine ⟨agent, hget, hchat, ?_⟩
  rwa [agentAllowed, isAllowed, ← check_own_tenant F.roles agent h]

theorem survivor_permitted {s : ActivationConditions.RequestSignals} {text agentId : String}
    (h : agentId ∈ survivorIds (survivorsOf F p s text)) : Permitted F p agentId := by
  obtain ⟨⟨c, v⟩, hc, rfl⟩ := List.mem_map.mp h
  obtain ⟨hcand, hkept⟩ := mem_stage3Filter.mp hc
  have hchat := (List.mem_filter.mp hcand).2
  unfold stage3 at hkept
  cases hget : getOptional F.service.agents c.agentId with
  | none => simp [hget] at hkept
  | some agent =>
    refine ⟨agent, hget, ?_, ?_⟩
    · simpa [chatEligible, hget] using hchat
    · by_cases hallowed : agentAllowed F p agent = true
      · exact hallowed
      · simp only [hget, hallowed, Bool.false_eq_true, if_false] at hkept
        split at hkept <;> cases hkept

theorem decision_permitted (h : Covered F x) {r : RouteResult}
    (hr : resultOf F (decision F x) = some r) : PlanPermitted F x.principal r := by
  intro steps hrouted hplan s hs
  have hassembled : RouterPlan.assemblePlan F.planner (decision F x).routes = some steps := by
    unfold resultOf at hr
    split at hr
    · obtain ⟨plan, hp, rfl⟩ := Option.map_eq_some_iff.mp hr
      cases hplan
      exact hp
    · cases hr
      cases hplan
  obtain ⟨route, hroute, a, ha, hreach⟩ := assemblePlan_reach hassembled s hs
  obtain ⟨sq, hsq, hids⟩ := decision_routes hroute
  rw [hids] at ha
  have hchosen := funnel_mem ha
  rcases Relation.reflTransGen_iff_eq_or_transGen.mp hreach with he | htrans
  · rw [he]
    rcases hchosen with hsurvivor | htarget
    · exact survivor_permitted hsurvivor
    · exact h.target sq hsq a htarget
  · exact h.prerequisites sq hsq a hchosen _ htrans

end Plans

/-- In every run, every agent of a routed plan is eligible for chat and allowed to the
caller, if the ways around stage 3 lead each call to such agents only. -/
theorem routed_agents_permitted (F : Router) (K : KeyText) (events : List Event)
    (hfree : CollisionFree K (calls events)) (h : ∀ x ∈ calls events, Covered F x) :
    AtEach (fun before e => Authorized F K (after F K before) e) events := by
  intro before e rest he
  cases e with
  | expire key => trivial
  | route x getFails putFails =>
    have hxc : x ∈ calls events := mem_calls.mpr ⟨getFails, putFails, by rw [he]; simp⟩
    intro r hr
    cases hanswer : (route F K (after F K before) x getFails putFails).2 with
    | fromCache r' =>
      rw [hanswer] at hr
      cases hr
      obtain ⟨_, y, hy, _, hkey, hd⟩ := fromCache_origin hanswer
      have hyc : y ∈ calls events := by
        rw [he, calls, List.filterMap_append]
        exact List.mem_append_left _ hy
      -- the row was stored for a caller of the same role
      have hsame := sameKey hfree hyc hxc (h y hyc).separated (h x hxc).separated hkey
      intro steps hrouted hplan s hs
      exact (decision_permitted (h y hyc) (resultFromCache_eq hd) steps hrouted hplan s hs).of_role
        hsame.role
    | ran r' =>
      rw [hanswer] at hr
      have hfresh : fresh F x = some r := (route_ran hanswer).symm.trans hr
      unfold fresh at hfresh
      by_cases hb : isBlank F x = true
      · rw [if_pos hb] at hfresh
        cases hfresh
        intro steps hrouted
        cases hrouted
      · rw [if_neg hb] at hfresh
        exact decision_permitted (h x hxc) hfresh

def deskRecord (agentId : String) (audience dependsOn : List String) (chatRouterEligible : Bool) :
    RegistryService.AgentRecord :=
  let plain := readAgent agentId dependsOn []
  { plain with body := { plain.body with
      abacTags := ⟨.read, audience, .internal⟩
      chatRouterEligible := chatRouterEligible } }

theorem deskRecord_rules {agentId : String} {audience dependsOn : List String} {eligible : Bool}
    (h : agentId ∉ dependsOn) :
    CrossFieldRules (deskRecord agentId audience dependsOn eligible) := by
  obtain ⟨hp, hx, hm, hh, hf⟩ := @RegistryService.readAgent_rules agentId dependsOn [] h (by simp)
  exact ⟨hp, hx, hm, hh, hf⟩

/-- Summaries are not for technicians, triage is not for chat, and the handover builds on
triage. -/
def deskRecords : List RegistryService.AgentRecord :=
  [deskRecord summaryAgent ["viewer", "employee", "service_desk_agent", "manager"] [] true,
    deskRecord "uc02_similar_tickets" [] [] true,
    deskRecord knowledgeAgent [] [] true,
    deskRecord "uc05_triage" [] [] false,
    deskRecord "uc10_handover" [] ["uc05_triage"] true]

theorem deskRecords_rules : ∀ a ∈ deskRecords, CrossFieldRules a := by
  simp only [deskRecords, List.forall_mem_cons]
  exact ⟨deskRecord_rules (by decide), deskRecord_rules (by decide), deskRecord_rules (by decide),
    deskRecord_rules (by decide), deskRecord_rules (by decide), List.forall_mem_nil _⟩

def deskService : Service := .ofRecords deskRecords [] deskRecords_rules (List.forall_mem_nil _)

def deskModel : LlmDisambiguator where
  reply _ candidates _ := .ok ⟨(candidates.map Candidate.agentId).take 1, ["summary"], none⟩
  hasRegistry := true

def deskRouter : Router where
  service := deskService
  cards _ := ⟨[], []⟩
  roles := [("technician_l1", {"read:all_tickets", "write:ticket"}),
    ("service_desk_agent", {"read:all_tickets", "write:ticket"})]
  text := incidentText
  normalize s := s
  retrieve text _ :=
    if text = "INC0001001" then
      [⟨summaryAgent, 9 / 10⟩, ⟨"uc02_similar_tickets", 8 / 10⟩, ⟨knowledgeAgent, 7 / 10⟩]
    else [⟨"uc10_handover", 9 / 10⟩]
  decompose text _ := [⟨"sq1", text, [], []⟩]
  rewrite text _ _ := ⟨text, false⟩
  unifiedSplitter := none
  disambiguator := .llm deskModel
  confidenceSkip := none

def deskCall (role text : String) (h : role ≠ "") : RouteCall where
  queryText := text
  principal := { AuthzService.requester with role := role, roleGiven := h }
  signals := ⟨role, "t1", [], ∅, false, none⟩
  history := []
  ctx := {}

def openRecord : RouteCall := deskCall "service_desk_agent" "INC0001001" (by decide)

def technicianOpens : RouteCall := deskCall "technician_l1" "INC0001001" (by decide)

def handOver : RouteCall := deskCall "service_desk_agent" "Hand over INC0001001" (by decide)

theorem openRecord_requires {a d : String}
    (ha : a ∈ [summaryAgent, "uc02_similar_tickets", knowledgeAgent]) :
    ¬ Requires deskRouter.planner a d := by
  have hnone : ∀ a ∈ [summaryAgent, "uc02_similar_tickets", knowledgeAgent],
      (deskRouter.planner.get a).map RouterPlan.AgentRecord.dependsOn = some [] := by
    decide +kernel
  rintro ⟨agent, hget, hd⟩
  have hempty := hnone a ha
  rw [hget, Option.map_some, Option.some.injEq] at hempty
  rw [hempty] at hd
  cases hd

theorem openRecord_covered : Covered deskRouter openRecord := by
  have hone : subqueries deskRouter openRecord = [⟨"sq1", "INC0001001", [], []⟩] := rfl
  have htarget : subqueryTarget deskRouter openRecord ⟨"sq1", "INC0001001", [], []⟩ = none := by
    decide +kernel
  have hsurvivors : survivorIds (subquerySurvivors deskRouter openRecord
      ⟨"sq1", "INC0001001", [], []⟩) = [summaryAgent, "uc02_similar_tickets", knowledgeAgent] := by
    decide +kernel
  have hrole : separator ∉ "service_desk_agent".toList := by decide
  have hempty : separator ∉ "".toList := by decide
  refine ⟨⟨hrole, hempty, hempty, hempty⟩, ?_, ?_⟩
  · intro sq hsq a ha
    rw [hone, List.mem_singleton] at hsq
    rw [hsq, htarget] at ha
    cases ha
  · intro sq hsq a ha d hd
    rw [hone, List.mem_singleton] at hsq
    rw [hsq, htarget, hsurvivors] at ha
    rcases ha with ha | ha
    · rcases Relation.TransGen.head'_iff.mp hd with ⟨b, hb, _⟩
      exact absurd hb (openRecord_requires ha)
    · cases ha

/-- The record is opened twice, the second time with the cached verdict. -/
theorem openRecord_permitted :
    AtEach (fun before e => Authorized deskRouter plainKey (after deskRouter plainKey before) e)
      [.route openRecord false false, .route openRecord false false] := by
  have hsame : ∀ x ∈ calls [.route openRecord false false, .route openRecord false false],
      x = openRecord := by
    intro x hx
    rcases List.mem_cons.mp hx with rfl | hx
    · rfl
    · exact List.mem_singleton.mp hx
  apply routed_agents_permitted
  · constructor
    · intro x hx y hy _
      rw [hsame x hx, hsame y hy]
    · intro x hx y hy _
      rw [hsame x hx, hsame y hy]
    · intro x hx y hy _
      rw [hsame x hx, hsame y hy]
  · intro x hx
    rw [hsame x hx]
    exact openRecord_covered

theorem permitted_iff {F : Router} {p : Principal} {agentId : String} : Permitted F p agentId ↔
    (getOptional F.service.agents agentId).any (fun agent =>
      agent.body.chatRouterEligible && agentAllowed F p agent) = true := by
  simp [Permitted, Option.any_eq_true]

def agentsOf (r : RouteResult) : RouteOutcome × Option (List String) :=
  (r.outcome, r.plan.map fun steps => steps.map RouterPlan.PlanStep.agentId)

theorem first_not_permitted {F : Router} {K : KeyText} {x : RouteCall} {agents : List String}
    (hx : (fresh F x).map agentsOf = some (.routed, some agents)) {a : String} (ha : a ∈ agents)
    (hn : ¬ Permitted F x.principal a) :
    ¬ AtEach (fun before e => Authorized F K (after F K before) e) [.route x false false] := by
  intro h
  obtain ⟨r, hr, hagents⟩ := Option.map_eq_some_iff.mp hx
  obtain ⟨houtcome, hplan⟩ := Prod.mk.inj hagents
  obtain ⟨steps, hsteps, rfl⟩ := Option.map_eq_some_iff.mp hplan
  obtain ⟨s, hs, rfl⟩ := List.mem_map.mp ha
  have hran : (route F K (after F K []) x false false).2.result = some r := by
    rw [← hr]
    unfold route
    by_cases hb : isBlank F x = true
    · rw [if_pos hb]
      rfl
    · rw [if_neg hb]
      rfl
  exact hn (h [] (.route x false false) [] rfl r hran steps houtcome hsteps s hs)

/-- A technician opens a record: stage 3 denies him the summary agent, and the pattern for
record ids takes it from the registered agents. The handover, which is permitted, brings
triage into the plan. -/
theorem stage3_bypassed : checkIntegrity deskService = .ok () ∧
    ¬ AtEach (fun before e => Authorized deskRouter plainKey (after deskRouter plainKey before) e)
      [.route technicianOpens false false] ∧
    ¬ AtEach (fun before e => Authorized deskRouter plainKey (after deskRouter plainKey before) e)
      [.route handOver false false] := by
  refine ⟨by decide +kernel, ?_, ?_⟩
  · have hplan : (fresh deskRouter technicianOpens).map agentsOf =
        some (.routed, some [summaryAgent]) := by
      decide +kernel
    apply first_not_permitted hplan List.mem_cons_self
    rw [permitted_iff]
    decide +kernel
  · have hplan : (fresh deskRouter handOver).map agentsOf =
        some (.routed, some ["uc05_triage", "uc10_handover"]) := by
      decide +kernel
    apply first_not_permitted hplan List.mem_cons_self
    rw [permitted_iff]
    decide +kernel

end RouterAuthorization
