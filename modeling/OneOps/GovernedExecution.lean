import OneOps.PolicyEngine
import OneOps.LifecycleHooks
import OneOps.ExecutorRecursionLimit

/-! The guards of a step with their own parts in place: the rules of the policy engine, the
hooks an agent declares and the access decision behind one of them, in every wave of a turn. -/
namespace GovernedExecution

open ExecutorPlan
open ExecutorNodes
open ExecutorWaves
open ExecutorStepRunner
open RegistryReads
open RegistryService
open AuthzRules
open LifecycleHooks
open ExecutorRecursionLimit (mem_runs waveRuns)
open PolicyEngine (Decides PolicyFile PolicyQuery inForce afterReloads)

/-- What `_evaluate_step_policy` asks. No action and no surface is named. -/
def stepQuery (request : Request) (agent : Agent) (step : Step) : PolicyQuery where
  tenantId := request.tenantId
  role := if request.role = "" then none else some request.role
  action := none
  dataClassification := some agent.dataClassification
  surface := none
  intent := step.intent.filter (· ≠ "")

def policyVerdict (engine : Option PolicyEngine.Engine) (request : Request) (agent : Agent)
    (step : Step) : PolicyDecision :=
  match engine with
  | none => .allow
  | some e =>
    let d := e.evaluate (stepQuery request agent step)
    match d.effect with
    | .allow => .allow
    | .deny => .deny d.reason
    | .canned => .canned d.cannedResponse d.matchedRuleId

def stepTier (S : Service) (agent : AgentRecord) (step : Step) : Bool :=
  match (if step.toolId = "" then none
      else (getOptional S.tools step.toolId).map fun t => t.body.executionType) with
  | some tier => tier = .action
  | none => agent.body.abacTags.tier = .action

/-- The step's tier is given to the hooks before the handler, not to those after it. -/
def hookContext (S : Service) (authz : Option Authorizer) (phase : HookPhase) (step : Step)
    (request : Request) (result : Option StepResult) (agent : Option AgentRecord) :
    HookContext where
  agentId := step.agentId
  phase := phase
  step := step
  request := request
  result := result
  authz := authz
  agent := agent
  stepIsAction :=
    match phase with
    | .before => agent.map fun a => stepTier S a step
    | .after => none

structure Conditions where
  engine : Option PolicyEngine.Engine
  registered : HookRegistry
  authz : Option Authorizer
  approved : Step → Request → Bool
  getAttr : FulfillmentContracts.Json → String → FulfillmentContracts.Json

def surroundings (S : Service) (C : Conditions) : Surroundings where
  policy := policyVerdict C.engine
  hooks phase hookIds _ step request result :=
    C.registered.run hookIds
      (hookContext S C.authz phase step request result (getOptional S.agents step.agentId))
  approved := C.approved
  getAttr := C.getAttr

section

variable {S : Service} {H : Handlers} {C : Conditions} {B : Budgets} {x : Send}

theorem policyVerdict_allow {engine : PolicyEngine.Engine} {request : Request} {agent : Agent}
    {step : Step} (h : policyVerdict (some engine) request agent step = .allow) :
    (engine.evaluate (stepQuery request agent step)).effect = .allow := by
  simp only [policyVerdict] at h
  cases he : (engine.evaluate (stepQuery request agent step)).effect with
  | allow => rfl
  | deny => simp [he] at h
  | canned => simp [he] at h

structure Governed (S : Service) (C : Conditions) (x : Send) (agent : AgentRecord) : Prop where
  active : getOptional S.agents x.step.agentId = some agent
  policy : ∀ e, C.engine = some e →
    (e.evaluate (stepQuery x.request (nodeAgent agent) x.step)).effect = .allow
  hooks : ∀ hookId ∈ agent.body.beforeInvocation, ∃ hook, C.registered.get hookId = .ok hook ∧
    hook (hookContext S C.authz .before x.step x.request none (some agent)) = none
  gate : stepTier S agent x.step = true → agent.body.managesOwnApproval = false →
    C.approved x.step x.request = true

theorem governed_of_handler
    (h : .handler ∈ (runStep (services S H (surroundings S C)) B x).activity) :
    ∃ agent, Governed S C x agent := by
  obtain ⟨a, ha, hpass, hgate⟩ := handler_iff.mp h
  obtain ⟨agent, hagent, rfl⟩ := Option.map_eq_some_iff.mp ha
  refine ⟨agent, hagent, fun e he => ?_, ?_, ?_⟩
  · have hpol := hpass.policy
    unfold evaluateStepPolicy at hpol
    cases hv : (services S H (surroundings S C)).policy x.request (nodeAgent agent) x.step with
    | allow =>
      have hverdict : policyVerdict C.engine x.request (nodeAgent agent) x.step = .allow := hv
      rw [he] at hverdict
      exact policyVerdict_allow hverdict
    | deny reason => simp [hv] at hpol
    | canned response rule => simp [hv] at hpol
  · have hrun : C.registered.run agent.body.beforeInvocation (hookContext S C.authz .before x.step
        x.request none (getOptional S.agents x.step.agentId)) = none := hpass.hooks
    rw [hagent] at hrun
    exact run_eq_none.mp hrun
  · intro haction hown
    exact hgate haction hown

end

def Faithful (roles : Roles) (authz : Authorizer) : Prop :=
  ∀ p r, (authz p r).effect = .allow → check roles p r = []

/-- The service behind its cache, asked at one moment. An error of the service is no HookError:
it ends the step's task, and no handler is called. -/
def cachedAuthorizer {Moment : Type} [LinearOrder Moment] (T : AuthzService.Texts)
    (plus : Moment → ℤ → Moment) (roles : Roles) (kind : AuthzService.CacheKind)
    (events : List (AuthzService.Event Moment)) (now : Moment) (ttlSeconds : ℤ) : Authorizer :=
  fun p r =>
    match (AuthzService.check T plus roles kind (AuthzService.after T plus roles kind events)
      ⟨p, r, now, now, ttlSeconds⟩).1 with
    | .ok d => d
    | .error _ => ⟨.deny, [], false⟩

theorem freshDecision_allow {T : AuthzService.Texts} {roles : Roles} {p : Principal}
    {r : ResourceDescriptor} (h : (AuthzService.freshDecision T roles p r).effect = .allow) :
    check roles p r = [] := by
  unfold AuthzService.freshDecision at h
  split at h
  · next hnil => exact List.map_eq_nil_iff.mp hnil
  · cases h

theorem cachedAuthorizer_faithful {Moment : Type} [LinearOrder Moment] {T : AuthzService.Texts}
    (plus : Moment → ℤ → Moment) (hsha : Function.Injective T.sha256) (roles : Roles)
    (kind : AuthzService.CacheKind) (events : List (AuthzService.Event Moment)) (now : Moment)
    (ttlSeconds : ℤ) :
    Faithful roles (cachedAuthorizer T plus roles kind events now ttlSeconds) := by
  intro p r hallow
  unfold cachedAuthorizer at hallow
  rcases ((AuthzService.after_sound hsha events).check hsha ⟨p, r, now, now, ttlSeconds⟩).2 with
    ⟨herr, -⟩ | ⟨flag, hd⟩
  · rw [herr] at hallow
    cases hallow
  · rw [hd] at hallow
    exact freshDecision_allow hallow

/-- What one wave finds: the policy files read so far, the hooks that were registered at the
start, the roles and the access service, and the user's answers. -/
structure Wave where
  policies : Option (PolicyFile × List (Option PolicyFile))
  ownHooks : List (String × Hook)
  registered : HookRegistry
  started : registerAll defaultHookRegistry ownHooks = some registered
  roles : Roles
  authz : Option Authorizer
  faithful : ∀ a ∈ authz, Faithful roles a
  approved : Step → Request → Bool
  getAttr : FulfillmentContracts.Json → String → FulfillmentContracts.Json

def Wave.conditions (W : Wave) : Conditions where
  engine := W.policies.map fun f => afterReloads f.1 f.2
  registered := W.registered
  authz := W.authz
  approved := W.approved
  getAttr := W.getAttr

def governed (S : Service) (H : Handlers) (W : ℕ → Wave) (k : ℕ) : Services :=
  services S H (surroundings S (W k).conditions)

def Ruled (W : Wave) (x : Send) (agent : AgentRecord) (effect : PolicyEngine.PolicyEffect) : Prop :=
  ∃ file files r, W.policies = some (file, files) ∧
    Decides (inForce file files).rules (stepQuery x.request (nodeAgent agent) x.step) r ∧
    r.effect = effect

structure Admitted (S : Service) (W : Wave) (x : Send) (agent : AgentRecord) : Prop where
  active : getOptional S.agents x.step.agentId = some agent
  policy : ∀ effect, Ruled W x agent effect → effect = .allow
  hooks : ∀ hookId ∈ agent.body.beforeInvocation, ∃ hook, W.registered.get hookId = .ok hook ∧
    hook (hookContext S W.authz .before x.step x.request none (some agent)) = none
  declared : agent.body.abacTags.tier = .action → agent.body.beforeInvocation ≠ []
  rechecked : "builtin:authz_recheck" ∈ agent.body.beforeInvocation →
    ∃ p, principalFromRequest x.request = some p ∧
      check W.roles p (resourceFromAgent agent p (some (stepTier S agent x.step))) = []
  approved : stepTier S agent x.step = true → agent.body.managesOwnApproval = false →
    W.approved x.step x.request = true

section

variable {S : Service} {H : Handlers} {W : Wave} {B : Budgets} {x : Send} {agent : AgentRecord}

theorem registered_recheck (W : Wave) :
    W.registered.get "builtin:authz_recheck" = .ok hookAuthzRecheck :=
  registerAll_get W.started rfl

theorem agent_rules (h : getOptional S.agents x.step.agentId = some agent) :
    CrossFieldRules agent := by
  obtain ⟨e, v, hr, -, hm⟩ := getOptional_cases h
  exact S.agentsValid e (VersionedRegistry.read_mem hr) (v, agent) hm

theorem Governed.admitted (h : Governed S W.conditions x agent) : Admitted S W x agent where
  active := h.active
  policy := by
    rintro effect ⟨file, files, r, hfiles, hdec, rfl⟩
    have hallow := h.policy (afterReloads file files) (by simp [Wave.conditions, hfiles])
    rw [PolicyEngine.evaluate_of_decides file files hdec] at hallow
    exact hallow
  hooks := h.hooks
  declared := (agent_rules h.active).hooked
  rechecked := by
    intro hmem
    obtain ⟨hook, hget, hpass⟩ := h.hooks _ hmem
    have hown : hookAuthzRecheck = hook :=
      Except.ok.inj ((registered_recheck W).symm.trans hget)
    subst hown
    obtain ⟨authz, a, p, hauthz, ha, hp, hallow⟩ := hookAuthzRecheck_eq_none hpass
    obtain rfl : agent = a := Option.some.inj ha
    exact ⟨p, hp, W.faithful authz hauthz p _ hallow⟩
  approved := h.gate

end

theorem run_dispatched {V : ℕ → Services} {B : Budgets} {s : ExecutorState} {n : ℕ} {r : StepRun}
    (hr : r ∈ (after V B s n).runs) : ∃ m < n, ∃ xs,
      dispatchWave (after V B s m).state = .sends xs ∧ r.send ∈ xs ∧
        r = runStep (V m) B r.send := by
  obtain ⟨m, hm, hr⟩ := mem_runs.mp hr
  unfold waveRuns at hr
  cases hd : dispatchWave (after V B s m).state with
  | aggregate => simp [hd] at hr
  | sends xs =>
    rw [hd] at hr
    obtain ⟨x, hx, rfl⟩ := List.mem_map.mp hr
    refine ⟨m, hm, xs, hd, ?_⟩
    rw [runStep_send]
    exact ⟨hx, rfl⟩

theorem runStep_success {V : Services} {B : Budgets} {x : Send}
    (h : (runStep V B x).result.status = .success) :
    .handler ∈ (runStep V B x).activity ∨
      ∃ agent response rule, V.agents x.step.agentId = some agent ∧
        V.policy x.request agent x.step = .canned response rule := by
  cases ha : V.agents x.step.agentId with
  | none => simp [runStep, ha, failedResult, makeResult] at h
  | some agent =>
    cases hp : V.policy x.request agent x.step with
    | deny reason => simp [runStep, ha, evaluateStepPolicy, hp, makeResult] at h
    | canned response rule => exact .inr ⟨agent, response, rule, rfl, hp⟩
    | allow =>
      refine .inl (handler_iff.mpr ⟨agent, ha, ?_⟩)
      simp only [runStep, ha, evaluateStepPolicy, hp] at h
      cases hb : resolveBindings V.getAttr x.step x.previousResults with
      | error reason => simp [hb, makeResult] at h
      | ok bound =>
        simp only [hb] at h
        cases hh : V.hooks .before agent.beforeInvocation agent x.step x.request none with
        | some e => simp [hh, failedResult, makeResult] at h
        | none =>
          refine ⟨⟨by simp [evaluateStepPolicy, hp], ⟨bound, hb⟩, hh⟩, fun haction hown => ?_⟩
          by_contra happ
          have hrefused : V.approved x.step x.request = false := Bool.not_eq_true _ ▸ happ
          simp [hh, haction, hown, hrefused, makeResult] at h

theorem ruled_of_canned {W : Wave} {x : Send} {agent : AgentRecord}
    {response rule : String} (h : policyVerdict W.conditions.engine x.request (nodeAgent agent)
      x.step = .canned response rule) : Ruled W x agent .canned := by
  cases hf : W.policies with
  | none => simp [policyVerdict, Wave.conditions, hf] at h
  | some f =>
    obtain ⟨file, files⟩ := f
    simp only [policyVerdict, Wave.conditions, hf, Option.map_some,
      PolicyEngine.afterReloads_eq] at h
    rcases PolicyEngine.evaluate_eq (inForce file files).rules (inForce file files).version
      (stepQuery x.request (nodeAgent agent) x.step) with ⟨r, hdec, heq⟩ | ⟨-, heq⟩
    · refine ⟨file, files, r, hf, hdec, ?_⟩
      rw [heq] at h
      cases he : r.effect with
      | allow => simp [he] at h
      | deny => simp [he] at h
      | canned => rfl
    · rw [heq] at h
      cases h

/-- Through any waves, whatever is planned, generated, reloaded, registered and answered: a
handler is called in a wave that admits its step, and a step succeeds in such a wave or by the
response of a rule that was in force. -/
theorem no_step_ungoverned (S : Service) (H : Handlers) (B : Budgets) (W : ℕ → Wave)
    (s : ExecutorState) (n : ℕ) :
    ∀ r ∈ (after (governed S H W) B s n).runs,
      ∃ m < n, ∃ xs, dispatchWave (after (governed S H W) B s m).state = .sends xs ∧
        r.send ∈ xs ∧
        (.handler ∈ r.activity → ∃ agent, Admitted S (W m) r.send agent) ∧
        (r.result.status = .success → .handler ∉ r.activity → ∃ agent,
          getOptional S.agents r.send.step.agentId = some agent ∧
            Ruled (W m) r.send agent .canned) := by
  intro r hr
  obtain ⟨m, hm, xs, hxs, hmem, heq⟩ := run_dispatched hr
  refine ⟨m, hm, xs, hxs, hmem, fun hcall => ?_, fun hok hno => ?_⟩
  · rw [heq] at hcall
    obtain ⟨agent, hg⟩ := governed_of_handler hcall
    exact ⟨agent, hg.admitted⟩
  · rw [heq] at hok hno
    rcases runStep_success hok with hcall | ⟨a, response, rule, ha, hp⟩
    · exact absurd hcall hno
    · obtain ⟨agent, hagent, rfl⟩ := Option.map_eq_some_iff.mp ha
      exact ⟨agent, hagent, ruled_of_canned hp⟩

def closingAgent : AgentRecord :=
  let plain := readAgent "uc_notes" [] []
  { plain with body :=
    { plain.body with
      toolRefs := [⟨"update_ticket", 1⟩]
      abacTags := { plain.body.abacTags with tier := .action }
      beforeInvocation := ["builtin:authz_recheck"] } }

theorem closingAgent_rules : ∀ a ∈ [closingAgent], CrossFieldRules a := by
  intro a ha
  rw [List.mem_singleton.mp ha]
  have h : CrossFieldRules (readAgent "uc_notes" [] []) := readAgent_rules (by decide) (by decide)
  exact ⟨h.notOwnPrerequisite, h.notOwnExclusion, h.notOwnMember,
    fun _ => List.cons_ne_nil _ _, fun f hf => by cases hf⟩

def closingRegistry : Service :=
  Service.ofRecords [closingAgent] [updateTicket] closingAgent_rules updateTicket_rules

def plainTexts : AuthzService.Texts := ⟨id, id⟩

def waveUnder (roles : Roles) : Wave where
  policies := none
  ownHooks := []
  registered := defaultHookRegistry
  started := rfl
  roles := roles
  authz := some (AuthzService.freshDecision plainTexts roles)
  faithful := by
    rintro a ha p r hallow
    obtain rfl := Option.some.inj ha
    exact freshDecision_allow hallow
  approved _ _ := true
  getAttr _ _ := .null

def downgraded (k : ℕ) : Wave :=
  waveUnder (if k = 0 then [("agent", {"write:tickets"})] else [("agent", {"read:own"})])

def closingPlan : ExecutorState :=
  startOf [plainStep "step_1" "uc_notes" [], plainStep "step_2" "uc_notes" ["step_1"]]

/-- Both steps were planned and approved alike; the second comes too late. -/
theorem no_step_ungoverned_downgraded :
    let runs := (after (governed closingRegistry anyHandlers downgraded) defaultBudgets closingPlan
      2).runs
    (runs.map fun r => (r.send.step.stepId, decide (.handler ∈ r.activity))) =
        [("step_1", true), ("step_2", false)] ∧
      ∀ r ∈ runs, .handler ∈ r.activity →
        ∃ m < 2, ∃ agent, Admitted closingRegistry (downgraded m) r.send agent := by
  refine ⟨by decide +kernel, fun r hr hcall => ?_⟩
  obtain ⟨m, hm, -, -, -, hadmit, -⟩ :=
    no_step_ungoverned closingRegistry anyHandlers defaultBudgets downgraded closingPlan 2 r hr
  exact ⟨m, hm, hadmit hcall⟩

end GovernedExecution
