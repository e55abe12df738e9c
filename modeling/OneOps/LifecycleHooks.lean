import OneOps.AuthzService
import OneOps.ExecutorStepRunner
import OneOps.PythonText

/-! The gates around a step. An agent declares ids of hooks; before its handler and after it
they run in their order, and the first one that raises ends the step. -/
namespace LifecycleHooks

open ExecutorPlan
open ExecutorNodes
open RegistryService
open AuthzRules
open AuthzService (AuthzDecision)

abbrev Authorizer := Principal → ResourceDescriptor → AuthzDecision

/-- What a hook receives; the last three are the injected services. -/
structure HookContext where
  agentId : String
  phase : HookPhase
  step : Step
  request : Request
  result : Option StepResult
  authz : Option Authorizer
  agent : Option AgentRecord
  stepIsAction : Option Bool

/-- A hook passes, or raises a `HookError` with a message. -/
abbrev Hook := HookContext → Option String

structure HookRegistry where
  hooks : List (String × Hook)

/-- A second hook under one id raises. -/
def HookRegistry.register (R : HookRegistry) (hookId : String) (hook : Hook) :
    Option HookRegistry :=
  if hookId ∈ R.hooks.map Prod.fst then none else some ⟨R.hooks ++ [(hookId, hook)]⟩

def HookRegistry.get (R : HookRegistry) (hookId : String) : Except String Hook :=
  match R.hooks.find? fun h => h.1 = hookId with
  | some h => .ok h.2
  | none => .error ("hook '" ++ hookId ++ "' is declared by an agent but not registered")

def runOne (R : HookRegistry) (ctx : HookContext) (hookId : String) : Option String :=
  match R.get hookId with
  | .ok hook => hook ctx
  | .error e => some e

def HookRegistry.run (R : HookRegistry) (hookIds : List String) (ctx : HookContext) :
    Option String :=
  hookIds.findSome? (runOne R ctx)

def hookStateValidate : Hook := fun ctx =>
  if ctx.step.agentId = "" then some "state_validate: step has no agent_id" else none

def hookOutputRedact : Hook := fun _ => none

def principalFromRequest (request : Request) : Option Principal :=
  if h : PythonText.strip request.tenantId = "" ∨ PythonText.strip request.role = "" then none
  else
    some
      { tenantId := PythonText.strip request.tenantId
        userId := PythonText.strip request.userId
        role := PythonText.strip request.role
        attributes := []
        tenantGiven := fun ht => h (.inl ht)
        roleGiven := fun hr => h (.inr hr) }

/-- The tier is that of the step where the executor gives it, else that of the agent. -/
def resourceFromAgent (agent : AgentRecord) (p : Principal) (stepIsAction : Option Bool) :
    ResourceDescriptor where
  resourceId := agent.id
  resourceTenantId := p.tenantId
  tier :=
    match stepIsAction with
    | none => agent.body.abacTags.tier
    | some isAction => if isAction then .action else .read
  dataClassification := agent.body.abacTags.dataClassification
  audience := agent.body.abacTags.audience
  requiredScopes := []

def denialText (d : AuthzDecision) : String :=
  if d.reasons = [] then "authz_recheck: denied"
  else "authz_recheck: " ++ "; ".intercalate d.reasons

def hookAuthzRecheck : Hook := fun ctx =>
  match ctx.authz, ctx.agent with
  | none, _ => some ("authz_recheck: services['authz'] is not an AuthzService — " ++
      "executor wiring is incomplete (no silent skip)")
  | some _, none => some ("authz_recheck: services['agent'] is not an AgentRecord — " ++
      "executor wiring is incomplete (no silent skip)")
  | some authz, some agent =>
    match principalFromRequest ctx.request with
    | none => some ("authz_recheck: request envelope missing tenant_id/role — " ++
        "cannot construct a Principal (deny-by-default)")
    | some p =>
      let d := authz p (resourceFromAgent agent p ctx.stepIsAction)
      if d.effect = .allow then none else some (denialText d)

def defaultHookRegistry : HookRegistry :=
  ⟨[("hook_state_validate", hookStateValidate), ("hook_output_redact", hookOutputRedact),
    ("builtin:authz_recheck", hookAuthzRecheck)]⟩

def registerAll (R : HookRegistry) (hooks : List (String × Hook)) : Option HookRegistry :=
  hooks.foldlM (fun R h => R.register h.1 h.2) R

theorem register_get {R R' : HookRegistry} {hookId k : String} {hook h : Hook}
    (hreg : R.register hookId hook = some R') (hget : R.get k = .ok h) : R'.get k = .ok h := by
  unfold HookRegistry.register at hreg
  split at hreg
  · cases hreg
  · obtain rfl := Option.some.inj hreg
    simp only [HookRegistry.get, List.find?_append] at hget ⊢
    cases hf : R.hooks.find? fun e => e.1 = k with
    | none => simp [hf] at hget
    | some e => simpa [hf] using hget

theorem registerAll_get {R R' : HookRegistry} {hooks : List (String × Hook)} {k : String}
    {h : Hook} (hreg : registerAll R hooks = some R') (hget : R.get k = .ok h) :
    R'.get k = .ok h := by
  unfold registerAll at hreg
  induction hooks generalizing R with
  | nil =>
    obtain rfl := Option.some.inj hreg
    exact hget
  | cons e hooks ih =>
    rw [List.foldlM_cons] at hreg
    obtain ⟨R₁, h₁, hrest⟩ := Option.bind_eq_some_iff.mp hreg
    exact ih hrest (register_get h₁ hget)

theorem run_eq_none {R : HookRegistry} {hookIds : List String} {ctx : HookContext} :
    R.run hookIds ctx = none ↔
      ∀ hookId ∈ hookIds, ∃ hook, R.get hookId = .ok hook ∧ hook ctx = none := by
  unfold HookRegistry.run
  rw [List.findSome?_eq_none_iff]
  have hone : ∀ hookId, runOne R ctx hookId = none ↔
      ∃ hook, R.get hookId = .ok hook ∧ hook ctx = none := by
    intro hookId
    unfold runOne
    cases R.get hookId with
    | ok hook => simp
    | error e => simp
  exact forall₂_congr fun hookId _ => hone hookId

/-- A step passes the re-check when its principal is allowed the agent at the step's tier. -/
theorem hookAuthzRecheck_eq_none {ctx : HookContext} (h : hookAuthzRecheck ctx = none) :
    ∃ authz agent p, ctx.authz = some authz ∧ ctx.agent = some agent ∧
      principalFromRequest ctx.request = some p ∧
      (authz p (resourceFromAgent agent p ctx.stepIsAction)).effect = .allow := by
  unfold hookAuthzRecheck at h
  cases ha : ctx.authz with
  | none => simp [ha] at h
  | some authz =>
    cases hg : ctx.agent with
    | none => simp [ha, hg] at h
    | some agent =>
      cases hp : principalFromRequest ctx.request with
      | none => simp [ha, hg, hp] at h
      | some p =>
        refine ⟨authz, agent, p, rfl, rfl, rfl, ?_⟩
        by_contra hdeny
        simp [ha, hg, hp, hdeny] at h

end LifecycleHooks
