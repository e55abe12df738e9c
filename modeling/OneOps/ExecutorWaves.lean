import OneOps.ExecutorNodes

/-! The wave loop, and what it makes of hard dependencies. Readiness asks only that every
dependency has a result; success is asked for by the declared bindings alone. -/
namespace ExecutorWaves

open FulfillmentContracts
open ExecutorPlan
open ExecutorNodes

/-- A turn between two waves, with the passes of `run_step` so far. -/
structure Turn where
  state : ExecutorState
  runs : List StepRun
  waves : ℕ

def advance (S : Services) (B : Budgets) (t : Turn) : Turn :=
  match dispatchWave t.state with
  | .aggregate => t
  | .sends xs =>
    ⟨applyRuns t.state (xs.map (runStep S B)), t.runs ++ xs.map (runStep S B), t.waves + 1⟩

def after (S : ℕ → Services) (B : Budgets) (s : ExecutorState) : ℕ → Turn
  | 0 => ⟨s, [], 0⟩
  | n + 1 => advance (S n) B (after S B s n)

def Hard (step : Step) (d : String) : Prop :=
  d ∈ step.dependsOn ∧ dependencyType step d ≠ "soft"

def Succeeded (s : ExecutorState) (d : String) : Prop :=
  ∃ r, resultOf s d = some r ∧ r.status = .success

structure Enforced (s : ExecutorState) (r : StepRun) : Prop where
  invoked : .handler ∈ r.activity → ∀ d, Hard r.send.step d → Succeeded s d
  blocked : ∀ d, Hard r.send.step d → ¬ Succeeded s d →
    r.result.status = .blocked ∧ r.activity = []

/-- A required binding that the upstream results cannot fill: its source has no successful
result and is not declared soft, or the field is not in the source's output. -/
def Unresolved (S : Services) (x : Send) (b : ParameterBinding) : Prop :=
  b.required = true ∧
    match previous x.previousResults b.fromStep with
    | none => dependencyType x.step b.fromStep ≠ "soft"
    | some r =>
      if r.status = .success then boundValue S.getAttr r.output b.fromField = .null
      else dependencyType x.step b.fromStep ≠ "soft"

/-- A step with an unsuccessful hard dependency passes the registry and the policy, and
meets a binding that blocks it. -/
def Guarded (S : Services) (s : ExecutorState) (x : Send) : Prop :=
  (∃ d, Hard x.step d ∧ ¬ Succeeded s d) →
    (∃ agent, S.agents x.step.agentId = some agent ∧ S.policy x.request agent x.step = .allow) ∧
      ∃ b ∈ x.step.parameterBindings, Unresolved S x b

theorem resolveOne_blocked {S : Services} {x : Send} {b : ParameterBinding} :
    (∃ reason, resolveOneBinding S.getAttr b (dependencyType x.step b.fromStep)
      x.previousResults = .blocked reason) ↔ Unresolved S x b := by
  unfold Unresolved resolveOneBinding
  cases hp : previous x.previousResults b.fromStep with
  | none =>
    by_cases hs : dependencyType x.step b.fromStep = "soft"
    · simp [hs]
    · by_cases hr : b.required = true <;> simp [hs, hr]
  | some r =>
    by_cases hok : r.status = .success
    · simp only [hok, ne_eq, not_true_eq_false, if_false, if_true]
      cases hv : boundValue S.getAttr r.output b.fromField with
      | null => by_cases hr : b.required = true <;> simp [hr]
      | _ => simp
    · simp only [hok, ne_eq, not_false_eq_true, if_true, if_false]
      by_cases hs : dependencyType x.step b.fromStep = "soft"
      · simp [hs]
      · by_cases hr : b.required = true <;> simp [hs, hr]

theorem resolveFrom_error {S : Services} {x : Send} {bs : List ParameterBinding} :
    ∀ {bound : JsonObject},
      (∃ reason, resolveFrom S.getAttr x.step x.previousResults bound bs = .error reason) ↔
        ∃ b ∈ bs, Unresolved S x b := by
  induction bs with
  | nil => intro bound; simp [resolveFrom]
  | cons b bs ih =>
    intro bound
    simp only [List.mem_cons, exists_eq_or_imp]
    rw [← @resolveOne_blocked S x b]
    simp only [resolveFrom]
    cases h : resolveOneBinding S.getAttr b (dependencyType x.step b.fromStep)
        x.previousResults with
    | blocked reason => simp
    | bind p v => simp [ih]
    | skip => simp [ih]

theorem resolveBindings_error {S : Services} {x : Send} :
    (∃ reason, resolveBindings S.getAttr x.step x.previousResults = .error reason) ↔
      ∃ b ∈ x.step.parameterBindings, Unresolved S x b :=
  resolveFrom_error

theorem runStep_blocked {S : Services} {B : Budgets} {x : Send} :
    ((runStep S B x).result.status = .blocked ∧ (runStep S B x).activity = []) ↔
      (∃ agent, S.agents x.step.agentId = some agent ∧ S.policy x.request agent x.step = .allow) ∧
        ∃ b ∈ x.step.parameterBindings, Unresolved S x b := by
  rw [← resolveBindings_error]
  cases ha : S.agents x.step.agentId with
  | none => simp [runStep, ha, failedResult, makeResult]
  | some agent =>
    cases hp : S.policy x.request agent x.step with
    | deny reason => simp [runStep, ha, evaluateStepPolicy, hp, makeResult]
    | canned response rule => simp [runStep, ha, evaluateStepPolicy, hp, makeResult]
    | allow =>
      cases hb : resolveBindings S.getAttr x.step x.previousResults with
      | error reason => simp [runStep, ha, evaluateStepPolicy, hp, hb, makeResult]
      | ok bound =>
        simp only [runStep, ha, evaluateStepPolicy, hp, hb]
        cases S.hooks .before agent.beforeInvocation agent x.step x.request none with
        | some e => simp
        | none => simp only; split <;> simp

theorem runStep_send (S : Services) (B : Budgets) (x : Send) : (runStep S B x).send = x := by
  unfold runStep
  split
  · rfl
  · split
    · rfl
    · split
      · rfl
      · split
        · rfl
        · split <;> rfl

theorem enforced_iff_guarded {S : Services} {B : Budgets} {s : ExecutorState} {x : Send} :
    Enforced s (runStep S B x) ↔ Guarded S s x := by
  constructor
  · rintro h ⟨d, hd, hf⟩
    exact runStep_blocked.mp (h.blocked d (by rwa [runStep_send]) hf)
  · intro h
    by_cases hd : ∃ d, Hard x.step d ∧ ¬ Succeeded s d
    · obtain ⟨hb, hn⟩ := runStep_blocked.mpr (h hd)
      refine ⟨fun hm => ?_, fun _ _ _ => ⟨hb, hn⟩⟩
      rw [hn] at hm
      cases hm
    · have all : ∀ d, Hard (runStep S B x).send.step d → Succeeded s d := by
        intro d hh
        rw [runStep_send] at hh
        by_contra hf
        exact hd ⟨d, hh, hf⟩
      exact ⟨fun _ => all, fun d hh hf => absurd (all d hh) hf⟩

/-- In every run of the wave loop, hard dependencies are enforced exactly when every
dispatched step with an unsuccessful one is stopped by a binding of its own. -/
theorem hard_dependencies_enforced_iff (S : ℕ → Services) (B : Budgets) (s : ExecutorState) :
    (∀ n xs, dispatchWave (after S B s n).state = .sends xs →
      ∀ x ∈ xs, Enforced (after S B s n).state (runStep (S n) B x)) ↔
    ∀ n xs, dispatchWave (after S B s n).state = .sends xs →
      ∀ x ∈ xs, Guarded (S n) (after S B s n).state x := by
  constructor
  · intro h n xs hx x hm
    exact enforced_iff_guarded.mp (h n xs hx x hm)
  · intro h n xs hx x hm
    exact enforced_iff_guarded.mpr (h n xs hx x hm)

def plainAgent : Agent := ⟨.read, "internal", false, [], []⟩

def failingServices : Services where
  agents _ := some plainAgent
  tools _ := none
  policy _ _ _ := .allow
  hooks _ _ _ _ _ _ := none
  approved _ _ := true
  run step _ _ _ :=
    if step.agentId = "uc_a" then .replied .failed .null (some "boom") "" none []
    else .replied .success .null none "" none []
  getAttr _ _ := .null

def plainStep (stepId agentId : String) (dependsOn : List String) : Step :=
  ⟨stepId, agentId, [], dependsOn, none, "", none, [], [], 0, none, none⟩

def sampleRequest : Request := ⟨"r1", "t", "s", "ann", "agent", "hello", "", "", []⟩

def startOf (plan : List Step) : ExecutorState := ⟨sampleRequest, plan, [], []⟩

def defaultBudgets : Budgets := ⟨3, 8⟩

def orderedPair : ExecutorState :=
  startOf [plainStep "step_1" "uc_a" [], plainStep "step_2" "uc_b" ["step_1"]]

/-- `step_2` declares no binding: its handler runs although `step_1` failed. -/
theorem handler_runs_after_failed_dependency :
    ∃ x, dispatchWave (after (fun _ => failingServices) defaultBudgets orderedPair 1).state =
        .sends [x] ∧ Hard x.step "step_1" ∧
      ¬ Succeeded (after (fun _ => failingServices) defaultBudgets orderedPair 1).state "step_1" ∧
      .handler ∈ (runStep failingServices defaultBudgets x).activity ∧
      ¬ Enforced (after (fun _ => failingServices) defaultBudgets orderedPair 1).state
        (runStep failingServices defaultBudgets x) := by
  have failed : ¬ Succeeded (after (fun _ => failingServices) defaultBudgets orderedPair 1).state
      "step_1" := by
    rintro ⟨r, hr, hs⟩
    cases hr
    cases hs
  refine ⟨_, rfl, ⟨by decide, by decide⟩, failed, by decide, ?_⟩
  intro h
  exact failed (h.invoked (by decide) "step_1" ⟨by decide, by decide⟩)

end ExecutorWaves
