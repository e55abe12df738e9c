import OneOps.DepthFirst
import OneOps.ExecutorPlan
import OneOps.PythonText
import Mathlib.Data.List.Sort
import Mathlib.Data.List.Forall2

/-! The router's plan: sub-query routes become a dependency-ordered list of steps, numbered
from `step_1` in every plan, and the executor's channel gets it stamped with the turn. A
lookup that raises makes the plan `none`. -/
namespace RouterPlan

open FulfillmentContracts
open ExecutorPlan
open DepthFirst

structure Exclusion where
  agentId : String
  priority : ℤ

structure AgentRecord where
  id : String
  dependsOn : List String
  excludes : List Exclusion

/-- The agents that a registry serves. -/
structure Registry where
  agents : List AgentRecord

/-- A registry as `check_integrity` lets it through: its `depends_on` graph has no cycle. -/
structure CheckedRegistry extends Registry where
  acyclic : ∃ rank : String → ℕ, ∀ a ∈ agents, ∀ d ∈ a.dependsOn, rank d < rank a.id

instance : Coe CheckedRegistry Registry := ⟨CheckedRegistry.toRegistry⟩

/-- `none` where `registry.agents.get` raises. -/
def Registry.get (R : Registry) (agentId : String) : Option AgentRecord :=
  R.agents.find? fun a => a.id = agentId

/-- Ties lose on the other side, so two agents may drop each other. -/
def applyExclusions (R : Registry) (agentIds : List String) : Option (List String) := do
  let dropped ← agentIds.foldlM (fun dropped agentId => do
    let agent ← R.get agentId
    agent.excludes.foldlM (fun dropped exc =>
      if exc.agentId ∈ agentIds then do
        let other ← R.get exc.agentId
        let otherPri :=
          ((other.excludes.find? fun e => e.agentId = agentId).map Exclusion.priority).getD (-1)
        some ((if otherPri ≤ exc.priority then exc.agentId else agentId) :: dropped)
      else some dropped) dropped) ([] : List String)
  some (agentIds.filter fun a => a ∉ dropped)

def agentDeps (R : Registry) (agentId : String) : Option (List String) :=
  (R.get agentId).map AgentRecord.dependsOn

def expandWithDeps (R : Registry) (agentIds : List String) : Option (List String) :=
  postOrder ⟨agentDeps R, false, true⟩ R.agents.length agentIds

structure SubQueryRoute where
  subQueryId : String
  agentIds : List String
  parametersByAgent : List (String × List (String × String))
  dependsOnSubqueries : List String
  bindings : List (String × String × String)

def byId (routes : List SubQueryRoute) (sqId : String) : Option SubQueryRoute :=
  routes.reverse.find? fun r => r.subQueryId = sqId

/-- Routes after the routes they depend on; a cycle raises, an unknown id is passed over. -/
def topoSubqueries (routes : List SubQueryRoute) : Option (List SubQueryRoute) :=
  (postOrder ⟨fun sqId => (byId routes sqId).map SubQueryRoute.dependsOnSubqueries, true, false⟩
    routes.length (routes.map SubQueryRoute.subQueryId)).map fun ids => ids.filterMap (byId routes)

structure PlanStep where
  stepId : String
  agentId : String
  parameters : List (String × String)
  dependsOn : List String
  parameterBindings : List ParameterBinding
  dependencyTypes : List (String × String)

def stepName (n : ℕ) : String := "step_" ++ toString n

structure Draft where
  steps : List PlanStep
  stepsBySubquery : List (String × List String)
  counter : ℕ

def stepsOf (d : Draft) (sqId : String) : List String :=
  ((d.stepsBySubquery.find? fun e => e.1 = sqId).map Prod.snd).getD []

def resolveRouteBindings (d : Draft) (route : SubQueryRoute) : List ParameterBinding :=
  route.bindings.filterMap fun b =>
    (stepsOf d b.1).getLast?.map fun fromStep => ⟨fromStep, b.2.1, b.2.2, false⟩

def localStepId (counter : ℕ) (needed : List String) (agentId : String) : Option String :=
  (needed.idxOf? agentId).map fun i => stepName (counter + i + 1)

def buildStep (R : Registry) (route : SubQueryRoute) (counter : ℕ) (needed upstream : List String)
    (bindings : List ParameterBinding) (agentId : String) : Option PlanStep := do
  let agent ← R.get agentId
  let own ← agent.dependsOn.mapM (localStepId counter needed)
  let stepId ← localStepId counter needed agentId
  let isPrimary : Bool := needed.getLast? = some agentId
  let extra := bindings.map ParameterBinding.fromStep
  let params :=
    ((route.parametersByAgent.find? fun e => e.1 = agentId).map Prod.snd).getD []
  some
    { stepId := stepId
      agentId := agentId
      parameters := params.insertionSort fun a b => a.1 ≤ b.1
      dependsOn := own ++ upstream ++
        if isPrimary then extra.filter fun s => s ∉ own ++ upstream else []
      parameterBindings := if isPrimary then bindings else []
      dependencyTypes := if isPrimary then extra.map fun s => (s, "soft") else [] }

def buildRouteSteps (R : Registry) (route : SubQueryRoute) (counter : ℕ)
    (needed upstream : List String) (bindings : List ParameterBinding) : Option (List PlanStep) :=
  needed.mapM (buildStep R route counter needed upstream bindings)

def planRoute (R : Registry) (d : Draft) (route : SubQueryRoute) : Option Draft := do
  let surviving ← applyExclusions R route.agentIds
  let needed ← expandWithDeps R surviving
  let upstream := route.dependsOnSubqueries.flatMap (stepsOf d)
  let steps ← buildRouteSteps R route d.counter needed upstream (resolveRouteBindings d route)
  some
    { steps := d.steps ++ steps
      stepsBySubquery := d.stepsBySubquery ++ [(route.subQueryId, steps.map PlanStep.stepId)]
      counter := d.counter + needed.length }

def assemblePlan (R : Registry) (routes : List SubQueryRoute) : Option (List PlanStep) :=
  let routed := routes.filter fun r => r.agentIds ≠ []
  if routed = [] then none
  else do
    let ordered ← topoSubqueries routed
    let d ← ordered.foldlM (planRoute R) ⟨[], [], 0⟩
    some d.steps

def serialisePlan (steps : List PlanStep) (turnId : String) : List Step :=
  steps.map fun s =>
    { stepId := s.stepId
      agentId := s.agentId
      parameters := s.parameters.map fun p => (p.1, Json.str p.2)
      dependsOn := s.dependsOn
      turnId := if turnId = "" then none else some turnId
      toolId := ""
      intent := none
      parameterBindings := s.parameterBindings
      dependencyTypes := s.dependencyTypes
      genDepth := 0
      genMaxDepth := none
      genMaxWidth := none }

theorem Registry.get_mem {R : Registry} {agentId : String} {a : AgentRecord}
    (h : R.get agentId = some a) : a ∈ R.agents ∧ a.id = agentId :=
  ⟨List.mem_of_find?_eq_some h, by simpa using List.find?_some h⟩

/-- The bound on the recursion is never what stops it. -/
theorem expandWithDeps_fuel (R : Registry) (agentIds : List String) (k : ℕ) :
    postOrder ⟨agentDeps R, false, true⟩ (R.agents.length + k) agentIds =
      expandWithDeps R agentIds := by
  have h := postOrder_fuel (P := ⟨agentDeps R, false, true⟩) (U := R.agents.map AgentRecord.id)
    ?_ agentIds k
  · simpa only [List.length_map, expandWithDeps] using h
  · intro agentId hne
    cases hg : R.get agentId with
    | none => exact absurd (by simp [agentDeps, hg]) hne
    | some a =>
      obtain ⟨hm, rfl⟩ := Registry.get_mem hg
      exact List.mem_map_of_mem hm

theorem topoSubqueries_fuel (routes : List SubQueryRoute) (k : ℕ) :
    (postOrder ⟨fun sqId => (byId routes sqId).map SubQueryRoute.dependsOnSubqueries, true, false⟩
      (routes.length + k) (routes.map SubQueryRoute.subQueryId)).map
        (fun ids => ids.filterMap (byId routes)) = topoSubqueries routes := by
  have h := postOrder_fuel
    (P := ⟨fun sqId => (byId routes sqId).map SubQueryRoute.dependsOnSubqueries, true, false⟩)
    (U := routes.map SubQueryRoute.subQueryId) ?_ (routes.map SubQueryRoute.subQueryId) k
  · rw [List.length_map] at h
    rw [h, topoSubqueries]
  · intro sqId hne
    cases hr : byId routes sqId with
    | none => exact absurd (by simp [hr]) hne
    | some r =>
      have hid : r.subQueryId = sqId := by simpa using List.find?_some hr
      rw [← hid]
      exact List.mem_map_of_mem (List.mem_reverse.mp (List.mem_of_find?_eq_some hr))

def Numbered (steps : List PlanStep) : Prop :=
  ∀ i, ∀ h : i < steps.length, steps[i].stepId = stepName (i + 1) ∧
    ∀ d ∈ steps[i].dependsOn, ∃ j < i, d = stepName (j + 1)

theorem mapM_forall₂ {α β : Type*} {f : α → Option β} {xs : List α} :
    ∀ {ys : List β}, xs.mapM f = some ys → List.Forall₂ (fun x y => f x = some y) xs ys := by
  induction xs with
  | nil =>
    intro ys h
    cases h
    exact .nil
  | cons x xs ih =>
    intro ys h
    rw [List.mapM_cons] at h
    obtain ⟨y, hy, h⟩ := Option.bind_eq_some_iff.mp h
    obtain ⟨rest, hrest, h⟩ := Option.bind_eq_some_iff.mp h
    cases h
    exact .cons hy (ih hrest)

theorem expandWithDeps_closed {R : CheckedRegistry} {agentIds needed : List String}
    (h : expandWithDeps R agentIds = some needed) :
    Closed (agentDeps R) needed ∧ needed.Nodup ∧ ∀ x ∈ agentIds, x ∈ needed := by
  obtain ⟨rank, hrank⟩ := R.acyclic
  have hr : ∀ a ds, agentDeps R a = some ds → ∀ d ∈ ds, rank d < rank a := by
    intro a ds ha d hd
    obtain ⟨r, hget, rfl⟩ := Option.map_eq_some_iff.mp ha
    obtain ⟨hm, rfl⟩ := Registry.get_mem hget
    exact hrank r hm d hd
  have hc := postOrder_closed (P := ⟨agentDeps R, false, true⟩) rfl
    (fun a ds ha d hd => .inr (hr a ds ha d hd)) h
  exact ⟨hc.1, hc.2.1, hc.2.2.2⟩

theorem localStepId_eq {counter : ℕ} {needed : List String} {agentId s : String}
    (h : localStepId counter needed agentId = some s) :
    ∃ i, ∃ hi : i < needed.length, needed[i] = agentId ∧ s = stepName (counter + i + 1) := by
  obtain ⟨i, hi, rfl⟩ := Option.map_eq_some_iff.mp h
  obtain ⟨hlt, he, _⟩ := List.idxOf?_eq_some_iff.mp hi
  exact ⟨i, hlt, he, rfl⟩

/-- The step of the `i`-th agent of a route: its own dependencies are earlier agents of the
route, the others are steps of earlier routes. -/
theorem buildStep_spec {R : Registry} {route : SubQueryRoute} {counter : ℕ}
    {needed upstream : List String} {bindings : List ParameterBinding} {i : ℕ} {p : PlanStep}
    (hc : Closed (agentDeps R) needed) (hn : needed.Nodup)
    (hup : ∀ d ∈ upstream, ∃ j < counter, d = stepName (j + 1))
    (hb : ∀ b ∈ bindings, ∃ j < counter, b.fromStep = stepName (j + 1)) (hi : i < needed.length)
    (h : buildStep R route counter needed upstream bindings needed[i] = some p) :
    p.stepId = stepName (counter + i + 1) ∧
      ∀ d ∈ p.dependsOn, ∃ j < counter + i, d = stepName (j + 1) := by
  obtain ⟨agent, hget, h⟩ := Option.bind_eq_some_iff.mp h
  obtain ⟨own, hown, h⟩ := Option.bind_eq_some_iff.mp h
  obtain ⟨stepId, hid, h⟩ := Option.bind_eq_some_iff.mp h
  obtain ⟨k, hk, hki, rfl⟩ := localStepId_eq hid
  have hki : k = i := (List.Nodup.getElem_inj_iff hn).mp hki
  subst hki
  cases h
  refine ⟨rfl, ?_⟩
  have earlier : ∀ d, (∃ j < counter, d = stepName (j + 1)) →
      ∃ j < counter + k, d = stepName (j + 1) := by
    rintro d ⟨j, hj, rfl⟩
    exact ⟨j, by omega, rfl⟩
  intro d hd
  rcases List.mem_append.mp hd with hd | hd
  · rcases List.mem_append.mp hd with hd | hd
    · obtain ⟨m, hm, rfl⟩ := List.getElem_of_mem hd
      have hf := mapM_forall₂ hown
      have hlen := hf.length_eq
      obtain ⟨j, hj, hdep, he⟩ := localStepId_eq (hf.get (by omega) hm)
      -- the post-order put this dependency before the agent
      have hbefore : needed[j] ∈ needed.take k := by
        apply hc (needed.take k) needed[k] (needed.drop (k + 1))
          (by rw [← List.drop_eq_getElem_cons hk, List.take_append_drop]) agent.dependsOn
        · rw [agentDeps, hget]
          rfl
        · rw [hdep]
          exact List.getElem_mem _
      obtain ⟨m', hm', hme⟩ := List.getElem_of_mem hbefore
      rw [List.getElem_take] at hme
      have hjm : m' = j := (List.Nodup.getElem_inj_iff hn).mp hme
      rw [List.length_take] at hm'
      exact ⟨counter + j, by omega, he⟩
    · exact earlier d (hup d hd)
  · by_cases hp : needed.getLast? = some needed[k]
    · simp only [hp, decide_true, if_true] at hd
      obtain ⟨b, hbm, rfl⟩ := List.mem_map.mp (List.mem_filter.mp hd).1
      exact earlier _ (hb b hbm)
    · simp [hp] at hd

/-- What `assemble_plan` keeps true of its accumulators. -/
structure Draft.Good (d : Draft) : Prop where
  numbered : Numbered d.steps
  counter : d.counter = d.steps.length
  upstream : ∀ e ∈ d.stepsBySubquery, ∀ s ∈ e.2, ∃ j < d.counter, s = stepName (j + 1)

theorem Draft.Good.stepsOf {d : Draft} (h : d.Good) {sqId s : String} (hs : s ∈ stepsOf d sqId) :
    ∃ j < d.counter, s = stepName (j + 1) := by
  unfold RouterPlan.stepsOf at hs
  cases hf : d.stepsBySubquery.find? fun e => e.1 = sqId with
  | none => simp [hf] at hs
  | some e =>
    rw [hf] at hs
    exact h.upstream e (List.mem_of_find?_eq_some hf) s hs

theorem Draft.Good.bindings {d : Draft} (h : d.Good) {route : SubQueryRoute}
    {b : ParameterBinding} (hb : b ∈ resolveRouteBindings d route) :
    ∃ j < d.counter, b.fromStep = stepName (j + 1) := by
  obtain ⟨_, _, hl⟩ := List.mem_filterMap.mp hb
  obtain ⟨s, hs, rfl⟩ := Option.map_eq_some_iff.mp hl
  exact h.stepsOf (List.mem_of_getLast? hs)

theorem Draft.Good.planRoute {R : CheckedRegistry} {d d' : Draft}
    {route : SubQueryRoute} (h : d.Good)
    (hp : planRoute R d route = some d') : d'.Good := by
  obtain ⟨surviving, _, hp⟩ := Option.bind_eq_some_iff.mp hp
  obtain ⟨needed, hneeded, hp⟩ := Option.bind_eq_some_iff.mp hp
  obtain ⟨steps, hsteps, hp⟩ := Option.bind_eq_some_iff.mp hp
  cases hp
  obtain ⟨hc, hn, _⟩ := expandWithDeps_closed hneeded
  have hf := mapM_forall₂ hsteps
  have hlen := hf.length_eq
  have hcount := h.counter
  have hnew : ∀ i, ∀ hi : i < steps.length, steps[i].stepId = stepName (d.counter + i + 1) ∧
      ∀ dep ∈ steps[i].dependsOn, ∃ j < d.counter + i, dep = stepName (j + 1) := by
    intro i hi
    apply buildStep_spec hc hn _ (fun b hb => h.bindings hb) (by omega) (hf.get (by omega) hi)
    intro dep hdep
    obtain ⟨sqId, _, hs⟩ := List.mem_flatMap.mp hdep
    exact h.stepsOf hs
  refine ⟨?_, ?_, ?_⟩
  · intro i hi
    by_cases hold : i < d.steps.length
    · simp only [List.getElem_append_left hold]
      exact h.numbered i hold
    · rw [List.length_append] at hi
      have hstep := hnew (i - d.steps.length) (by omega)
      have hi' : d.counter + (i - d.steps.length) = i := by omega
      rw [hi'] at hstep
      simp only [List.getElem_append_right (Nat.le_of_not_lt hold)]
      exact hstep
  · simp only [List.length_append]
    omega
  · intro e he s hs
    rcases List.mem_append.mp he with he | he
    · obtain ⟨j, hj, rfl⟩ := h.upstream e he s hs
      exact ⟨j, Nat.lt_add_right _ hj, rfl⟩
    · rw [List.mem_singleton.mp he] at hs
      obtain ⟨p, hpm, rfl⟩ := List.mem_map.mp hs
      obtain ⟨i, hi, rfl⟩ := List.getElem_of_mem hpm
      exact ⟨d.counter + i, by simp only; omega, (hnew i hi).1⟩

/-- Whatever the routes are, an assembled plan is numbered from `step_1` on and each step
waits for earlier steps only. -/
theorem assemblePlan_numbered {R : CheckedRegistry} {routes : List SubQueryRoute}
    {steps : List PlanStep}
    (h : assemblePlan R routes = some steps) : Numbered steps := by
  unfold assemblePlan at h
  by_cases hr : (routes.filter fun r => r.agentIds ≠ []) = []
  · rw [if_pos hr] at h
    cases h
  rw [if_neg hr] at h
  obtain ⟨ordered, _, h⟩ := Option.bind_eq_some_iff.mp h
  obtain ⟨d, hd, h⟩ := Option.bind_eq_some_iff.mp h
  cases h
  have hgood : d.Good := by
    apply foldlM_rule (fun w x w' _ hw hx => Draft.Good.planRoute hw hx) _ hd
    refine ⟨?_, rfl, by simp⟩
    intro i hi
    exact absurd hi (Nat.not_lt_zero i)
  exact hgood.numbered

theorem stepName_toList (n : ℕ) :
    (stepName n).toList = ['s', 't', 'e', 'p', '_'] ++ Nat.toDigits 10 n := by
  simp [stepName, Nat.toString_eq_repr, Nat.repr]

theorem stepName_inj {m n : ℕ} (h : stepName m = stepName n) : m = n := by
  have ht := congrArg String.toList h
  rw [stepName_toList, stepName_toList] at ht
  exact PythonText.toDigits_inj (List.append_cancel_left ht)

theorem stepName_nodot (n : ℕ) : '.' ∉ (stepName n).toList := by
  rw [stepName_toList, List.mem_append, not_or]
  refine ⟨by decide, ?_⟩
  intro hm
  have := Nat.isDigit_of_mem_toDigits (by decide) (by decide) hm
  exact absurd this (by decide)

section Serialised

variable {R : Registry} {routes : List SubQueryRoute} {steps : List PlanStep} {turnId : String}

theorem serialisePlan_step (hn : Numbered steps) {i : ℕ}
    (hi : i < (serialisePlan steps turnId).length) :
    (serialisePlan steps turnId)[i].stepId = stepName (i + 1) ∧
      ∀ d ∈ (serialisePlan steps turnId)[i].dependsOn, ∃ j < i, d = stepName (j + 1) := by
  simp only [serialisePlan, List.getElem_map]
  exact hn i (by simpa [serialisePlan] using hi)

theorem serialisePlan_nodup (hn : Numbered steps) :
    ((serialisePlan steps turnId).map Step.stepId).Nodup := by
  rw [List.nodup_iff_injective_get]
  intro i j hij
  simp only [List.get_eq_getElem, List.getElem_map] at hij
  rw [(serialisePlan_step hn (by simpa using i.2)).1,
    (serialisePlan_step hn (by simpa using j.2)).1]
    at hij
  have := stepName_inj hij
  exact Fin.ext (by omega)

theorem serialisePlan_turnId (ht : turnId ≠ "") {p : Step} (hp : p ∈ serialisePlan steps turnId) :
    p.turnId = some turnId := by
  obtain ⟨s, _, rfl⟩ := List.mem_map.mp hp
  exact if_neg ht

end Serialised

end RouterPlan
