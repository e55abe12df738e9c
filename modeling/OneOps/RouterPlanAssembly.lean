import OneOps.RegistryService
import Mathlib.Data.List.Perm.Basic

/-! The plan of a list of routes over a registry that passed its check: one block of steps for
each route, upstream routes first. A block has the agents that survive their exclusions
with all their prerequisites. The only error is a cycle among the routes. -/
namespace RouterPlanAssembly

open RouterPlan
open ExecutorPlan
open DepthFirst
open ListSplit

def otherPriority (other : AgentRecord) (agentId : String) : ℤ :=
  ((other.excludes.find? fun e => e.agentId = agentId).map Exclusion.priority).getD (-1)

/-- `agentId` excludes `exc.agentId`, and this is the one of the two that is dropped. -/
def loser (agentId : String) (exc : Exclusion) (other : AgentRecord) : String :=
  if otherPriority other agentId ≤ exc.priority then exc.agentId else agentId

def dropLoser (R : Registry) (agentIds : List String) (agentId : String) (dropped : List String)
    (exc : Exclusion) : Option (List String) :=
  if exc.agentId ∈ agentIds then do
    let other ← R.get exc.agentId
    some (loser agentId exc other :: dropped)
  else some dropped

def dropLosers (R : Registry) (agentIds dropped : List String) (agentId : String) :
    Option (List String) := do
  let agent ← R.get agentId
  agent.excludes.foldlM (dropLoser R agentIds agentId) dropped

theorem applyExclusions_eq (R : Registry) (agentIds : List String) :
    applyExclusions R agentIds = (agentIds.foldlM (dropLosers R agentIds) []).bind
      fun dropped => some (agentIds.filter fun a => a ∉ dropped) := rfl

def Dropped (R : Registry) (agentIds : List String) (x : String) : Prop :=
  ∃ agentId ∈ agentIds, ∃ agent, R.get agentId = some agent ∧ ∃ exc ∈ agent.excludes,
    exc.agentId ∈ agentIds ∧ ∃ other, R.get exc.agentId = some other ∧ x = loser agentId exc other

/-- A loop that only adds to a list collects what each round adds. -/
theorem foldlM_collect {α β : Type*} {f : List β → α → Option (List β)} {G : α → β → Prop}
    {xs : List α}
    (hf : ∀ x ∈ xs, ∃ l, (∀ d, f d x = some (l ++ d)) ∧ ∀ y, y ∈ l ↔ G x y) :
    ∃ l, (∀ d, xs.foldlM f d = some (l ++ d)) ∧ ∀ y, y ∈ l ↔ ∃ x ∈ xs, G x y := by
  induction xs with
  | nil => exact ⟨[], fun _ => rfl, by simp⟩
  | cons x xs ih =>
    obtain ⟨l, hl, hly⟩ := hf x List.mem_cons_self
    obtain ⟨m, hm, hmy⟩ := ih fun z hz => hf z (List.mem_cons_of_mem _ hz)
    refine ⟨m ++ l, ?_, ?_⟩
    · intro d
      rw [List.foldlM_cons, hl]
      simp only [Option.bind_eq_bind, Option.bind_some, hm, List.append_assoc]
    · intro y
      rw [List.mem_append, hly, hmy, List.exists_mem_cons_iff, or_comm]

def Resolves (R : Registry) : Prop :=
  ∀ agentId agent, R.get agentId = some agent →
    (∀ d ∈ agent.dependsOn, R.get d ≠ none) ∧ ∀ exc ∈ agent.excludes, R.get exc.agentId ≠ none

section Exclusions

variable {R : Registry} {agentIds : List String}

theorem dropLosers_spec (hR : Resolves R) {agentId : String} (ha : R.get agentId ≠ none) :
    ∃ l, (∀ d, dropLosers R agentIds d agentId = some (l ++ d)) ∧
      ∀ y, y ∈ l ↔ ∃ agent, R.get agentId = some agent ∧ ∃ exc ∈ agent.excludes,
        exc.agentId ∈ agentIds ∧ ∃ other, R.get exc.agentId = some other ∧
          y = loser agentId exc other := by
  obtain ⟨agent, hget⟩ := Option.ne_none_iff_exists'.mp ha
  have hround : ∀ exc ∈ agent.excludes, ∃ l,
      (∀ d, dropLoser R agentIds agentId d exc = some (l ++ d)) ∧
        ∀ y, y ∈ l ↔ exc.agentId ∈ agentIds ∧ ∃ other, R.get exc.agentId = some other ∧
          y = loser agentId exc other := by
    intro exc hexc
    by_cases hsel : exc.agentId ∈ agentIds
    · obtain ⟨other, hother⟩ := Option.ne_none_iff_exists'.mp ((hR _ _ hget).2 exc hexc)
      refine ⟨[loser agentId exc other], ?_, ?_⟩
      · intro d
        simp [dropLoser, hsel, hother]
      · intro y
        simp [hsel, hother]
    · exact ⟨[], by simp [dropLoser, hsel], by simp [hsel]⟩
  obtain ⟨l, hl, hly⟩ := foldlM_collect hround
  refine ⟨l, ?_, ?_⟩
  · intro d
    simpa only [dropLosers, hget, Option.bind_eq_bind, Option.bind_some] using hl d
  · intro y
    simp [hly, hget]

/-- What is kept are the selected agents that lose no exclusion. -/
theorem applyExclusions_spec (hR : Resolves R) (hids : ∀ a ∈ agentIds, R.get a ≠ none) :
    ∃ kept, applyExclusions R agentIds = some kept ∧ kept.Sublist agentIds ∧
      ∀ x, x ∈ kept ↔ x ∈ agentIds ∧ ¬ Dropped R agentIds x := by
  obtain ⟨l, hl, hly⟩ := foldlM_collect fun a (ha : a ∈ agentIds) =>
    @dropLosers_spec R agentIds hR a (hids a ha)
  refine ⟨agentIds.filter fun a => a ∉ l, ?_, List.filter_sublist, ?_⟩
  · rw [applyExclusions_eq, hl [], List.append_nil]
    rfl
  · intro x
    simp [hly, Dropped]

end Exclusions

def Requires (R : Registry) (a d : String) : Prop :=
  ∃ agent, R.get a = some agent ∧ d ∈ agent.dependsOn

section Prerequisites

variable {R : Registry} {agentIds needed : List String}

theorem dep_iff {a d : String} : Dep (agentDeps R) a d ↔ Requires R a d := by
  constructor
  · rintro ⟨ds, hds, hd⟩
    obtain ⟨agent, hget, rfl⟩ := Option.map_eq_some_iff.mp hds
    exact ⟨agent, hget, hd⟩
  · rintro ⟨agent, hget, hd⟩
    exact ⟨agent.dependsOn, by rw [agentDeps, hget]; rfl, hd⟩

theorem dep_eq : Dep (agentDeps R) = Requires R := by
  funext a d
  exact propext dep_iff

theorem agentDeps_eq_none {a : String} : agentDeps R a = none ↔ R.get a = none :=
  Option.map_eq_none_iff

theorem get_of_reach (hR : Resolves R) {a x : String} (ha : R.get a ≠ none)
    (h : Relation.ReflTransGen (Requires R) a x) : R.get x ≠ none := by
  rcases Relation.ReflTransGen.cases_tail h with rfl | ⟨b, _, agent, hget, hx⟩
  · exact ha
  · exact (hR b agent hget).1 x hx

/-- The agents that a route needs: those selected and all they require, each once and after
what it requires. -/
structure Needed (R : Registry) (agentIds needed : List String) : Prop where
  closed : Closed (agentDeps R) needed
  nodup : needed.Nodup
  mem : ∀ x, x ∈ needed ↔ ∃ a ∈ agentIds, Relation.ReflTransGen (Requires R) a x

theorem expandWithDeps_spec {R : CheckedRegistry} (hR : Resolves R)
    (hids : ∀ a ∈ agentIds, R.get a ≠ none) :
    ∃ needed, expandWithDeps R agentIds = some needed ∧ Needed R agentIds needed := by
  have hU : ∀ a, agentDeps R a ≠ none → a ∈ R.agents.map AgentRecord.id := by
    intro a ha
    obtain ⟨agent, hget⟩ := Option.ne_none_iff_exists'.mp (mt agentDeps_eq_none.mpr ha)
    obtain ⟨hm, rfl⟩ := Registry.get_mem hget
    exact List.mem_map_of_mem hm
  cases he : expandWithDeps R agentIds with
  | none =>
    rw [expandWithDeps, ← @List.length_map _ _ R.agents AgentRecord.id] at he
    obtain ⟨a, ha, x, hx, hwhy⟩ :=
      postOrder_none (P := ⟨agentDeps R, false, true⟩) (U := R.agents.map AgentRecord.id) hU he
    rcases hwhy with ⟨hc, _⟩ | ⟨_, hmiss⟩
    · cases hc
    · rw [dep_eq] at hx
      exact absurd (agentDeps_eq_none.mp hmiss) (get_of_reach hR (hids a ha) hx)
  | some needed =>
    obtain ⟨hc, hn, hroots⟩ := expandWithDeps_closed he
    refine ⟨needed, rfl, hc, hn, ?_⟩
    intro x
    rw [← dep_eq]
    constructor
    · exact postOrder_reach he x
    · rintro ⟨a, ha, hx⟩
      exact hc.mem_of_reach hx (hroots a ha)

end Prerequisites

def dependencyType (p : PlanStep) (dep : String) : String :=
  ((p.dependencyTypes.find? fun pair => pair.1 = dep).map Prod.snd).getD "hard"

theorem mapM_some {α β : Type*} {f : α → Option β} {xs : List α} (h : ∀ x ∈ xs, f x ≠ none) :
    ∃ ys, xs.mapM f = some ys := by
  induction xs with
  | nil => exact ⟨[], rfl⟩
  | cons x xs ih =>
    obtain ⟨y, hy⟩ := Option.ne_none_iff_exists'.mp (h x List.mem_cons_self)
    obtain ⟨ys, hys⟩ := ih fun z hz => h z (List.mem_cons_of_mem _ hz)
    exact ⟨y :: ys, by simp [List.mapM_cons, hy, hys]⟩

section Steps

variable {R : Registry} {route : SubQueryRoute} {counter : ℕ} {needed upstream : List String}
  {bindings : List ParameterBinding}

theorem localStepId_ne_none {agentId : String} (h : agentId ∈ needed) :
    localStepId counter needed agentId ≠ none := by
  unfold localStepId
  rw [ne_eq, Option.map_eq_none_iff, List.idxOf?_eq_none_iff]
  exact not_not.mpr h

structure StepShape (R : Registry) (counter : ℕ) (needed upstream : List String)
    (bindings : List ParameterBinding) (agentId : String) (p : PlanStep) : Prop where
  agent : p.agentId = agentId
  step : localStepId counter needed agentId = some p.stepId
  own : ∀ d, Requires R agentId d → ∃ s, localStepId counter needed d = some s ∧ s ∈ p.dependsOn
  waits : ∀ s ∈ upstream, s ∈ p.dependsOn
  last : needed.getLast? = some agentId → p.parameterBindings = bindings ∧
    ∀ b ∈ bindings, b.fromStep ∈ p.dependsOn ∧ dependencyType p b.fromStep = "soft"

theorem dependencyType_soft {p : PlanStep} {steps : List String}
    (hp : p.dependencyTypes = steps.map fun s => (s, "soft")) {s : String} (hs : s ∈ steps) :
    dependencyType p s = "soft" := by
  unfold dependencyType
  rw [hp]
  cases hf : (steps.map fun s => (s, "soft")).find? fun pair => pair.1 = s with
  | none =>
    have := List.find?_eq_none.mp hf (s, "soft") (List.mem_map_of_mem hs)
    simp at this
  | some pair =>
    obtain ⟨t, _, rfl⟩ := List.mem_map.mp (List.mem_of_find?_eq_some hf)
    rfl

theorem buildStep_shape {agentId : String} {p : PlanStep}
    (h : buildStep R route counter needed upstream bindings agentId = some p) :
    StepShape R counter needed upstream bindings agentId p := by
  obtain ⟨agent, hget, h⟩ := Option.bind_eq_some_iff.mp h
  obtain ⟨own, hown, h⟩ := Option.bind_eq_some_iff.mp h
  obtain ⟨stepId, hid, h⟩ := Option.bind_eq_some_iff.mp h
  cases h
  have hf := mapM_forall₂ hown
  refine ⟨rfl, hid, ?_, ?_, ?_⟩
  · rintro d ⟨agent', hget', hd⟩
    rw [hget] at hget'
    cases hget'
    obtain ⟨m, hm, rfl⟩ := List.getElem_of_mem hd
    have hlen := hf.length_eq
    refine ⟨own[m], hf.get hm (by omega), ?_⟩
    exact List.mem_append_left _ (List.mem_append_left _ (List.getElem_mem _))
  · intro s hs
    exact List.mem_append_left _ (List.mem_append_right _ hs)
  · intro hlast
    refine ⟨by simp [hlast], ?_⟩
    intro b hb
    have hmem : b.fromStep ∈ bindings.map ParameterBinding.fromStep := List.mem_map_of_mem hb
    refine ⟨?_, dependencyType_soft (by simp [hlast]) hmem⟩
    by_cases hs : b.fromStep ∈ own ++ upstream
    · exact List.mem_append_left _ hs
    · apply List.mem_append_right
      simp only [hlast, decide_true, if_true]
      exact List.mem_filter.mpr ⟨hmem, by simpa using hs⟩

/-- Where everything an agent requires is needed as well, no lookup of the route fails. -/
theorem buildRouteSteps_some (hk : ∀ a ∈ needed, R.get a ≠ none)
    (hd : ∀ a ∈ needed, ∀ d, Requires R a d → d ∈ needed) :
    ∃ steps, buildRouteSteps R route counter needed upstream bindings = some steps := by
  apply mapM_some
  intro a ha
  obtain ⟨agent, hget⟩ := Option.ne_none_iff_exists'.mp (hk a ha)
  obtain ⟨own, hown⟩ : ∃ own, agent.dependsOn.mapM (localStepId counter needed) = some own :=
    mapM_some fun d hmem => localStepId_ne_none (hd a ha d ⟨agent, hget, hmem⟩)
  obtain ⟨stepId, hid⟩ : ∃ stepId, localStepId counter needed a = some stepId :=
    Option.ne_none_iff_exists'.mp (localStepId_ne_none ha)
  simp [buildStep, hget, hown, hid]

theorem steps_agents {steps : List PlanStep}
    (h : List.Forall₂ (StepShape R counter needed upstream bindings) needed steps) :
    steps.map PlanStep.agentId = needed := by
  have hlen := h.length_eq
  apply List.ext_getElem (by simp [hlen])
  intro i h₁ h₂
  rw [List.getElem_map]
  exact (h.get h₂ (by simpa using h₁)).agent

/-- Whatever was planned before, the planner adds a step for each agent that the route
needs. -/
theorem planRoute_steps {R : CheckedRegistry} (hR : Resolves R)
    (hids : ∀ a ∈ route.agentIds, R.get a ≠ none)
    (d : Draft) : ∃ surviving needed steps, applyExclusions R route.agentIds = some surviving ∧
      Needed R surviving needed ∧
      List.Forall₂ (StepShape R d.counter needed (route.dependsOnSubqueries.flatMap (stepsOf d))
        (resolveRouteBindings d route)) needed steps ∧
      planRoute R d route = some ⟨d.steps ++ steps,
        d.stepsBySubquery ++ [(route.subQueryId, steps.map PlanStep.stepId)],
        d.counter + steps.length⟩ := by
  obtain ⟨surviving, hsurv, hsub, _⟩ := applyExclusions_spec hR hids
  obtain ⟨needed, hneeded, hN⟩ := expandWithDeps_spec hR fun a ha => hids a (hsub.subset ha)
  have hclosed : ∀ a ∈ needed, ∀ d, Requires R a d → d ∈ needed := by
    intro a ha d hd
    exact hN.closed.mem_of_reach (.single (dep_iff.mpr hd)) ha
  have hknown : ∀ a ∈ needed, R.get a ≠ none := by
    intro a ha
    obtain ⟨s, hs, hr⟩ := (hN.mem a).mp ha
    exact get_of_reach hR (hids s (hsub.subset hs)) hr
  obtain ⟨steps, hsteps⟩ : ∃ steps, buildRouteSteps R route d.counter needed
      (route.dependsOnSubqueries.flatMap (stepsOf d)) (resolveRouteBindings d route) = some steps :=
    buildRouteSteps_some hknown hclosed
  have hf := mapM_forall₂ hsteps
  have hlen := hf.length_eq
  refine ⟨surviving, needed, steps, hsurv, hN, hf.imp fun a p h => buildStep_shape h, ?_⟩
  rw [planRoute, hsurv]
  simp only [Option.bind_eq_bind, Option.bind_some, hneeded, hsteps, hlen]

end Steps

structure Block where
  route : SubQueryRoute
  steps : List PlanStep

def blockOf (blocks : List Block) (sqId : String) : Option Block :=
  blocks.find? fun b => b.route.subQueryId = sqId

/-- The binding that a declared one becomes: its source is the last step of the block that
it names. -/
def boundTo (blocks : List Block) (x : String × String × String) : Option ParameterBinding :=
  ((blockOf blocks x.1).bind fun b => b.steps.getLast?).map fun q =>
    ⟨q.stepId, x.2.1, x.2.2, false⟩

def draftOf (blocks : List Block) : Draft :=
  ⟨blocks.flatMap Block.steps,
    blocks.map fun b => (b.route.subQueryId, b.steps.map PlanStep.stepId),
    (blocks.flatMap Block.steps).length⟩

theorem stepsOf_draftOf (blocks : List Block) (sqId : String) :
    stepsOf (draftOf blocks) sqId =
      ((blockOf blocks sqId).map fun b => b.steps.map PlanStep.stepId).getD [] := by
  unfold stepsOf draftOf blockOf
  rw [List.find?_map, Option.map_map]
  rfl

theorem resolveRouteBindings_draftOf (blocks : List Block) (route : SubQueryRoute) :
    resolveRouteBindings (draftOf blocks) route = route.bindings.filterMap (boundTo blocks) := by
  unfold resolveRouteBindings
  apply List.filterMap_congr
  intro x _
  rw [stepsOf_draftOf, boundTo]
  cases blockOf blocks x.1 with
  | none => rfl
  | some b => simp [List.getLast?_map, Option.map_map, Function.comp_def]

/-- What the block of a route has to be, after the blocks before it. -/
structure RouteShape (R : Registry) (before : List Block) (b : Block) : Prop where
  agents : ∃ surviving, applyExclusions R b.route.agentIds = some surviving ∧
    ∀ a, a ∈ b.steps.map PlanStep.agentId ↔
      ∃ s ∈ surviving, Relation.ReflTransGen (Requires R) s a
  once : (b.steps.map PlanStep.agentId).Nodup
  prerequisites : ∀ p ∈ b.steps, ∀ d, Requires R p.agentId d →
    ∃ q ∈ b.steps, q.agentId = d ∧ q.stepId ∈ p.dependsOn
  upstream : ∀ u ∈ before, u.route.subQueryId ∈ b.route.dependsOnSubqueries →
    ∀ q ∈ u.steps, ∀ p ∈ b.steps, q.stepId ∈ p.dependsOn
  bindings : ∀ p, b.steps.getLast? = some p →
    p.parameterBindings = b.route.bindings.filterMap (boundTo before) ∧
      ∀ x ∈ p.parameterBindings, x.fromStep ∈ p.dependsOn ∧ dependencyType p x.fromStep = "soft"

section Blocks

variable {R : Registry} {blocks : List Block} {route : SubQueryRoute}

theorem blockOf_mem (hn : (blocks.map fun b => b.route.subQueryId).Nodup) {b : Block}
    (hb : b ∈ blocks) : blockOf blocks b.route.subQueryId = some b := by
  cases hf : blockOf blocks b.route.subQueryId with
  | none => exact absurd (List.find?_eq_none.mp hf b hb) (by simp)
  | some u =>
    have hid : u.route.subQueryId = b.route.subQueryId := by simpa using List.find?_some hf
    rw [List.inj_on_of_nodup_map hn (List.mem_of_find?_eq_some hf) hb hid]

theorem routeShape_of_steps {surviving needed : List String} {steps : List PlanStep} {counter : ℕ}
    (hn : (blocks.map fun b => b.route.subQueryId).Nodup)
    (hsurv : applyExclusions R route.agentIds = some surviving) (hN : Needed R surviving needed)
    (hshape : List.Forall₂ (StepShape R counter needed
      (route.dependsOnSubqueries.flatMap (stepsOf (draftOf blocks)))
      (resolveRouteBindings (draftOf blocks) route)) needed steps) :
    RouteShape R blocks ⟨route, steps⟩ := by
  have hagents := steps_agents hshape
  refine ⟨⟨surviving, hsurv, ?_⟩, hagents ▸ hN.nodup, ?_, ?_, ?_⟩
  · intro a
    rw [hagents]
    exact hN.mem a
  · intro p hp d hd
    obtain ⟨a, ha, hpa⟩ := forall₂_right hshape hp
    rw [hpa.agent] at hd
    obtain ⟨s, hs, hdep⟩ := hpa.own d hd
    have hdn : d ∈ needed := hN.closed.mem_of_reach (.single (dep_iff.mpr hd)) ha
    obtain ⟨q, hq, hqd⟩ := forall₂_left hshape hdn
    have hsq : s = q.stepId := Option.some.inj (hs.symm.trans hqd.step)
    exact ⟨q, hq, hqd.agent, hsq ▸ hdep⟩
  · intro u hu hlisted q hq p hp
    obtain ⟨a, _, hpa⟩ := forall₂_right hshape hp
    apply hpa.waits
    refine List.mem_flatMap.mpr ⟨_, hlisted, ?_⟩
    rw [stepsOf_draftOf, blockOf_mem hn hu]
    exact List.mem_map_of_mem hq
  · intro p hp
    obtain ⟨a, _, hpa⟩ := forall₂_right hshape (List.mem_of_getLast? hp)
    have hlast : needed.getLast? = some a := by
      rw [← hagents, List.getLast?_map, hp, ← hpa.agent]
      rfl
    obtain ⟨hb, hdeps⟩ := hpa.last hlast
    rw [hb]
    exact ⟨resolveRouteBindings_draftOf blocks route, hdeps⟩

theorem planRoute_block {R : CheckedRegistry} (hR : Resolves R)
    (hn : (blocks.map fun b => b.route.subQueryId).Nodup)
    (hids : ∀ a ∈ route.agentIds, R.get a ≠ none) :
    ∃ b : Block, b.route = route ∧
      planRoute R (draftOf blocks) route = some (draftOf (blocks ++ [b])) ∧
      RouteShape R blocks b := by
  obtain ⟨surviving, needed, steps, hsurv, hN, hshape, hplan⟩ :=
    planRoute_steps hR hids (draftOf blocks)
  refine ⟨⟨route, steps⟩, rfl, ?_, routeShape_of_steps hn hsurv hN hshape⟩
  rw [hplan]
  simp [draftOf]

theorem planRoutes_blocks {R : CheckedRegistry} (hR : Resolves R) {ordered : List SubQueryRoute}
    (hn : (ordered.map SubQueryRoute.subQueryId).Nodup)
    (hids : ∀ r ∈ ordered, ∀ a ∈ r.agentIds, R.get a ≠ none) :
    ∃ blocks : List Block, blocks.map Block.route = ordered ∧
      ordered.foldlM (planRoute R) ⟨[], [], 0⟩ = some (draftOf blocks) ∧
      AtEach (RouteShape R) blocks := by
  induction ordered using List.reverseRecOn with
  | nil => exact ⟨[], rfl, rfl, atEach_nil⟩
  | append_singleton ordered route ih =>
    rw [List.map_append, List.nodup_append] at hn
    obtain ⟨blocks, hroutes, hfold, heach⟩ := ih hn.1
      fun r hr => hids r (List.mem_append_left _ hr)
    have hblocks : (blocks.map fun b => b.route.subQueryId).Nodup := by
      have := hn.1
      rwa [← hroutes, List.map_map] at this
    obtain ⟨b, hroute, hplan, hshape⟩ := planRoute_block hR hblocks (hids route (by simp))
    refine ⟨blocks ++ [b], by simp [hroutes, hroute], ?_, atEach_snoc.mpr ⟨heach, hshape⟩⟩
    rw [List.foldlM_append, hfold]
    simpa using hplan

end Blocks

def DependsOn (routes : List SubQueryRoute) (a b : String) : Prop :=
  ∃ r ∈ routes, r.subQueryId = a ∧ b ∈ r.dependsOnSubqueries ∧
    b ∈ routes.map SubQueryRoute.subQueryId

def Cyclic (routes : List SubQueryRoute) : Prop :=
  ∃ sqId, Relation.TransGen (DependsOn routes) sqId sqId

section Order

variable {routes : List SubQueryRoute}

def subqueryDeps (routes : List SubQueryRoute) (sqId : String) : Option (List String) :=
  (byId routes sqId).map SubQueryRoute.dependsOnSubqueries

theorem byId_mem (hn : (routes.map SubQueryRoute.subQueryId).Nodup) {r : SubQueryRoute}
    (hr : r ∈ routes) : byId routes r.subQueryId = some r := by
  cases hf : byId routes r.subQueryId with
  | none => exact absurd (List.find?_eq_none.mp hf r (List.mem_reverse.mpr hr)) (by simp)
  | some u =>
    have hid : u.subQueryId = r.subQueryId := by simpa using List.find?_some hf
    rw [List.inj_on_of_nodup_map hn (List.mem_reverse.mp (List.mem_of_find?_eq_some hf)) hr hid]

theorem byId_cases {sqId : String} {r : SubQueryRoute} (h : byId routes sqId = some r) :
    r ∈ routes ∧ r.subQueryId = sqId :=
  ⟨List.mem_reverse.mp (List.mem_of_find?_eq_some h), by simpa using List.find?_some h⟩

theorem byId_isSome {sqId : String} (h : sqId ∈ routes.map SubQueryRoute.subQueryId) :
    ∃ r, byId routes sqId = some r := by
  obtain ⟨r, hr, rfl⟩ := List.mem_map.mp h
  refine Option.isSome_iff_exists.mp (List.find?_isSome.mpr ⟨r, List.mem_reverse.mpr hr, ?_⟩)
  simp

theorem mem_ids_iff (sqId : String) :
    sqId ∈ routes.map SubQueryRoute.subQueryId ↔ subqueryDeps routes sqId ≠ none := by
  unfold subqueryDeps
  rw [ne_eq, Option.map_eq_none_iff]
  constructor
  · intro h
    obtain ⟨r, hr⟩ := byId_isSome h
    simp [hr]
  · intro h
    obtain ⟨r, hr⟩ := Option.ne_none_iff_exists'.mp h
    obtain ⟨hmem, rfl⟩ := byId_cases hr
    exact List.mem_map_of_mem hmem

theorem dependsOn_of_dep {a b : String} (h : Dep (knownDeps (subqueryDeps routes)) a b) :
    DependsOn routes a b := by
  obtain ⟨ds, hds, hb⟩ := h
  obtain ⟨ds', hds', rfl⟩ := Option.map_eq_some_iff.mp hds
  obtain ⟨r, hr, rfl⟩ := Option.map_eq_some_iff.mp hds'
  obtain ⟨hmem, hid⟩ := byId_cases hr
  obtain ⟨hb, hk⟩ := List.mem_filter.mp hb
  exact ⟨r, hmem, hid, hb, (mem_ids_iff b).mpr (Option.isSome_iff_ne_none.mp hk)⟩

theorem dependsOn_iff (hn : (routes.map SubQueryRoute.subQueryId).Nodup) {a b : String} :
    Dep (knownDeps (subqueryDeps routes)) a b ↔ DependsOn routes a b := by
  refine ⟨dependsOn_of_dep, ?_⟩
  rintro ⟨r, hmem, rfl, hb, hk⟩
  refine ⟨r.dependsOnSubqueries.filter fun d => (subqueryDeps routes d).isSome, ?_, ?_⟩
  · rw [knownDeps, subqueryDeps, byId_mem hn hmem]
    rfl
  · exact List.mem_filter.mpr ⟨hb, Option.isSome_iff_ne_none.mpr ((mem_ids_iff b).mp hk)⟩

theorem dependsOn_eq (hn : (routes.map SubQueryRoute.subQueryId).Nodup) :
    Dep (knownDeps (subqueryDeps routes)) = DependsOn routes := by
  funext a b
  exact propext (dependsOn_iff hn)

theorem topoSubqueries_eq (routes : List SubQueryRoute) : topoSubqueries routes =
    (orderAll (subqueryDeps routes) (routes.map SubQueryRoute.subQueryId)).map
      fun ids => ids.filterMap (byId routes) := by
  rw [orderAll, List.length_map]
  rfl

/-- The sort raises exactly on a cycle among the routes. -/
theorem topoSubqueries_none_iff (hn : (routes.map SubQueryRoute.subQueryId).Nodup) :
    topoSubqueries routes = none ↔ Cyclic routes := by
  rw [topoSubqueries_eq, Option.map_eq_none_iff, orderAll_none mem_ids_iff, dependsOn_eq hn]
  rfl

theorem filterMap_byId {l : List String}
    (h : ∀ x ∈ l, x ∈ routes.map SubQueryRoute.subQueryId) :
    (l.filterMap (byId routes)).map SubQueryRoute.subQueryId = l := by
  induction l with
  | nil => rfl
  | cons x l ih =>
    obtain ⟨r, hr⟩ := byId_isSome (h x List.mem_cons_self)
    rw [List.filterMap_cons_some hr, List.map_cons, (byId_cases hr).2,
      ih fun y hy => h y (List.mem_cons_of_mem _ hy)]

/-- Without a cycle each id is sorted once, whichever route of that id it stands for. -/
theorem topoSubqueries_of_acyclic (h : ¬Cyclic routes) :
    ∃ ordered, topoSubqueries routes = some ordered ∧
      (ordered.map SubQueryRoute.subQueryId).Nodup ∧ ∀ r ∈ ordered, r ∈ routes := by
  cases ho : orderAll (subqueryDeps routes) (routes.map SubQueryRoute.subQueryId) with
  | none =>
    obtain ⟨x, hx⟩ := (orderAll_none mem_ids_iff).mp ho
    exact absurd ⟨x, hx.lift id fun _ _ => dependsOn_of_dep⟩ h
  | some l =>
    obtain ⟨_, hnd, hmem⟩ := orderAll_closed ho mem_ids_iff
    refine ⟨l.filterMap (byId routes), by rw [topoSubqueries_eq, ho]; rfl, ?_, ?_⟩
    · rwa [filterMap_byId fun x hx => (hmem x).mp hx]
    · intro r hr
      obtain ⟨x, _, hx⟩ := List.mem_filterMap.mp hr
      exact (byId_cases hx).1

/-- The sorted routes are the given ones, each after those that it waits for. -/
theorem topoSubqueries_sorted (hn : (routes.map SubQueryRoute.subQueryId).Nodup)
    {ordered : List SubQueryRoute} (h : topoSubqueries routes = some ordered) :
    ordered.Perm routes ∧
      AtEach (fun before r => ∀ u ∈ routes, u.subQueryId ∈ r.dependsOnSubqueries → u ∈ before)
        ordered := by
  rw [topoSubqueries_eq] at h
  obtain ⟨l, hl, rfl⟩ := Option.map_eq_some_iff.mp h
  obtain ⟨hc, hnd, hmem⟩ := orderAll_closed hl mem_ids_iff
  have hids := filterMap_byId fun x hx => (hmem x).mp hx
  have hsub : ∀ r ∈ l.filterMap (byId routes), r ∈ routes := by
    intro r hr
    obtain ⟨x, _, hx⟩ := List.mem_filterMap.mp hr
    exact (byId_cases hx).1
  constructor
  · rw [List.perm_ext_iff_of_nodup ((hids.symm ▸ hnd).of_map _) (hn.of_map _)]
    intro r
    refine ⟨hsub r, ?_⟩
    intro hr
    exact List.mem_filterMap.mpr
      ⟨r.subQueryId, (hmem _).mpr (List.mem_map_of_mem hr), byId_mem hn hr⟩
  · intro before r rest he u hu hlisted
    have hr : r ∈ routes := hsub r (by simp [he])
    rw [he, List.map_append, List.map_cons] at hids
    have hdep : Dep (knownDeps (subqueryDeps routes)) r.subQueryId u.subQueryId :=
      (dependsOn_iff hn).mpr ⟨r, hr, rfl, hlisted, List.mem_map_of_mem hu⟩
    obtain ⟨ds, hds, hmemds⟩ := hdep
    obtain ⟨u', hu', hid⟩ := List.mem_map.mp (hc _ _ _ hids.symm ds hds _ hmemds)
    have hu'r : u' ∈ routes := hsub u' (by simp [he, hu'])
    rwa [← List.inj_on_of_nodup_map hn hu'r hu hid]

end Order

/-- What a plan has to be: a block for each route with all the blocks that it waits for
before it. -/
structure PlanShape (R : Registry) (routes : List SubQueryRoute) (steps : List PlanStep) :
    Prop where
  distinct : (steps.map PlanStep.stepId).Nodup
  earlier : ∀ i, ∀ hi : i < steps.length, ∀ d ∈ steps[i].dependsOn,
    ∃ j, ∃ hj : j < i, steps[j].stepId = d
  blocks : ∃ blocks : List Block, (blocks.map Block.route).Perm routes ∧
    steps = blocks.flatMap Block.steps ∧ AtEach (RouteShape R) blocks ∧
    AtEach (fun before b => ∀ u ∈ blocks, u.route.subQueryId ∈ b.route.dependsOnSubqueries →
      u ∈ before ∧ ∀ x ∈ b.route.bindings, x.1 = u.route.subQueryId →
        ∀ q, u.steps.getLast? = some q →
          boundTo before x = some ⟨q.stepId, x.2.1, x.2.2, false⟩) blocks

theorem numbered_distinct {steps : List PlanStep} (h : Numbered steps) :
    (steps.map PlanStep.stepId).Nodup := by
  rw [List.nodup_iff_injective_get]
  intro i j hij
  simp only [List.get_eq_getElem, List.getElem_map] at hij
  rw [(h i (by simpa using i.2)).1, (h j (by simpa using j.2)).1] at hij
  have := stepName_inj hij
  exact Fin.ext (by omega)

theorem numbered_earlier {steps : List PlanStep} (h : Numbered steps) {i : ℕ}
    (hi : i < steps.length) {d : String} (hd : d ∈ steps[i].dependsOn) :
    ∃ j, ∃ hj : j < i, steps[j].stepId = d := by
  obtain ⟨j, hj, rfl⟩ := (h i hi).2 d hd
  exact ⟨j, hj, (h j (by omega)).1⟩

section Plans

variable {R : Registry} {routes : List SubQueryRoute}

theorem assemblePlan_eq (hne : routes ≠ []) (hag : ∀ r ∈ routes, r.agentIds ≠ []) :
    assemblePlan R routes = (topoSubqueries routes).bind fun ordered =>
      (ordered.foldlM (planRoute R) ⟨[], [], 0⟩).bind fun d => some d.steps := by
  have hall : (routes.filter fun r => r.agentIds ≠ []) = routes := by
    apply List.filter_eq_self.mpr
    intro r hr
    simpa using hag r hr
  unfold assemblePlan
  rw [hall, if_neg hne]
  rfl

theorem assemblePlan_of_acyclic {R : CheckedRegistry} (hR : Resolves R) (hne : routes ≠ [])
    (hag : ∀ r ∈ routes, r.agentIds ≠ [] ∧ ∀ a ∈ r.agentIds, R.get a ≠ none)
    (h : ¬Cyclic routes) : ∃ steps, assemblePlan R routes = some steps := by
  obtain ⟨ordered, ht, hn, hsub⟩ := topoSubqueries_of_acyclic h
  obtain ⟨blocks, _, hfold, _⟩ := planRoutes_blocks hR hn fun r hr => (hag r (hsub r hr)).2
  refine ⟨(draftOf blocks).steps, ?_⟩
  rw [assemblePlan_eq hne fun r hr => (hag r hr).1, ht, Option.bind_some, hfold]
  rfl

/-- Over agents that can all be looked up, a plan fails on a cycle of the routes only. -/
theorem assemblePlan_shape {R : CheckedRegistry} (hR : Resolves R) (hne : routes ≠ [])
    (hn : (routes.map SubQueryRoute.subQueryId).Nodup)
    (hag : ∀ r ∈ routes, r.agentIds ≠ [] ∧ ∀ a ∈ r.agentIds, R.get a ≠ none) :
    (topoSubqueries routes = none ∧ assemblePlan R routes = none) ∨
      ∃ ordered steps, topoSubqueries routes = some ordered ∧ assemblePlan R routes = some steps ∧
        PlanShape R routes steps := by
  have heq := assemblePlan_eq (R := R) hne fun r hr => (hag r hr).1
  cases ht : topoSubqueries routes with
  | none => exact .inl ⟨rfl, by rw [heq, ht]; rfl⟩
  | some ordered =>
    obtain ⟨hperm, hsorted⟩ := topoSubqueries_sorted hn ht
    have hno : (ordered.map SubQueryRoute.subQueryId).Nodup := (hperm.map _).nodup_iff.mpr hn
    obtain ⟨blocks, rfl, hfold, heach⟩ := planRoutes_blocks hR hno
      fun r hr => (hag r (hperm.subset hr)).2
    rw [List.map_map] at hno
    have hplan : assemblePlan R routes = some (blocks.flatMap Block.steps) := by
      rw [heq, ht, Option.bind_some, hfold]
      rfl
    have hnum := assemblePlan_numbered hplan
    refine .inr ⟨_, _, rfl, hplan, numbered_distinct hnum,
      fun i hi d hd => numbered_earlier hnum hi hd, blocks, hperm, rfl, heach, ?_⟩
    intro before b rest he u hu hlisted
    -- the sort has put the route of `u` before the one of `b`
    have hbefore : u ∈ before := by
      have hur : u.route ∈ routes := hperm.subset (List.mem_map_of_mem hu)
      obtain ⟨u', hu', hroute⟩ := List.mem_map.mp
        (hsorted (before.map Block.route) b.route (rest.map Block.route)
          (by simp [he]) _ hur hlisted)
      have hu'b : u' ∈ blocks := by simp [he, hu']
      rwa [← List.inj_on_of_nodup_map hno hu'b hu (by simp [hroute])]
    refine ⟨hbefore, ?_⟩
    intro x _ hx q hq
    have hnb : (before.map fun b => b.route.subQueryId).Nodup := by
      rw [he, List.map_append] at hno
      exact hno.of_append_left
    rw [boundTo, hx, blockOf_mem hnb hbefore, Option.bind_some, hq]
    rfl

theorem planRoute_reach {d d' : Draft} {route : SubQueryRoute} (h : planRoute R d route = some d') :
    ∀ p ∈ d'.steps, p ∈ d.steps ∨
      ∃ a ∈ route.agentIds, Relation.ReflTransGen (Requires R) a p.agentId := by
  obtain ⟨surviving, hsurv, h⟩ := Option.bind_eq_some_iff.mp h
  obtain ⟨needed, hneeded, h⟩ := Option.bind_eq_some_iff.mp h
  obtain ⟨steps, hsteps, h⟩ := Option.bind_eq_some_iff.mp h
  cases h
  have hsub : ∀ a ∈ surviving, a ∈ route.agentIds := by
    rw [applyExclusions_eq] at hsurv
    obtain ⟨dropped, _, he⟩ := Option.bind_eq_some_iff.mp hsurv
    cases he
    intro a ha
    exact (List.mem_filter.mp ha).1
  intro p hp
  rcases List.mem_append.mp hp with hp | hp
  · exact .inl hp
  · have hagents := steps_agents ((mapM_forall₂ hsteps).imp fun a q hq => buildStep_shape hq)
    have hneed : p.agentId ∈ needed := by
      rw [← hagents]
      exact List.mem_map_of_mem hp
    obtain ⟨a, ha, hr⟩ := postOrder_reach hneeded _ hneed
    simp only [dep_eq] at hr
    exact .inr ⟨a, hsub a ha, hr⟩

theorem assemblePlan_reach {steps : List PlanStep} (h : assemblePlan R routes = some steps) :
    ∀ p ∈ steps, ∃ route ∈ routes, ∃ a ∈ route.agentIds,
      Relation.ReflTransGen (Requires R) a p.agentId := by
  unfold assemblePlan at h
  by_cases hr : (routes.filter fun r => r.agentIds ≠ []) = []
  · rw [if_pos hr] at h
    cases h
  rw [if_neg hr] at h
  obtain ⟨ordered, ho, h⟩ := Option.bind_eq_some_iff.mp h
  obtain ⟨d, hd, h⟩ := Option.bind_eq_some_iff.mp h
  cases h
  have hroutes : ∀ r ∈ ordered, r ∈ routes := by
    intro r hmem
    obtain ⟨ids, _, rfl⟩ := Option.map_eq_some_iff.mp ho
    obtain ⟨sqId, _, hby⟩ := List.mem_filterMap.mp hmem
    exact (List.mem_filter.mp (byId_cases hby).1).1
  have hall : ∀ p ∈ d.steps, ∃ route ∈ routes, ∃ a ∈ route.agentIds,
      Relation.ReflTransGen (Requires R) a p.agentId := by
    refine @foldlM_rule _ _ _ (fun d : Draft => ∀ p ∈ d.steps, ∃ route ∈ routes,
      ∃ a ∈ route.agentIds, Relation.ReflTransGen (Requires R) a p.agentId) _ ?_ _ _ ?_ hd
    · intro w route w' hmem hw hplan p hp
      rcases planRoute_reach hplan p hp with hp | ⟨a, ha, hreach⟩
      · exact hw p hp
      · exact ⟨route, hroutes route hmem, a, ha, hreach⟩
    · intro p hp
      cases hp
  exact hall

end Plans

open RegistryService

section Checked

variable {S : Service} {hS : checkIntegrity S = .ok ()}

theorem registry_known {a : String} (h : a ∈ agentIds (activeAgents S)) :
    (registry S hS).get a ≠ none := by
  obtain ⟨_, r, _, _, hg⟩ := find_active S h
  simp [registry_get S hS h, hg]

theorem registry_resolves (S : Service) (hS : checkIntegrity S = .ok ()) :
    Resolves (registry S hS) := by
  have hc := (checkIntegrity_ok_iff S).mp hS
  intro agentId agent hget
  obtain ⟨hmem, _⟩ := Registry.get_mem hget
  obtain ⟨a, ha, rfl⟩ := List.mem_map.mp hmem
  refine ⟨fun d hd => registry_known (hc.dependsOn a ha d hd), ?_⟩
  intro exc hexc
  obtain ⟨x, hx, rfl⟩ := List.mem_map.mp hexc
  exact registry_known (hc.excludes a ha x hx)

end Checked

/-- For every registry that passed its check and every list of routes with distinct ids and
active agents: the sort raises, and the planner with it, exactly on a cycle of the routes,
and every other plan has its shape. -/
theorem assemblePlan_wellFormed (S : Service) (hS : checkIntegrity S = .ok ())
    (routes : List SubQueryRoute) (hne : routes ≠ [])
    (hids : (routes.map SubQueryRoute.subQueryId).Nodup)
    (hagents : ∀ r ∈ routes, r.agentIds ≠ [] ∧
      ∀ a ∈ r.agentIds, a ∈ agentIds (activeAgents S)) :
    (topoSubqueries routes = none ↔ Cyclic routes) ∧
    (assemblePlan (registry S hS) routes = none ↔ Cyclic routes) ∧
    ∀ steps, assemblePlan (registry S hS) routes = some steps →
      PlanShape (registry S hS) routes steps := by
  have hcyc := topoSubqueries_none_iff hids
  rcases assemblePlan_shape (registry_resolves S hS) hne hids
      (fun r hr => ⟨(hagents r hr).1, fun a ha => registry_known ((hagents r hr).2 a ha)⟩) with
    ⟨ht, hp⟩ | ⟨ordered, steps, ht, hp, hshape⟩
  · refine ⟨hcyc, ⟨fun _ => hcyc.mp ht, fun _ => hp⟩, ?_⟩
    intro steps h
    rw [hp] at h
    cases h
  · have hno : ¬ Cyclic routes := by
      rw [← hcyc, ht]
      simp
    refine ⟨hcyc, ⟨fun h => ?_, fun h => absurd h hno⟩, ?_⟩
    · rw [hp] at h
      cases h
    · intro steps' h
      rw [hp] at h
      cases h
      exact hshape

def chainedRecords : List RegistryService.AgentRecord :=
  [readAgent "uc_list" [] [], readAgent "uc_summary" ["uc_list"] []]

theorem chainedRecords_rules : ∀ a ∈ chainedRecords, CrossFieldRules a := by
  intro a ha
  rcases List.mem_cons.mp ha with rfl | ha
  · exact readAgent_rules (by decide) (by decide)
  · rw [List.mem_singleton.mp ha]
    exact readAgent_rules (by decide) (by decide)

def chainedAgents : Service :=
  Service.ofRecords chainedRecords [] chainedRecords_rules (List.forall_mem_nil _)

theorem chainedAgents_checked : checkIntegrity chainedAgents = .ok () := by decide +kernel

def chainedRoutes : List SubQueryRoute :=
  [⟨"sq2", ["uc_list"], [], ["sq1"], [("sq1", "summary", "text")]⟩,
    ⟨"sq1", ["uc_summary"], [], ["sq9"], []⟩]

theorem chainedRoutes_wellFormed :
    ∃ steps, assemblePlan (registry chainedAgents chainedAgents_checked) chainedRoutes =
      some steps ∧
      PlanShape (registry chainedAgents chainedAgents_checked) chainedRoutes steps := by
  have hsome :
      (assemblePlan (registry chainedAgents chainedAgents_checked) chainedRoutes).isSome := by
    decide +kernel
  obtain ⟨steps, hsteps⟩ := Option.isSome_iff_exists.mp hsome
  exact ⟨steps, hsteps, (assemblePlan_wellFormed chainedAgents chainedAgents_checked chainedRoutes
    (List.cons_ne_nil _ _) (by decide +kernel) (by decide +kernel)).2.2 steps hsteps⟩

end RouterPlanAssembly
