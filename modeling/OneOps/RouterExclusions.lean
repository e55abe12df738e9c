import OneOps.RouterPlanAssembly

/-! Exclusions among the agents of a route. Each declared exclusion between two selected agents
drops one of them, whether or not the other is dropped as well, and prerequisites are added
without a look at the exclusions. -/
namespace RouterExclusions

open RouterPlan
open RouterPlanAssembly
open RegistryService

def Excludes (R : Registry) (a b : String) : Prop :=
  ∃ agent, R.get a = some agent ∧ ∃ exc ∈ agent.excludes, exc.agentId = b

/-- `x` loses an exclusion to `y`: either `y` declares it at no lower a priority than `x`
declares the other way, or `x` declares it at a lower one than `y`. -/
def LosesTo (R : Registry) (x y : String) : Prop :=
  ∃ loser winner, R.get x = some loser ∧ R.get y = some winner ∧
    ((∃ exc ∈ winner.excludes, exc.agentId = x ∧ otherPriority loser y ≤ exc.priority) ∨
      ∃ exc ∈ loser.excludes, exc.agentId = y ∧ exc.priority < otherPriority winner x)

def Beaten (R : Registry) (agentIds : List String) (x : String) : Prop :=
  ∃ y ∈ agentIds, LosesTo R x y

/-- The selected agents that lose to none of the others, with all that they require. -/
def Planned (R : Registry) (agentIds : List String) (x : String) : Prop :=
  ∃ a ∈ agentIds, ¬ Beaten R agentIds a ∧ Relation.ReflTransGen (Requires R) a x

def added (d d' : Draft) : List PlanStep := d'.steps.drop d.steps.length

structure ExclusionsHold (R : Registry) (route : SubQueryRoute) : Prop where
  kept : ∃ kept, applyExclusions R route.agentIds = some kept ∧ kept ≠ [] ∧
    (∀ a ∈ kept, ∀ b ∈ kept, ¬ Excludes R a b) ∧
    ∀ x ∈ route.agentIds, x ∉ kept → ∃ y ∈ kept, LosesTo R x y
  plan : ∀ d, ∃ d', planRoute R d route = some d' ∧
    ∀ p ∈ added d d', ∀ q ∈ added d d', ¬ Excludes R p.agentId q.agentId

section Kept

variable {R : Registry} {agentIds : List String}

theorem dropped_iff {x : String} (hx : x ∈ agentIds) :
    Dropped R agentIds x ↔ Beaten R agentIds x := by
  constructor
  · rintro ⟨a, ha, agent, hget, exc, hexc, hsel, other, hother, rfl⟩
    unfold loser
    by_cases hp : otherPriority other a ≤ exc.priority
    · rw [if_pos hp]
      exact ⟨a, ha, other, agent, hother, hget, .inl ⟨exc, hexc, rfl, hp⟩⟩
    · rw [if_neg hp]
      exact ⟨exc.agentId, hsel, agent, other, hget, hother, .inr ⟨exc, hexc, rfl, not_le.mp hp⟩⟩
  · rintro ⟨y, hy, l, w, hl, hw, ⟨exc, hexc, rfl, hp⟩ | ⟨exc, hexc, rfl, hp⟩⟩
    · exact ⟨y, hy, w, hw, exc, hexc, hx, l, hl, (if_pos hp).symm⟩
    · exact ⟨x, hx, l, hl, exc, hexc, hy, w, hw, (if_neg (not_le.mpr hp)).symm⟩

theorem kept_iff (hR : Resolves R) (hids : ∀ a ∈ agentIds, R.get a ≠ none) :
    ∃ kept, applyExclusions R agentIds = some kept ∧
      ∀ x, x ∈ kept ↔ x ∈ agentIds ∧ ¬ Beaten R agentIds x := by
  obtain ⟨kept, hk, _, hmem⟩ := applyExclusions_spec hR hids
  refine ⟨kept, hk, ?_⟩
  intro x
  rw [hmem]
  exact and_congr_right fun hx => not_congr (dropped_iff hx)

theorem excludes_beaten (hids : ∀ a ∈ agentIds, R.get a ≠ none) {a b : String} (ha : a ∈ agentIds)
    (hb : b ∈ agentIds) (h : Excludes R a b) : Beaten R agentIds a ∨ Beaten R agentIds b := by
  obtain ⟨agent, hget, exc, hexc, rfl⟩ := h
  obtain ⟨other, hother⟩ := Option.ne_none_iff_exists'.mp (hids _ hb)
  by_cases hp : otherPriority other a ≤ exc.priority
  · exact .inr ⟨a, ha, other, agent, hother, hget, .inl ⟨exc, hexc, rfl, hp⟩⟩
  · exact .inl ⟨exc.agentId, hb, agent, other, hget, hother, .inr ⟨exc, hexc, rfl, not_le.mp hp⟩⟩

end Kept

section Plan

variable {R : CheckedRegistry} {route : SubQueryRoute}

theorem planRoute_agents (hR : Resolves R) (hids : ∀ a ∈ route.agentIds, R.get a ≠ none)
    (d : Draft) : ∃ d', planRoute R d route = some d' ∧
      ∀ a, a ∈ (added d d').map PlanStep.agentId ↔ Planned R route.agentIds a := by
  obtain ⟨kept, hk, hkept⟩ := kept_iff hR hids
  obtain ⟨surviving, needed, steps, hsurv, hN, hshape, hplan⟩ := planRoute_steps hR hids d
  rw [hk] at hsurv
  cases hsurv
  refine ⟨_, hplan, ?_⟩
  intro a
  rw [added, List.drop_left, steps_agents hshape, hN.mem]
  simp only [hkept, Planned, and_assoc]

/-- Exclusions do their work exactly when each beaten agent is beaten by one that is not,
and no two agents of the plan exclude each other. -/
theorem exclusionsHold_iff (hR : Resolves R) (hne : route.agentIds ≠ [])
    (hids : ∀ a ∈ route.agentIds, R.get a ≠ none) :
    ExclusionsHold R route ↔
      (∀ x ∈ route.agentIds, Beaten R route.agentIds x →
        ∃ y ∈ route.agentIds, LosesTo R x y ∧ ¬ Beaten R route.agentIds y) ∧
      ∀ a b, Planned R route.agentIds a → Planned R route.agentIds b → ¬ Excludes R a b := by
  obtain ⟨kept, hk, hkept⟩ := kept_iff hR hids
  constructor
  · rintro ⟨⟨kept', hk', _, _, hlost⟩, hplan⟩
    rw [hk] at hk'
    cases hk'
    refine ⟨?_, ?_⟩
    · intro x hx hbeaten
      obtain ⟨y, hy, hloses⟩ := hlost x hx fun h => ((hkept x).mp h).2 hbeaten
      exact ⟨y, ((hkept y).mp hy).1, hloses, ((hkept y).mp hy).2⟩
    · intro a b ha hb
      obtain ⟨d', hd', hfree⟩ := hplan ⟨[], [], 0⟩
      obtain ⟨d'', hd'', hagents⟩ := planRoute_agents hR hids ⟨[], [], 0⟩
      rw [hd'] at hd''
      cases hd''
      obtain ⟨p, hp, rfl⟩ := List.mem_map.mp ((hagents a).mpr ha)
      obtain ⟨q, hq, rfl⟩ := List.mem_map.mp ((hagents b).mpr hb)
      exact hfree p hp q hq
  · rintro ⟨hwins, hfree⟩
    refine ⟨⟨kept, hk, ?_, ?_, ?_⟩, ?_⟩
    · obtain ⟨x, hx⟩ := List.exists_mem_of_ne_nil _ hne
      by_cases hb : Beaten R route.agentIds x
      · obtain ⟨y, hy, _, hny⟩ := hwins x hx hb
        exact List.ne_nil_of_mem ((hkept y).mpr ⟨hy, hny⟩)
      · exact List.ne_nil_of_mem ((hkept x).mpr ⟨hx, hb⟩)
    · intro a ha b hb hex
      obtain ⟨ha, hna⟩ := (hkept a).mp ha
      obtain ⟨hb, hnb⟩ := (hkept b).mp hb
      rcases excludes_beaten hids ha hb hex with h | h
      · exact hna h
      · exact hnb h
    · intro x hx hout
      have hbeaten : Beaten R route.agentIds x := by
        by_contra hn
        exact hout ((hkept x).mpr ⟨hx, hn⟩)
      obtain ⟨y, hy, hloses, hny⟩ := hwins x hx hbeaten
      exact ⟨y, (hkept y).mpr ⟨hy, hny⟩, hloses⟩
    · intro d
      obtain ⟨d', hd', hagents⟩ := planRoute_agents hR hids d
      refine ⟨d', hd', ?_⟩
      intro p hp q hq
      exact hfree _ _ ((hagents _).mp (List.mem_map_of_mem hp))
        ((hagents _).mp (List.mem_map_of_mem hq))

end Plan

theorem exclusions_hold_iff (S : Service) (hS : checkIntegrity S = .ok ()) (route : SubQueryRoute)
    (hne : route.agentIds ≠ []) (hids : ∀ a ∈ route.agentIds, a ∈ agentIds (activeAgents S)) :
    ExclusionsHold (registry S hS) route ↔
      (∀ x ∈ route.agentIds, Beaten (registry S hS) route.agentIds x →
        ∃ y ∈ route.agentIds, LosesTo (registry S hS) x y ∧
          ¬ Beaten (registry S hS) route.agentIds y) ∧
      ∀ a b, Planned (registry S hS) route.agentIds a → Planned (registry S hS) route.agentIds b →
        ¬ Excludes (registry S hS) a b :=
  exclusionsHold_iff (registry_resolves S hS) hne fun a ha => registry_known (hids a ha)

def routeOf (agentIds : List String) : SubQueryRoute := ⟨"sq1", agentIds, [], [], []⟩

def tiedRecords : List RegistryService.AgentRecord :=
  [readAgent "uc_fulfil" [] [⟨"uc_search", 5⟩], readAgent "uc_search" [] [⟨"uc_fulfil", 5⟩]]

theorem tiedRecords_rules : ∀ a ∈ tiedRecords, CrossFieldRules a := by
  intro a ha
  rcases List.mem_cons.mp ha with rfl | ha
  · exact readAgent_rules (by decide) (by decide)
  · rw [List.mem_singleton.mp ha]
    exact readAgent_rules (by decide) (by decide)

def tiedAgents : Service :=
  Service.ofRecords tiedRecords [] tiedRecords_rules (List.forall_mem_nil _)

theorem tiedAgents_checked : checkIntegrity tiedAgents = .ok () := by decide +kernel

def requiredRecords : List RegistryService.AgentRecord :=
  [readAgent "uc_fulfil" [] [⟨"uc_search", 5⟩], readAgent "uc_search" [] [],
    readAgent "uc_report" ["uc_search"] []]

theorem requiredRecords_rules : ∀ a ∈ requiredRecords, CrossFieldRules a := by
  intro a ha
  rcases List.mem_cons.mp ha with rfl | ha
  · exact readAgent_rules (by decide) (by decide)
  rcases List.mem_cons.mp ha with rfl | ha
  · exact readAgent_rules (by decide) (by decide)
  · rw [List.mem_singleton.mp ha]
    exact readAgent_rules (by decide) (by decide)

def requiredAgents : Service :=
  Service.ofRecords requiredRecords [] requiredRecords_rules (List.forall_mem_nil _)

theorem requiredAgents_checked : checkIntegrity requiredAgents = .ok () := by decide +kernel

theorem exclusions_hold_iff_required :
    ExclusionsHold (registry requiredAgents requiredAgents_checked)
        (routeOf ["uc_fulfil", "uc_search"]) ↔
      (∀ x ∈ ["uc_fulfil", "uc_search"],
        Beaten (registry requiredAgents requiredAgents_checked) ["uc_fulfil", "uc_search"] x →
        ∃ y ∈ ["uc_fulfil", "uc_search"],
          LosesTo (registry requiredAgents requiredAgents_checked) x y ∧
          ¬ Beaten (registry requiredAgents requiredAgents_checked) ["uc_fulfil", "uc_search"] y) ∧
      ∀ a b, Planned (registry requiredAgents requiredAgents_checked) ["uc_fulfil", "uc_search"] a →
        Planned (registry requiredAgents requiredAgents_checked) ["uc_fulfil", "uc_search"] b →
        ¬ Excludes (registry requiredAgents requiredAgents_checked) a b :=
  exclusions_hold_iff requiredAgents requiredAgents_checked (routeOf ["uc_fulfil", "uc_search"])
    (by decide) (by decide +kernel)

/-- The tie drops both agents; the prerequisite brings the excluded agent back. -/
theorem exclusions_fail :
    (applyExclusions (registry tiedAgents tiedAgents_checked) ["uc_fulfil", "uc_search"] = some [] ∧
      ¬ ExclusionsHold (registry tiedAgents tiedAgents_checked)
        (routeOf ["uc_fulfil", "uc_search"])) ∧
    (((planRoute (registry requiredAgents requiredAgents_checked) ⟨[], [], 0⟩
        (routeOf ["uc_fulfil", "uc_report"])).map fun d => d.steps.map PlanStep.agentId) =
          some ["uc_fulfil", "uc_search", "uc_report"] ∧
      ¬ ExclusionsHold (registry requiredAgents requiredAgents_checked)
        (routeOf ["uc_fulfil", "uc_report"])) := by
  have htie : applyExclusions (registry tiedAgents tiedAgents_checked)
      ["uc_fulfil", "uc_search"] = some [] := by decide +kernel
  have hback : ((planRoute (registry requiredAgents requiredAgents_checked) ⟨[], [], 0⟩
      (routeOf ["uc_fulfil", "uc_report"])).map fun d => d.steps.map PlanStep.agentId) =
        some ["uc_fulfil", "uc_search", "uc_report"] := by decide +kernel
  have hex : ((registry requiredAgents requiredAgents_checked).get "uc_fulfil").any
      fun a => a.excludes.any fun e => e.agentId = "uc_search" := by decide +kernel
  refine ⟨⟨htie, ?_⟩, hback, ?_⟩
  · rintro ⟨⟨kept, hk, hne, _⟩, _⟩
    rw [show (routeOf ["uc_fulfil", "uc_search"]).agentIds = ["uc_fulfil", "uc_search"] from rfl,
      htie] at hk
    cases hk
    exact hne rfl
  · rintro ⟨_, hplan⟩
    obtain ⟨d, hd, hfree⟩ := hplan ⟨[], [], 0⟩
    rw [hd, Option.map_some, Option.some.injEq] at hback
    have hsteps : ∀ a ∈ ["uc_fulfil", "uc_search"], a ∈ d.steps.map PlanStep.agentId := by
      rw [hback]
      decide
    obtain ⟨p, hp, hpa⟩ := List.mem_map.mp (hsteps "uc_fulfil" (by decide))
    obtain ⟨q, hq, hqa⟩ := List.mem_map.mp (hsteps "uc_search" (by decide))
    apply hfree p hp q hq
    rw [hpa, hqa]
    obtain ⟨agent, hget, hany⟩ := (Option.any_eq_true _ _).mp hex
    obtain ⟨e, he, hid⟩ := List.any_eq_true.mp hany
    exact ⟨agent, hget, e, he, by simpa using hid⟩

end RouterExclusions
