import OneOps.RegistryReads
import OneOps.ColourSearch
import OneOps.ActivationConditions
import OneOps.RouterPlan
import OneOps.ExecutorNodes

/-! The agents and tools of a registry, and the check of what they say about each other: every
reference is to an active record, and no agent is its own prerequisite. Routing starts from
a registry that passed the check. -/
namespace RegistryService

open VersionedRegistry
open RegistryReads
open ActivationConditions
open ColourSearch
open ExecutorNodes (ExecutionTier)

inductive DataClassification where
  | publicData | internal | confidential | pii
  deriving DecidableEq, Repr

def DataClassification.value : DataClassification → String
  | .publicData => "public"
  | .internal => "internal"
  | .confidential => "confidential"
  | .pii => "pii"

structure ToolRef where
  toolId : String
  version : ℕ
  deriving DecidableEq

structure ExclusionRef where
  agentId : String
  priority : ℕ
  deriving DecidableEq

structure AbacTags where
  tier : ExecutionTier
  audience : List String
  dataClassification : DataClassification

/-- The primary tool of an agent that has a fast path. -/
structure FastPathSpec where
  enabled : Bool
  primaryToolId : String

structure AgentFields where
  chatRouterEligible : Bool
  activationCondition : ActivationCondition
  toolRefs : List ToolRef
  abacTags : AbacTags
  beforeInvocation : List String
  afterInvocation : List String
  dependsOn : List String
  excludes : List ExclusionRef
  compoundOf : List String
  managesOwnApproval : Bool
  fastPath : Option FastPathSpec

structure ToolParameter where
  name : String
  required : Bool

structure ToolFields where
  handlerRef : String
  executionType : ExecutionTier
  parameters : List ToolParameter
  idempotent : Bool
  requiresScopes : List String

abbrev AgentRecord := RegistryRecord AgentFields

abbrev ToolRecord := RegistryRecord ToolFields

/-- What the model refuses to load: an agent that names itself, an action agent without a
hook before it runs, a fast path to a tool that is not the agent's. -/
structure CrossFieldRules (a : AgentRecord) : Prop where
  notOwnPrerequisite : a.id ∉ a.body.dependsOn
  notOwnExclusion : ∀ x ∈ a.body.excludes, x.agentId ≠ a.id
  notOwnMember : a.id ∉ a.body.compoundOf
  hooked : a.body.abacTags.tier = .action → a.body.beforeInvocation ≠ []
  primaryOwned : ∀ f ∈ a.body.fastPath, f.enabled = true →
    f.primaryToolId ∈ a.body.toolRefs.map ToolRef.toolId

def ActionRules (t : ToolRecord) : Prop :=
  t.body.executionType = .action → t.body.idempotent = true

/-- The stores of a loaded registry. -/
structure Service where
  agents : Store AgentFields
  tools : Store ToolFields
  agentsKeyed : Keyed agents
  toolsKeyed : Keyed tools
  agentsValid : Stores (fun _ a => CrossFieldRules a) agents
  toolsValid : Stores (fun _ t => ActionRules t) tools

/-- The registry that a sequence of calls builds from records that the model accepts. -/
def Service.after (agentCalls : List (Call AgentFields)) (toolCalls : List (Call ToolFields))
    (ha : ∀ c ∈ agentCalls, ∀ a, brings c = some a → CrossFieldRules a)
    (ht : ∀ c ∈ toolCalls, ∀ t, brings c = some t → ActionRules t) : Service where
  agents := VersionedRegistry.after "agents" agentCalls
  tools := VersionedRegistry.after "tools" toolCalls
  agentsKeyed := after_keyed _ _
  toolsKeyed := after_keyed _ _
  agentsValid := after_stores (fun _ _ _ h => ⟨h.1, h.2, h.3, h.4, h.5⟩) _ ha
  toolsValid := after_stores (fun _ _ _ h => h) _ ht

def callsFor {β : Type} (records : List (RegistryRecord β)) : List (Call β) :=
  records.flatMap fun r => [.create r, .activate r.id 1]

theorem brings_callsFor {β : Type} {records : List (RegistryRecord β)} {c : Call β}
    {r : RegistryRecord β} (hc : c ∈ callsFor records) (hr : brings c = some r) : r ∈ records := by
  obtain ⟨r', hr', hc⟩ := List.mem_flatMap.mp hc
  rcases List.mem_cons.mp hc with rfl | hc
  · cases hr
    exact hr'
  · rw [List.mem_singleton.mp hc] at hr
    cases hr

def Service.ofRecords (agents : List AgentRecord) (tools : List ToolRecord)
    (ha : ∀ a ∈ agents, CrossFieldRules a) (ht : ∀ t ∈ tools, ActionRules t) : Service :=
  Service.after (callsFor agents) (callsFor tools)
    (fun _ hc a hb => ha a (brings_callsFor hc hb)) (fun _ hc t hb => ht t (brings_callsFor hc hb))

/-- A read agent that asks for nothing but its prerequisites and exclusions. -/
def readAgent (id : String) (dependsOn : List String) (excludes : List ExclusionRef) :
    AgentRecord :=
  ⟨id, 1, .draft,
    { chatRouterEligible := true
      activationCondition := .leaf .entityPresent [] false
      toolRefs := []
      abacTags := ⟨.read, [], .internal⟩
      beforeInvocation := []
      afterInvocation := []
      dependsOn := dependsOn
      excludes := excludes
      compoundOf := []
      managesOwnApproval := false
      fastPath := none }⟩

theorem readAgent_rules {id : String} {dependsOn : List String} {excludes : List ExclusionRef}
    (hd : id ∉ dependsOn) (hx : ∀ x ∈ excludes, x.agentId ≠ id) :
    CrossFieldRules (readAgent id dependsOn excludes) where
  notOwnPrerequisite := hd
  notOwnExclusion := hx
  notOwnMember := by simp [readAgent]
  hooked h := by cases h
  primaryOwned f hf := by cases hf

def activeAgents (S : Service) : List AgentRecord := listActive S.agents

def activeTools (S : Service) : List String := (listActive S.tools).map RegistryRecord.id

def agentIds (agents : List AgentRecord) : List String := agents.map RegistryRecord.id

def unresolved (refs known : List String) (message : String → String) : List String :=
  (refs.filter fun r => r ∉ known).map message

def agentViolations (agent : AgentRecord) (agents : List AgentRecord) (tools : List String) :
    List String :=
  unresolved (agent.body.toolRefs.map ToolRef.toolId) tools
      (fun t => "agent '" ++ agent.id ++ "' references tool '" ++ t ++
        "' which has no active version") ++
    unresolved agent.body.dependsOn (agentIds agents)
      (fun d => "agent '" ++ agent.id ++ "' depends_on '" ++ d ++
        "' which has no active version") ++
    unresolved (agent.body.excludes.map ExclusionRef.agentId) (agentIds agents)
      (fun x => "agent '" ++ agent.id ++ "' excludes '" ++ x ++
        "' which has no active version") ++
    unresolved agent.body.compoundOf (agentIds agents)
      (fun m => "compound agent '" ++ agent.id ++ "' includes '" ++ m ++
        "' which has no active version") ++
    if (agent.body.excludes.map ExclusionRef.priority).Nodup then []
    else ["agent '" ++ agent.id ++ "' has duplicate exclusion priorities — " ++
      "tie-break is ambiguous"]

def knownDependsOn (agents : List AgentRecord) (agentId : String) : List String :=
  match agents.find? fun a => a.id = agentId with
  | none => []
  | some a => a.body.dependsOn.filter fun d => d ∈ agentIds agents

/-- One cycle of prerequisites, or nothing. The bound on the search is never reached. -/
def findDependencyCycle (agents : List AgentRecord) : List String :=
  match searchAll (knownDependsOn agents) (bound (knownDependsOn agents) (agentIds agents))
    (agentIds agents) fun _ => .white with
  | some (.error cycle) => cycle
  | _ => []

def cycleViolation (agents : List AgentRecord) : List String :=
  match findDependencyCycle agents with
  | [] => []
  | cycle => ["depends_on graph has a cycle: " ++ " -> ".intercalate cycle]

def violations (S : Service) : List String :=
  (activeAgents S).flatMap (fun a => agentViolations a (activeAgents S) (activeTools S)) ++
    cycleViolation (activeAgents S)

def checkIntegrity (S : Service) : Except String Unit :=
  match violations S with
  | [] => .ok ()
  | vs => .error ("registry integrity check failed (" ++ toString vs.length ++
      " violation(s)):\n" ++ "\n".intercalate (vs.map fun v => "  - " ++ v))

section Cycles

variable {agents : List AgentRecord}

theorem knownDependsOn_mem {agentId d : String} (h : d ∈ knownDependsOn agents agentId) :
    d ∈ agentIds agents := by
  unfold knownDependsOn at h
  cases hf : agents.find? fun a => a.id = agentId with
  | none => simp [hf] at h
  | some a =>
    rw [hf] at h
    simpa using (List.mem_filter.mp h).2

/-- The search over the map ends within its bound. -/
theorem search_cases (agents : List AgentRecord) :
    (∃ c, searchAll (knownDependsOn agents) (bound (knownDependsOn agents) (agentIds agents))
        (agentIds agents) (fun _ => .white) = some (.error c) ∧
      IsCycle (knownDependsOn agents) c) ∨
    ∃ colour, searchAll (knownDependsOn agents)
        (bound (knownDependsOn agents) (agentIds agents)) (agentIds agents) (fun _ => .white) =
        some (.ok colour) ∧
      Settled (knownDependsOn agents) colour ∧ ∀ x ∈ agentIds agents, colour x = .black := by
  have hstart : Settled (knownDependsOn agents) fun _ => .white := by
    refine ⟨⟨[], ?_, ListSplit.atEach_nil⟩, ?_⟩
    · intro x
      simp
    · intro x hx
      cases hx
  have hU : ∀ a, ∀ d ∈ knownDependsOn agents a, d ∈ agentIds agents := fun a d hd =>
    knownDependsOn_mem hd
  rcases searchAll_spec hU hstart (fun x (hx : x ∈ agentIds agents) => hx) with
    hfound | ⟨colour, hr, hset, hall, -⟩
  · exact .inl hfound
  · exact .inr ⟨colour, hr, hset, hall⟩

/-- The search reports a cycle, or the agents have ranks. -/
theorem findDependencyCycle_cases (agents : List AgentRecord) :
    (findDependencyCycle agents = [] ∧
      ∃ rank : String → ℕ, ∀ x, ∀ d ∈ knownDependsOn agents x, rank d < rank x) ∨
    (findDependencyCycle agents ≠ [] ∧
      IsCycle (knownDependsOn agents) (findDependencyCycle agents)) := by
  unfold findDependencyCycle
  rcases search_cases agents with ⟨c, hr, hc⟩ | ⟨colour, hr, hset, hall⟩
  · rw [hr]
    refine .inr ⟨?_, hc⟩
    obtain ⟨⟨v, middle, rfl⟩, _⟩ := hc
    simp
  · rw [hr]
    obtain ⟨l, hl, hord⟩ := hset.finished
    refine .inl ⟨rfl, l.idxOf, ?_⟩
    intro x d hd
    apply hord.idxOf_lt _ hd
    apply (hl x).mp
    apply hall
    unfold knownDependsOn at hd
    cases hf : agents.find? fun a => a.id = x with
    | none => simp [hf] at hd
    | some a =>
      have hid : a.id = x := by simpa using List.find?_some hf
      exact hid ▸ List.mem_map_of_mem (List.mem_of_find?_eq_some hf)

theorem findDependencyCycle_eq_nil_iff : findDependencyCycle agents = [] ↔
    ∃ rank : String → ℕ, ∀ x, ∀ d ∈ knownDependsOn agents x, rank d < rank x := by
  rcases findDependencyCycle_cases agents with ⟨hnil, hrank⟩ | ⟨hne, hcycle⟩
  · exact ⟨fun _ => hrank, fun _ => hnil⟩
  · refine ⟨fun h => absurd h hne, ?_⟩
    rintro ⟨rank, hrank⟩
    exact (hcycle.not_ranked hrank).elim

/-- `d` is listed as a prerequisite of the agent with the id `x`, and is an agent itself. -/
def Prerequisite (agents : List AgentRecord) (x d : String) : Prop :=
  (∃ a, agents.find? (fun a => a.id = x) = some a ∧ d ∈ a.body.dependsOn) ∧ d ∈ agentIds agents

theorem prerequisite_iff {x d : String} :
    Prerequisite agents x d ↔ d ∈ knownDependsOn agents x := by
  unfold Prerequisite knownDependsOn
  cases hf : agents.find? fun a => a.id = x with
  | none => simp
  | some a => simp

/-- The search always ends. It finds a cycle exactly if there is one, and what it returns is a
closed walk along the prerequisites. -/
theorem dependency_cycle_search (agents : List AgentRecord) :
    (∃ r, ∀ k, searchAll (knownDependsOn agents)
      (bound (knownDependsOn agents) (agentIds agents) + k) (agentIds agents) (fun _ => .white) =
        some r) ∧
    (findDependencyCycle agents ≠ [] ↔ ∃ v, Relation.TransGen (Prerequisite agents) v v) ∧
    (findDependencyCycle agents = [] ∨
      ∃ v middle, findDependencyCycle agents = v :: (middle ++ [v]) ∧
        (findDependencyCycle agents).IsChain (Prerequisite agents)) := by
  have hedge : Prerequisite agents = fun a b => b ∈ knownDependsOn agents a := by
    funext x d
    exact propext prerequisite_iff
  rw [hedge]
  refine ⟨?_, ?_, ?_⟩
  · rcases search_cases agents with ⟨c, hr, -⟩ | ⟨colour, hr, -, -⟩
    · exact ⟨_, fun k => searchAll_more k hr⟩
    · exact ⟨_, fun k => searchAll_more k hr⟩
  · rcases findDependencyCycle_cases agents with ⟨hnil, rank, hrank⟩ | ⟨hne, hcycle⟩
    · refine iff_of_false (not_not.mpr hnil) ?_
      rintro ⟨v, hv⟩
      exact acyclic_of_ranked hrank v hv
    · exact iff_of_true hne hcycle.transGen
  · rcases findDependencyCycle_cases agents with ⟨hnil, -⟩ | ⟨-, ⟨v, middle, heq⟩, hchain⟩
    · exact .inl hnil
    · exact .inr ⟨v, middle, heq, hchain⟩

end Cycles

structure Consistent (S : Service) : Prop where
  tools : ∀ a ∈ activeAgents S, ∀ r ∈ a.body.toolRefs, r.toolId ∈ activeTools S
  dependsOn : ∀ a ∈ activeAgents S, ∀ d ∈ a.body.dependsOn, d ∈ agentIds (activeAgents S)
  excludes : ∀ a ∈ activeAgents S, ∀ x ∈ a.body.excludes, x.agentId ∈ agentIds (activeAgents S)
  compoundOf : ∀ a ∈ activeAgents S, ∀ m ∈ a.body.compoundOf, m ∈ agentIds (activeAgents S)
  priorities : ∀ a ∈ activeAgents S, (a.body.excludes.map ExclusionRef.priority).Nodup
  ranked : ∃ rank : String → ℕ, ∀ x, ∀ d ∈ knownDependsOn (activeAgents S) x, rank d < rank x

theorem unresolved_eq_nil {refs known : List String} {message : String → String} :
    unresolved refs known message = [] ↔ ∀ r ∈ refs, r ∈ known := by
  simp [unresolved, List.filter_eq_nil_iff]

theorem agentViolations_eq_nil {agent : AgentRecord} {agents : List AgentRecord}
    {tools : List String} : agentViolations agent agents tools = [] ↔
      (∀ r ∈ agent.body.toolRefs, r.toolId ∈ tools) ∧
      (∀ d ∈ agent.body.dependsOn, d ∈ agentIds agents) ∧
      (∀ x ∈ agent.body.excludes, x.agentId ∈ agentIds agents) ∧
      (∀ m ∈ agent.body.compoundOf, m ∈ agentIds agents) ∧
      (agent.body.excludes.map ExclusionRef.priority).Nodup := by
  have hpri : (if (agent.body.excludes.map ExclusionRef.priority).Nodup then []
      else ["agent '" ++ agent.id ++ "' has duplicate exclusion priorities — " ++
        "tie-break is ambiguous"]) = [] ↔
      (agent.body.excludes.map ExclusionRef.priority).Nodup := by
    by_cases hn : (agent.body.excludes.map ExclusionRef.priority).Nodup
    · simp [hn]
    · simp [hn]
  unfold agentViolations
  simp only [List.append_eq_nil_iff, unresolved_eq_nil, hpri, List.forall_mem_map, and_assoc]

theorem cycleViolation_eq_nil {agents : List AgentRecord} :
    cycleViolation agents = [] ↔ findDependencyCycle agents = [] := by
  unfold cycleViolation
  cases findDependencyCycle agents <;> simp

theorem checkIntegrity_ok_iff (S : Service) : checkIntegrity S = .ok () ↔ Consistent S := by
  have hok : checkIntegrity S = .ok () ↔ violations S = [] := by
    unfold checkIntegrity
    cases violations S <;> simp
  rw [hok, violations, List.append_eq_nil_iff, List.flatMap_eq_nil_iff, cycleViolation_eq_nil,
    findDependencyCycle_eq_nil_iff]
  simp only [agentViolations_eq_nil]
  constructor
  · rintro ⟨h, hr⟩
    exact ⟨fun a ha => (h a ha).1, fun a ha => (h a ha).2.1, fun a ha => (h a ha).2.2.1,
      fun a ha => (h a ha).2.2.2.1, fun a ha => (h a ha).2.2.2.2, hr⟩
  · intro h
    exact ⟨fun a ha => ⟨h.tools a ha, h.dependsOn a ha, h.excludes a ha, h.compoundOf a ha,
      h.priorities a ha⟩, h.ranked⟩

def planAgent (a : AgentRecord) : RouterPlan.AgentRecord :=
  ⟨a.id, a.body.dependsOn, a.body.excludes.map fun x => ⟨x.agentId, (x.priority : ℤ)⟩⟩

theorem find_active (S : Service) {agentId : String} (h : agentId ∈ agentIds (activeAgents S)) :
    (activeAgents S).find? (fun a => a.id = agentId) = getOptional S.agents agentId ∧
      ∃ a ∈ activeAgents S, a.id = agentId ∧ getOptional S.agents agentId = some a := by
  obtain ⟨a, ha, rfl⟩ := List.mem_map.mp h
  have hg := ((mem_listActive S.agentsKeyed).mp ha).1
  refine ⟨?_, a, ha, rfl, hg⟩
  rw [hg]
  cases hf : (activeAgents S).find? fun b => b.id = a.id with
  | none => exact absurd (List.find?_eq_none.mp hf a ha) (by simp)
  | some b =>
    have hid : b.id = a.id := by simpa using List.find?_some hf
    rw [List.inj_on_of_nodup_map (listActive_nodup S.agentsKeyed)
      (List.mem_of_find?_eq_some hf) ha hid]

theorem knownDependsOn_active {S : Service} (h : Consistent S) {a : AgentRecord}
    (ha : a ∈ activeAgents S) : knownDependsOn (activeAgents S) a.id = a.body.dependsOn := by
  have hg := ((mem_listActive S.agentsKeyed).mp ha).1
  have hf := (find_active S (List.mem_map_of_mem ha)).1
  unfold knownDependsOn
  rw [hf, hg]
  apply List.filter_eq_self.mpr
  intro d hd
  simpa using h.dependsOn a ha d hd

theorem Consistent.planRanked {S : Service} (h : Consistent S) :
    ∃ rank : String → ℕ, ∀ a ∈ (activeAgents S).map planAgent, ∀ d ∈ a.dependsOn,
      rank d < rank a.id := by
  obtain ⟨rank, hrank⟩ := h.ranked
  refine ⟨rank, ?_⟩
  intro p hp d hd
  obtain ⟨a, ha, rfl⟩ := List.mem_map.mp hp
  exact hrank a.id d ((knownDependsOn_active h ha).symm ▸ hd)

def registry (S : Service) (h : checkIntegrity S = .ok ()) : RouterPlan.CheckedRegistry :=
  ⟨⟨(activeAgents S).map planAgent⟩, ((checkIntegrity_ok_iff S).mp h).planRanked⟩

theorem registry_get (S : Service) (h : checkIntegrity S = .ok ()) {agentId : String}
    (ha : agentId ∈ agentIds (activeAgents S)) :
    (registry S h).get agentId = (getOptional S.agents agentId).map planAgent := by
  rw [← (find_active S ha).1]
  exact List.find?_map ..

end RegistryService
