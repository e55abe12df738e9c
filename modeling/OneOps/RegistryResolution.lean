import OneOps.ExceptLoops
import OneOps.RegistryService

/-! What the registry resolves for an active agent: the tools that it references and the
agents that it needs first. The check of the registry looks at the ids of the references,
and the tools are then looked up by their version too. -/
namespace RegistryResolution

open VersionedRegistry
open RegistryReads
open RegistryService
open DepthFirst

def resolveAgentTools (S : Service) (agentId : String) :
    Except RegistryError (List ToolRecord) := do
  let agent ← get S.agents agentId none
  agent.body.toolRefs.mapM fun ref => get S.tools ref.toolId (some ref.version)

/-- The prerequisites that the store has for an agent; `none` where the lookup raises. -/
def storedDeps (S : Service) (agentId : String) : Option (List String) :=
  (getOptional S.agents agentId).map fun a => a.body.dependsOn

def expandWithDeps (S : Service) (agentIds : List String) : Option (List String) :=
  postOrder ⟨storedDeps S, false, true⟩ S.agents.envelopes.length agentIds

/-- What is promised of an active agent: its tools are all found in an active version, and
its prerequisites are all found. -/
structure Resolvable (S : Service) (agent : AgentRecord) : Prop where
  tools : ∃ tools, resolveAgentTools S agent.id = .ok tools ∧ ∀ t ∈ tools, t.status = .active
  prerequisites : expandWithDeps S [agent.id] ≠ none

def NamesActive (S : Service) (ref : ToolRef) : Prop :=
  ∃ e, read S.tools ref.toolId = some e ∧
    (e.activeVersion = some ref.version ∨ statusOf e ref.version = some .active)

section Version

variable {β : Type*} {D : Store β}

theorem get_version {recordId : String} {v : ℕ} {r : RegistryRecord β} :
    get D recordId (some v) = .ok r ↔
      ∃ e, read D recordId = some e ∧ (e.versions.find? fun p => p.1 = v) = some (v, r) := by
  unfold RegistryReads.get
  cases hr : read D recordId with
  | none => simp
  | some e =>
    simp only [Option.some_or, Option.some.injEq, exists_eq_left']
    cases hf : e.versions.find? fun p => p.1 = v with
    | none => simp
    | some p =>
      have hv : p.1 = v := by simpa using List.find?_some hf
      simp only [Except.ok.injEq, Option.some.injEq]
      constructor
      · rintro rfl
        rw [← hv]
      · rintro rfl
        rfl

theorem get_active_iff {recordId : String} {v : ℕ} :
    (∃ r, get D recordId (some v) = .ok r ∧ r.status = .active) ↔
      ∃ e, read D recordId = some e ∧ statusOf e v = some .active := by
  constructor
  · rintro ⟨r, hget, hs⟩
    obtain ⟨e, hr, hf⟩ := get_version.mp hget
    exact ⟨e, hr, by rw [statusOf, hf, Option.map_some, hs]⟩
  · rintro ⟨e, hr, hs⟩
    obtain ⟨p, hf, hp⟩ := Option.map_eq_some_iff.mp hs
    have hv : p.1 = v := by simpa using List.find?_some hf
    exact ⟨p.2, get_version.mpr ⟨e, hr, by rw [hf, ← hv]⟩, hp⟩

theorem statusOf_pointed {r : RegistryRecord β} (hr : getOptional D r.id = some r)
    (hs : r.status = .active) {e : Envelope β} {v : ℕ} (he : read D r.id = some e)
    (hv : e.activeVersion = some v) : statusOf e v = some .active := by
  unfold getOptional RegistryReads.get at hr
  simp only [he, hv, Option.none_or] at hr
  cases hf : e.versions.find? fun p => p.1 = v with
  | none => simp [hf] at hr
  | some p =>
    simp only [hf, Option.some.injEq] at hr
    rw [statusOf, hf, Option.map_some, hr, hs]

end Version

section Checked

variable {S : Service}

theorem get_active {agent : AgentRecord} (ha : agent ∈ activeAgents S) :
    get S.agents agent.id none = .ok agent := by
  have hg := ((mem_listActive S.agentsKeyed).mp ha).1
  unfold getOptional at hg
  cases h : get S.agents agent.id none with
  | error e => simp [h] at hg
  | ok a =>
    simp only [h, Option.some.injEq] at hg
    rw [hg]

theorem namesActive_iff (h : Consistent S) {agent : AgentRecord} (ha : agent ∈ activeAgents S)
    {ref : ToolRef} (href : ref ∈ agent.body.toolRefs) :
    (∃ t, get S.tools ref.toolId (some ref.version) = .ok t ∧ t.status = .active) ↔
      NamesActive S ref := by
  rw [get_active_iff]
  constructor
  · rintro ⟨e, he, hs⟩
    exact ⟨e, he, .inr hs⟩
  · rintro ⟨e, he, hv | hs⟩
    · -- the check has found an active version of the tool, and it is the one pointed at
      obtain ⟨t, ht, hid⟩ := List.mem_map.mp (h.tools agent ha ref href)
      obtain ⟨hget, hstatus⟩ := (mem_listActive S.toolsKeyed).mp ht
      rw [← hid] at he
      exact ⟨e, hid ▸ he, statusOf_pointed hget hstatus he hv⟩
    · exact ⟨e, he, hs⟩

theorem resolveAgentTools_iff (h : Consistent S) {agent : AgentRecord}
    (ha : agent ∈ activeAgents S) :
    (∃ tools, resolveAgentTools S agent.id = .ok tools ∧ ∀ t ∈ tools, t.status = .active) ↔
      ∀ ref ∈ agent.body.toolRefs, NamesActive S ref := by
  have heq : resolveAgentTools S agent.id =
      agent.body.toolRefs.mapM fun ref => get S.tools ref.toolId (some ref.version) := by
    rw [resolveAgentTools, get_active ha]
    rfl
  rw [heq, ExceptLoops.exists_mapM_ok]
  exact forall₂_congr fun ref href => namesActive_iff h ha href

theorem active_of_reach (h : Consistent S) {a x : String} (ha : a ∈ agentIds (activeAgents S))
    (hr : Relation.ReflTransGen (Dep (storedDeps S)) a x) : x ∈ agentIds (activeAgents S) := by
  induction hr with
  | refl => exact ha
  | tail _ hd ih =>
    obtain ⟨ds, hds, hmem⟩ := hd
    obtain ⟨_, agent, hagent, _, hget⟩ := find_active S ih
    rw [storedDeps, hget, Option.map_some, Option.some.injEq] at hds
    exact h.dependsOn agent hagent _ (hds ▸ hmem)

theorem storedDeps_active {a : String} (ha : a ∈ agentIds (activeAgents S)) :
    storedDeps S a ≠ none := by
  obtain ⟨_, agent, _, _, hget⟩ := find_active S ha
  simp [storedDeps, hget]

/-- The prerequisites of active agents are found, whatever else the store holds. -/
theorem expandWithDeps_found (h : Consistent S) {ids : List String}
    (hids : ∀ a ∈ ids, a ∈ agentIds (activeAgents S)) : expandWithDeps S ids ≠ none := by
  intro hnone
  have hU : ∀ a, storedDeps S a ≠ none → a ∈ S.agents.envelopes.map Envelope.id := by
    intro a ha
    obtain ⟨agent, hg⟩ := Option.ne_none_iff_exists'.mp (mt Option.map_eq_none_iff.mpr ha)
    obtain ⟨e, _, hread, _⟩ := getOptional_cases hg
    have hid : e.id = a := by simpa using List.find?_some hread
    exact hid ▸ List.mem_map_of_mem (read_mem hread)
  rw [expandWithDeps, ← @List.length_map _ _ S.agents.envelopes Envelope.id] at hnone
  obtain ⟨a, ha, x, hx, ⟨hc, _⟩ | ⟨_, hmiss⟩⟩ :=
    postOrder_none (P := ⟨storedDeps S, false, true⟩) (U := S.agents.envelopes.map Envelope.id)
      hU hnone
  · cases hc
  · exact storedDeps_active (active_of_reach h (hids a ha) hx) hmiss

end Checked

/-- For every registry that passes its check: all active agents are resolvable exactly if
each of their tool references names an active version. -/
theorem active_resolvable_iff (S : Service) (hS : checkIntegrity S = .ok ()) :
    (∀ agent ∈ activeAgents S, Resolvable S agent) ↔
      ∀ agent ∈ activeAgents S, ∀ ref ∈ agent.body.toolRefs, NamesActive S ref := by
  have hc := (checkIntegrity_ok_iff S).mp hS
  refine forall₂_congr fun agent ha => ?_
  constructor
  · intro h
    exact (resolveAgentTools_iff hc ha).mp h.tools
  · intro h
    refine ⟨(resolveAgentTools_iff hc ha).mpr h, expandWithDeps_found hc ?_⟩
    intro a hmem
    rw [List.mem_singleton.mp hmem]
    exact List.mem_map_of_mem ha

def lookupTool (version : ℕ) : ToolRecord :=
  ⟨"get_ticket", version, .draft, ⟨"tickets:get", .read, [⟨"ticket_id", true⟩], true, []⟩⟩

def lookupAgent (version : ℕ) : AgentRecord :=
  let plain := readAgent "uc_ticket" [] []
  { plain with body := { plain.body with toolRefs := [⟨"get_ticket", version⟩] } }

theorem lookupAgent_rules (version : ℕ) : CrossFieldRules (lookupAgent version) := by
  have h : CrossFieldRules (readAgent "uc_ticket" [] []) := readAgent_rules (by decide) (by decide)
  exact ⟨h.notOwnPrerequisite, h.notOwnExclusion, h.notOwnMember, h.hooked, fun f hf => by cases hf⟩

theorem lookupTool_rules (version : ℕ) : ActionRules (lookupTool version) := by
  intro h
  cases h

def replacedTool (version : ℕ) : Service :=
  Service.after [.create (lookupAgent version), .activate "uc_ticket" 1]
    [.create (lookupTool 1), .activate "get_ticket" 1, .update (lookupTool 2),
      .activate "get_ticket" 2]
    (by
      intro c hc a hb
      simp only [List.mem_cons, List.not_mem_nil, or_false] at hc
      rcases hc with rfl | rfl <;> cases hb
      exact lookupAgent_rules version)
    (by
      intro c hc t hb
      simp only [List.mem_cons, List.not_mem_nil, or_false] at hc
      rcases hc with rfl | rfl | rfl | rfl <;> cases hb <;> exact lookupTool_rules _)

theorem current_version_resolvable :
    checkIntegrity (replacedTool 2) = .ok () ∧
      ∀ agent ∈ activeAgents (replacedTool 2), Resolvable (replacedTool 2) agent := by
  have hcheck : checkIntegrity (replacedTool 2) = .ok () := by decide +kernel
  have hrefs : (activeAgents (replacedTool 2)).map (fun a => a.body.toolRefs) =
      [[⟨"get_ticket", 2⟩]] := by decide +kernel
  have hpoint : (read (replacedTool 2).tools "get_ticket").bind Envelope.activeVersion =
      some 2 := by
    decide +kernel
  refine ⟨hcheck, (active_resolvable_iff (replacedTool 2) hcheck).mpr ?_⟩
  intro agent ha ref href
  have hmem : agent.body.toolRefs ∈ [[(⟨"get_ticket", 2⟩ : ToolRef)]] := by
    rw [← hrefs]
    exact List.mem_map_of_mem ha
  rw [List.mem_singleton.mp hmem] at href
  rw [List.mem_singleton.mp href]
  obtain ⟨e, he, hv⟩ := Option.bind_eq_some_iff.mp hpoint
  exact ⟨e, he, .inl hv⟩

/-- The registry is found consistent, and an agent gets a retired tool, or none at all. -/
theorem replaced_version_resolved :
    (checkIntegrity (replacedTool 1) = .ok () ∧
      (resolveAgentTools (replacedTool 1) "uc_ticket").map
        (fun ts => ts.map RegistryRecord.status) =
        .ok [.retired] ∧
      ¬ ∀ agent ∈ activeAgents (replacedTool 1), Resolvable (replacedTool 1) agent) ∧
    (checkIntegrity (replacedTool 7) = .ok () ∧
      (resolveAgentTools (replacedTool 7) "uc_ticket").map
        (fun ts => ts.map RegistryRecord.status) =
        .error (.notFound "tools/get_ticket has no version 7")) := by
  have hretired : (resolveAgentTools (replacedTool 1) "uc_ticket").map
      (fun ts => ts.map RegistryRecord.status) = .ok [.retired] := by decide +kernel
  have hactive : "uc_ticket" ∈ agentIds (activeAgents (replacedTool 1)) := by decide +kernel
  refine ⟨⟨by decide +kernel, hretired, fun h => ?_⟩, by decide +kernel, by decide +kernel⟩
  obtain ⟨agent, ha, hid⟩ := List.mem_map.mp hactive
  obtain ⟨tools, htools, hall⟩ := (h agent ha).tools
  rw [hid] at htools
  rw [htools] at hretired
  have hstatus : tools.map RegistryRecord.status = [.retired] := Except.ok.inj hretired
  have : ∀ s ∈ tools.map RegistryRecord.status, s = .active := by
    intro s hs
    obtain ⟨t, ht, rfl⟩ := List.mem_map.mp hs
    exact hall t ht
  rw [hstatus] at this
  exact absurd (this .retired List.mem_cons_self) (by decide)

end RegistryResolution
