import Mathlib.Data.List.Sort
import OneOps.FulfillmentContracts

/-! Who may approve a request. The approval matrix is matched top-down, the first stage
of the matched policy names the approvers, and the service desk stands in when the stage
names nobody. Keys that a JSON row of the matrix may leave out are optional fields. -/
namespace FulfillmentApprovers

open FulfillmentContracts

/-- The values of the column `attribute`. -/
inductive GroupAttribute where
  | role | department
  deriving DecidableEq, Repr

/-- A row of `itsm.group_role_map`. -/
structure GroupRole where
  ownerGroup : String
  column : GroupAttribute
  value : String

structure SysUser where
  tenantId : String
  userId : String
  role : Option String
  department : Option String
  managerId : Option String
  isActive : Bool

structure Approver where
  type : Option String
  group : Option String
  id : Option String

structure Stage where
  approver : Option Approver
  approvalType : Option String
  rule : Option String
  blockSelfApproval : Option Bool

structure Policy where
  policyId : String
  conditions : Option JsonObject
  required : Option Bool
  stages : Option (List Stage)
  description : Option String

structure PolicyRow where
  tenantId : String
  priority : ℕ
  enabled : Bool
  policy : Policy

structure Tables where
  groupRoleMap : List GroupRole
  sysUser : List SysUser
  approvalPolicy : List PolicyRow

def staffs (g : GroupRole) (u : SysUser) : Bool :=
  (g.column = .role ∧ u.role = some g.value) ∨
    (g.column = .department ∧ u.department = some g.value)

def resolveGroupMembers (ownerGroup tenantId : String) (db : Tables) : List String :=
  ((db.groupRoleMap.filter fun g => g.ownerGroup = ownerGroup).flatMap fun g =>
    (db.sysUser.filter fun u => staffs g u ∧ u.tenantId = tenantId ∧ u.isActive).map
      (·.userId)).insertionSort (· ≤ ·)

/-- `fetchrow` takes the first row of the join. -/
def resolveManager (requesterId tenantId : String) (db : Tables) : Option String :=
  ((db.sysUser.filter fun u => u.tenantId = tenantId ∧ u.userId = requesterId).flatMap fun u =>
    (db.sysUser.filter fun m =>
      m.tenantId = u.tenantId ∧ u.managerId = some m.userId ∧ m.isActive).map (·.userId)).head?

abbrev Item := List (String × Option String)

def Item.get (item : Item) (key : String) : Option String := (item.lookup key).join

def attributeEquals : Option String → Json → Bool
  | some s, .str t => s = t
  | none, .null => true
  | _, _ => false

def Policy.matchOf (p : Policy) : JsonObject := p.conditions.getD []
def Policy.stagesOf (p : Policy) : List Stage := p.stages.getD []

def matchPolicy (attrs : Item) (policies : List Policy) : Option Policy :=
  policies.find? fun p => p.matchOf.all fun kv => attributeEquals (attrs.get kv.1) kv.2

/-- Priority ascending, then policy id; the query does not select the description. -/
def loadPolicies (tenantId : String) (db : Tables) : List Policy :=
  ((db.approvalPolicy.filter fun r => r.tenantId = tenantId ∧ r.enabled).insertionSort
    fun a b => a.priority < b.priority ∨
      (a.priority = b.priority ∧ a.policy.policyId ≤ b.policy.policyId)).map
    fun r => { r.policy with description := none }

structure ApprovalDecision where
  required : Bool
  policyId : String
  approverType : String
  approvalType : String
  approvers : List String
  rule : String
  reason : String
  fellBack : Bool
  deriving DecidableEq, Repr

def ApprovalDecision.resolved (d : ApprovalDecision) : Bool := !d.required || !d.approvers.isEmpty

/-- Python truth of an optional text: absent and empty are both false. -/
def truthy (s : Option String) : Option String := s.filter (· ≠ "")

def Stage.approverOf (st : Stage) : Approver := st.approver.getD ⟨none, none, none⟩

def isServiceDesk (st : Stage) : Bool :=
  st.approverOf.type = some "service_desk" ∧ (truthy st.approverOf.group).isSome

def serviceDeskStage (policies : List Policy) : Option Stage :=
  policies.findSome? fun p => if p.matchOf.isEmpty then p.stagesOf.find? isServiceDesk else none

def resolveStage (approver : Approver) (item : Item) (requesterId tenantId : String)
    (db : Tables) : List String :=
  if approver.type = some "owning_group" then
    match truthy (item.get "owner_group") with
    | some g => resolveGroupMembers g tenantId db
    | none => []
  else if approver.type = some "manager_of_requester" then
    (truthy (resolveManager requesterId tenantId db)).toList
  else if approver.type = some "group" then
    match truthy (truthy approver.id <|> approver.group) with
    | some g => resolveGroupMembers g tenantId db
    | none => []
  else if approver.type = some "user" then
    (truthy approver.id).toList
  else if approver.type = some "service_desk" then
    match truthy approver.group with
    | some g => resolveGroupMembers g tenantId db
    | none => []
  else []

def emptyStage : Stage := ⟨none, none, none, none⟩

def noMatch : Policy :=
  ⟨"<no-match>", none, some true, some [], some "no matching policy (catch-all missing)"⟩

def matchedRule (item : Item) (policies : List Policy) : Policy :=
  (matchPolicy item policies).getD noMatch

/-- The first stage of the rule, else the service-desk stage, else `{}`. -/
def stageOf (rule : Policy) (policies : List Policy) : Stage :=
  match rule.stagesOf with
  | st :: _ => st
  | [] => (serviceDeskStage policies).getD emptyStage

def Stage.blocksSelf (st : Stage) : Bool := st.blockSelfApproval.getD true

def guarded (blockSelf : Bool) (requesterId : String) (users : List String) : List String :=
  users.filter fun a => !(blockSelf && a == requesterId)

def resolveApprovers (item : Item) (requesterId tenantId : String) (db : Tables)
    (policies? : Option (List Policy)) : ApprovalDecision :=
  let policies := policies?.getD (loadPolicies tenantId db)
  let rule := matchedRule item policies
  let reason := (truthy rule.description).getD rule.policyId
  if rule.required.getD true then
    let stage := stageOf rule policies
    let approverType := stage.approverOf.type.getD ""
    let approvalType := stage.approvalType.getD ""
    let ruleName := stage.rule.getD "any_one"
    let approvers := guarded stage.blocksSelf requesterId
      (resolveStage stage.approverOf item requesterId tenantId db)
    if approvers.isEmpty ∧ approverType ≠ "service_desk" then
      match serviceDeskStage policies with
      | none =>
        ⟨true, rule.policyId, approverType, approvalType, approvers, ruleName, reason, false⟩
      | some sd =>
        -- the guard of the matched stage, not of the service-desk stage, filters here
        ⟨true, rule.policyId, "service_desk", sd.approvalType.getD approvalType,
          guarded stage.blocksSelf requesterId
            (resolveGroupMembers (sd.approverOf.group.getD "") tenantId db),
          ruleName, reason, true⟩
    else ⟨true, rule.policyId, approverType, approvalType, approvers, ruleName, reason, false⟩
  else ⟨false, rule.policyId, "none", "", [], "", reason, false⟩

def Staffs (db : Tables) (tenantId group u : String) : Prop :=
  ∃ g ∈ db.groupRoleMap, g.ownerGroup = group ∧ ∃ x ∈ db.sysUser, staffs g x ∧
    x.tenantId = tenantId ∧ x.isActive ∧ x.userId = u

theorem mem_resolveGroupMembers {group tenantId u : String} {db : Tables} :
    u ∈ resolveGroupMembers group tenantId db ↔ Staffs db tenantId group u := by
  simp only [resolveGroupMembers, List.mem_insertionSort, List.mem_flatMap, List.mem_filter,
    List.mem_map, decide_eq_true_eq, Staffs]
  constructor
  · rintro ⟨g, ⟨hg, hk⟩, x, ⟨hx, hs, ht, ha⟩, rfl⟩
    exact ⟨g, hg, hk, x, hx, hs, ht, ha, rfl⟩
  · rintro ⟨g, hg, hk, x, hx, hs, ht, ha, rfl⟩
    exact ⟨g, ⟨hg, hk⟩, x, ⟨hx, hs, ht, ha⟩, rfl⟩

inductive Names (db : Tables) (item : Item) (requesterId tenantId : String) (a : Approver) :
    String → Prop where
  | owningGroup {g u : String} (ht : a.type = some "owning_group")
      (hg : truthy (item.get "owner_group") = some g) (hu : Staffs db tenantId g u) :
      Names db item requesterId tenantId a u
  | manager {u : String} (ht : a.type = some "manager_of_requester")
      (hu : truthy (resolveManager requesterId tenantId db) = some u) :
      Names db item requesterId tenantId a u
  | group {g u : String} (ht : a.type = some "group")
      (hg : truthy (truthy a.id <|> a.group) = some g) (hu : Staffs db tenantId g u) :
      Names db item requesterId tenantId a u
  | user {u : String} (ht : a.type = some "user") (hu : truthy a.id = some u) :
      Names db item requesterId tenantId a u
  | serviceDesk {g u : String} (ht : a.type = some "service_desk")
      (hg : truthy a.group = some g) (hu : Staffs db tenantId g u) :
      Names db item requesterId tenantId a u

section

variable {db : Tables} {item : Item} {requesterId tenantId : String} {a : Approver}

theorem mem_groupOf {s : Option String} {u : String} :
    (u ∈ match s with
      | some g => resolveGroupMembers g tenantId db
      | none => []) ↔ ∃ g, s = some g ∧ Staffs db tenantId g u := by
  cases s with
  | none => simp
  | some g => simp [mem_resolveGroupMembers]

theorem mem_resolveStage {u : String} :
    u ∈ resolveStage a item requesterId tenantId db ↔ Names db item requesterId tenantId a u := by
  unfold resolveStage
  constructor
  · intro h
    split_ifs at h with h₁ h₂ h₃ h₄ h₅
    · obtain ⟨g, hg, hu⟩ := mem_groupOf.mp h
      exact .owningGroup h₁ hg hu
    · exact .manager h₂ (Option.mem_toList.mp h)
    · obtain ⟨g, hg, hu⟩ := mem_groupOf.mp h
      exact .group h₃ hg hu
    · exact .user h₄ (Option.mem_toList.mp h)
    · obtain ⟨g, hg, hu⟩ := mem_groupOf.mp h
      exact .serviceDesk h₅ hg hu
    · cases h
  · intro h
    cases h with
    | owningGroup ht hg hu =>
      simp only [ht, if_true]
      exact mem_groupOf.mpr ⟨_, hg, hu⟩
    | manager ht hu => simp [ht, hu]
    | group ht hg hu =>
      simp only [ht, Option.some.injEq, String.reduceEq, if_false, if_true]
      exact mem_groupOf.mpr ⟨_, hg, hu⟩
    | user ht hu => simp [ht, hu]
    | serviceDesk ht hg hu =>
      simp only [ht, Option.some.injEq, String.reduceEq, if_false, if_true]
      exact mem_groupOf.mpr ⟨_, hg, hu⟩

end

theorem mem_guarded {b : Bool} {requesterId u : String} {users : List String} :
    u ∈ guarded b requesterId users ↔ u ∈ users ∧ (b = true → u ≠ requesterId) := by
  cases b <;> simp [guarded]

section Decision

variable (item : Item) (requesterId tenantId : String) (db : Tables)

def Eligible (st : Stage) (u : String) : Prop :=
  Names db item requesterId tenantId st.approverOf u ∧ (st.blocksSelf = true → u ≠ requesterId)

def DeskEligible (st sd : Stage) (u : String) : Prop :=
  Staffs db tenantId (sd.approverOf.group.getD "") u ∧ (st.blocksSelf = true → u ≠ requesterId)

/-- The four ways a decision comes about. -/
inductive Decides (policies : List Policy) (rule : Policy) (d : ApprovalDecision) : Prop where
  | selfService (hr : rule.required.getD true = false) (hd : d.required = false)
      (ha : d.approvers = [])
  | stage (hr : rule.required.getD true = true) (hd : d.required = true) (hf : d.fellBack = false)
      (ha : ∀ u, u ∈ d.approvers ↔ Eligible item requesterId tenantId db (stageOf rule policies) u)
      (hne : d.approvers ≠ [])
  | nobody (hr : rule.required.getD true = true) (hd : d.required = true) (ha : d.approvers = [])
      (hn : ∀ u, ¬ Eligible item requesterId tenantId db (stageOf rule policies) u)
      (hs : (stageOf rule policies).approverOf.type = some "service_desk" ∨
        serviceDeskStage policies = none)
  | desk (sd : Stage) (hr : rule.required.getD true = true) (hd : d.required = true)
      (hf : d.fellBack = true)
      (hn : ∀ u, ¬ Eligible item requesterId tenantId db (stageOf rule policies) u)
      (ht : (stageOf rule policies).approverOf.type ≠ some "service_desk")
      (hs : serviceDeskStage policies = some sd)
      (ha : ∀ u, u ∈ d.approvers ↔
        DeskEligible requesterId tenantId db (stageOf rule policies) sd u)

theorem getD_eq_iff {s : Option String} {t : String} (ht : t ≠ "") :
    s.getD "" = t ↔ s = some t := by
  cases s with
  | none => simp [ht.symm]
  | some x => simp

theorem resolveApprovers_decides (policies? : Option (List Policy)) :
    Decides item requesterId tenantId db (policies?.getD (loadPolicies tenantId db))
      (matchedRule item (policies?.getD (loadPolicies tenantId db)))
      (resolveApprovers item requesterId tenantId db policies?) := by
  unfold resolveApprovers
  generalize policies?.getD (loadPolicies tenantId db) = policies
  generalize hrule : matchedRule item policies = rule
  generalize hstage : stageOf rule policies = stage
  have hmem : ∀ u, u ∈ guarded stage.blocksSelf requesterId
      (resolveStage stage.approverOf item requesterId tenantId db) ↔
      Eligible item requesterId tenantId db stage u := by
    intro u
    rw [mem_guarded, mem_resolveStage]
    rfl
  have hnil : guarded stage.blocksSelf requesterId
      (resolveStage stage.approverOf item requesterId tenantId db) = [] →
      ∀ u, ¬ Eligible item requesterId tenantId db stage u := by
    intro h u hu
    rw [← hmem, h] at hu
    cases hu
  dsimp only
  rw [hrule, hstage]
  split_ifs with hreq hfall
  · obtain ⟨hempty, htype⟩ := hfall
    rw [List.isEmpty_iff] at hempty
    rw [ne_eq, getD_eq_iff (by decide)] at htype
    split
    · rename_i hs
      exact .nobody hreq rfl hempty (hstage ▸ hnil hempty) (.inr hs)
    · rename_i sd hs
      refine .desk sd hreq rfl rfl (hstage ▸ hnil hempty) (hstage ▸ htype) hs fun u => ?_
      rw [mem_guarded, mem_resolveGroupMembers, hstage]
      rfl
  · rw [not_and_or, not_ne_iff, getD_eq_iff (by decide), Bool.not_eq_true,
      List.isEmpty_eq_false_iff] at hfall
    by_cases hempty : guarded stage.blocksSelf requesterId
        (resolveStage stage.approverOf item requesterId tenantId db) = []
    · refine .nobody hreq rfl hempty (hstage ▸ hnil hempty) (.inl ?_)
      rw [hstage]
      exact hfall.resolve_left fun h => h hempty
    · exact .stage hreq rfl rfl (hstage ▸ hmem) hempty
  · exact .selfService (by simpa using hreq) rfl rfl

/-- A catch-all policy has a service-desk stage whose group has an active member other
than the requester. -/
def DeskStaffed (policies : List Policy) : Prop :=
  ∃ p ∈ policies, p.matchOf = [] ∧ ∃ st ∈ p.stagesOf,
    st.approverOf.type = some "service_desk" ∧ ∃ g u, st.approverOf.group = some g ∧
      Staffs db tenantId g u ∧ u ≠ requesterId

def supplier (policies : List Policy) (rule : Policy) (d : ApprovalDecision) : Stage :=
  if d.fellBack then (serviceDeskStage policies).getD emptyStage else stageOf rule policies

/-- Nobody approves for themselves unless the supplying stage allows it, and a staffed
service desk keeps every request from a dead end. -/
structure FailSafe (policies : List Policy) (rule : Policy) (d : ApprovalDecision) : Prop where
  guard : requesterId ∈ d.approvers → (supplier policies rule d).blockSelfApproval = some false
  resolved : DeskStaffed requesterId tenantId db policies → d.resolved = true

/-- When the matched stage leaves nobody, its guard must not be weaker than the desk's
over a desk that the requester is a member of, and if some desk is staffed, the stage must
not be a service-desk stage itself and the first desk of the matrix must be the staffed
one. -/
structure Covered (policies : List Policy) (stage : Stage) : Prop where
  guard : (∀ u, ¬ Names db item requesterId tenantId stage.approverOf u) →
    stage.approverOf.type ≠ some "service_desk" → stage.blockSelfApproval = some false →
    ∀ sd, serviceDeskStage policies = some sd → sd.blockSelfApproval ≠ some false →
      ¬ Staffs db tenantId (sd.approverOf.group.getD "") requesterId
  desk : (∀ u, ¬ Eligible item requesterId tenantId db stage u) →
    DeskStaffed requesterId tenantId db policies →
    stage.approverOf.type ≠ some "service_desk" ∧ ∃ sd u, serviceDeskStage policies = some sd ∧
      DeskEligible requesterId tenantId db stage sd u

theorem blocksSelf_eq_false {st : Stage} :
    st.blocksSelf = false ↔ st.blockSelfApproval = some false := by
  unfold Stage.blocksSelf
  cases st.blockSelfApproval <;> simp

end Decision

theorem failSafe_of_covered {item : Item} {requesterId tenantId : String} {db : Tables}
    {policies : List Policy} {rule : Policy} {d : ApprovalDecision}
    (hd : Decides item requesterId tenantId db policies rule d)
    (hc : rule.required.getD true = true →
      Covered item requesterId tenantId db policies (stageOf rule policies)) :
    FailSafe requesterId tenantId db policies rule d := by
  cases hd with
  | selfService hr hreq ha => exact ⟨fun h => by simp [ha] at h, fun _ => by
      simp [ApprovalDecision.resolved, hreq]⟩
  | stage hr hreq hf ha hne =>
    constructor
    · intro h
      have hb := (ha _).mp h
      rw [supplier, hf, if_neg (by simp), ← blocksSelf_eq_false]
      by_contra hblock
      exact hb.2 (by simpa using hblock) rfl
    · intro _
      simp [ApprovalDecision.resolved, hne]
  | nobody hr hreq ha hn hs =>
    refine ⟨fun h => by simp [ha] at h, fun hstaffed => ?_⟩
    obtain ⟨ht, sd, u, hsd, _⟩ := (hc hr).desk hn hstaffed
    rcases hs with hs | hs
    · exact absurd hs ht
    · rw [hs] at hsd
      cases hsd
  | desk sd hr hreq hf hn ht hs ha =>
    constructor
    · intro h
      obtain ⟨hstaff, hblock⟩ := (ha _).mp h
      have hfree : (stageOf rule policies).blocksSelf = false := by
        by_contra hb
        exact hblock (by simpa using hb) rfl
      rw [supplier, hf, if_pos rfl, hs, Option.getD_some]
      by_contra hsd
      refine (hc hr).guard ?_ ht (blocksSelf_eq_false.mp hfree) sd hs hsd hstaff
      exact fun u hu => hn u ⟨hu, fun hb => by simp [hfree] at hb⟩
    · intro hstaffed
      obtain ⟨_, sd', u, hsd', hu⟩ := (hc hr).desk hn hstaffed
      rw [hs] at hsd'
      cases hsd'
      have hmem := (ha u).mpr hu
      simp [ApprovalDecision.resolved, List.ne_nil_of_mem hmem]

theorem covered_of_failSafe {item : Item} {requesterId tenantId : String} {db : Tables}
    {policies : List Policy} {rule : Policy} {d : ApprovalDecision}
    (hd : Decides item requesterId tenantId db policies rule d)
    (hs : FailSafe requesterId tenantId db policies rule d)
    (hreq : rule.required.getD true = true) :
    Covered item requesterId tenantId db policies (stageOf rule policies) := by
  cases hd with
  | selfService hr => rw [hr] at hreq; cases hreq
  | stage _ _ _ ha hne =>
    obtain ⟨u, hu⟩ := List.exists_mem_of_ne_nil _ hne
    have hu := (ha u).mp hu
    exact ⟨fun hn => absurd hu.1 (hn u), fun hn => absurd hu (hn u)⟩
  | nobody _ hreq' hempty hn hdesk =>
    constructor
    · intro _ ht _ sd hsd
      rcases hdesk with hdesk | hdesk
      · exact absurd hdesk ht
      · rw [hdesk] at hsd
        cases hsd
    · intro _ hstaffed
      have := hs.resolved hstaffed
      simp [ApprovalDecision.resolved, hreq', hempty] at this
  | desk sd _ hreq' hf hn ht hsd ha =>
    constructor
    · intro _ _ hfree sd' hsd' hblock hstaff
      rw [hsd] at hsd'
      cases hsd'
      rw [← blocksSelf_eq_false] at hfree
      have hmem := (ha requesterId).mpr ⟨hstaff, fun hb => by simp [hfree] at hb⟩
      have := hs.guard hmem
      rw [supplier, hf, if_pos rfl, hsd, Option.getD_some] at this
      exact hblock this
    · intro _ hstaffed
      have := hs.resolved hstaffed
      simp only [ApprovalDecision.resolved, hreq', Bool.not_true, Bool.false_or, Bool.not_eq_true',
        List.isEmpty_eq_false_iff] at this
      obtain ⟨u, hu⟩ := List.exists_mem_of_ne_nil _ this
      exact ⟨ht, sd, u, hsd, (ha u).mp hu⟩

/-- For every matrix, item, requester and roster: the decision of a required rule is
fail-safe exactly when the service desk covers for its stage. -/
theorem resolve_failSafe_iff (item : Item) (requesterId tenantId : String) (db : Tables)
    (policies? : Option (List Policy)) :
    FailSafe requesterId tenantId db (policies?.getD (loadPolicies tenantId db))
        (matchedRule item (policies?.getD (loadPolicies tenantId db)))
        (resolveApprovers item requesterId tenantId db policies?) ↔
      ((matchedRule item (policies?.getD (loadPolicies tenantId db))).required.getD true = true →
        Covered item requesterId tenantId db (policies?.getD (loadPolicies tenantId db))
          (stageOf (matchedRule item (policies?.getD (loadPolicies tenantId db)))
            (policies?.getD (loadPolicies tenantId db)))) := by
  have hd := resolveApprovers_decides item requesterId tenantId db policies?
  exact ⟨covered_of_failSafe hd, failSafe_of_covered hd⟩

def annRow : SysUser := ⟨"t", "ann", some "desk", none, none, true⟩

def annTables : Tables := ⟨[⟨"GRP-DESK", .role, "desk"⟩], [annRow], []⟩

def bobTables : Tables :=
  ⟨[⟨"GRP-DESK", .role, "desk"⟩], [⟨"t", "bob", some "desk", none, none, true⟩], []⟩

def laptop : Item :=
  [("catalog_item_id", some "laptop"), ("category", some "hardware"), ("owner_group", none)]

def deskStage (group : String) : Stage :=
  ⟨some ⟨some "service_desk", some group, none⟩, some "catalog_owner", none, some true⟩

def deskPolicy : Policy := ⟨"fallback", some [], some true, some [deskStage "GRP-DESK"], none⟩

def hardwarePolicy (st : Stage) : Policy :=
  ⟨"hardware", some [("category", .str "hardware")], some true, some [st], none⟩

/-- The manager stage allows self-approval; the desk's own stage does not. -/
def lenientMatrix : List Policy :=
  [hardwarePolicy
      ⟨some ⟨some "manager_of_requester", none, none⟩, some "manager", none, some false⟩,
    deskPolicy]

def otherDeskMatrix : List Policy := [hardwarePolicy (deskStage "GRP-NIGHT"), deskPolicy]

theorem desk_lets_requester_through_or_dead_ends :
    (resolveApprovers laptop "ann" "t" annTables (some lenientMatrix)).approvers = ["ann"] ∧
    ¬ FailSafe "ann" "t" annTables lenientMatrix (matchedRule laptop lenientMatrix)
      (resolveApprovers laptop "ann" "t" annTables (some lenientMatrix)) ∧
    (resolveApprovers laptop "ann" "t" bobTables (some otherDeskMatrix)).approvers = [] ∧
    ¬ FailSafe "ann" "t" bobTables otherDeskMatrix (matchedRule laptop otherDeskMatrix)
      (resolveApprovers laptop "ann" "t" bobTables (some otherDeskMatrix)) := by
  refine ⟨by decide, fun h => ?_, by decide, fun h => ?_⟩
  · have := h.guard (by decide)
    revert this
    decide
  · have hstaffed : DeskStaffed "ann" "t" bobTables otherDeskMatrix := by
      refine ⟨deskPolicy, by simp [otherDeskMatrix], rfl, deskStage "GRP-DESK", by
        simp [deskPolicy, Policy.stagesOf], rfl, "GRP-DESK", "bob", rfl, ?_, by decide⟩
      rw [← mem_resolveGroupMembers]
      decide
    have := h.resolved hstaffed
    revert this
    decide

end FulfillmentApprovers
