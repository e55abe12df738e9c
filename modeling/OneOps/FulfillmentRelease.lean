import OneOps.FulfillmentApproval
import OneOps.ProcessPool
import OneOps.FulfillmentTaskProtocol

/-! Several approvers decide the rows of one parked RITM. A decision reads, then commits
one transaction; the others' transactions fall between the two. The RITM carries the
protocol: while it is `requested` nothing was decided, once it is `approved` no row is
left to decide, but a rejection leaves the sibling rows open. -/
namespace FulfillmentRelease

open FulfillmentContracts
open FulfillmentDb
open FulfillmentApproval
open KeyedTable
open ProcessPool
open FulfillmentTaskProtocol

/-- Any number of `decide_approval` calls over one store; the clock may advance. -/
def panel : Machine Db Decision Unit ℕ where
  step _ db d := ((decisionStep db d).1, { d with phase := (decisionStep db d).2 })
  env n db := { db with now := db.now + n }

def RitmIn (t m : String) (v : RitmState) (db : Db) : Prop :=
  ∃ r, getRitm t m db = some r ∧ r.state = v

instance (t m : String) (v : RitmState) (db : Db) : Decidable (RitmIn t m v db) :=
  decidable_of_iff ((getRitm t m db).map (·.state) = some v) Option.map_eq_some_iff

def RowOf (t m : String) (db : Db) (a : ApprovalRow) : Prop :=
  a ∈ db.approval.rows ∧ a.tenantId = t ∧ a.ritmId = m

structure Parked (t m : String) (s : Pool Db Decision) : Prop where
  procs : s.procs = []
  ritm : RitmIn t m .requested s.shared
  rows : ∀ a, RowOf t m s.shared a → a.state ≠ .approved ∧ a.state ≠ .rejected

def Reports (t m v : String) (d : Decision) : Prop :=
  d.tenantId = t ∧ ∃ o, d.phase = .returned o ∧ o.ok = true ∧ o.ritmId = some m ∧ o.state = v

def Dispatches (t m : String) (d : Decision) : Prop :=
  d.tenantId = t ∧ ∃ o, d.phase = .returned o ∧ o.shouldDispatch = true ∧ o.ritmId = some m

structure SingleRelease (t m : String) (s : Pool Db Decision) : Prop where
  once : ∀ (i j : ℕ) (d e : Decision), s.procs[i]? = some d → s.procs[j]? = some e →
    Dispatches t m d →
    Dispatches t m e → i = j
  none_if_rejected : RitmIn t m .rejected s.shared → ∀ d ∈ s.procs, ¬ Dispatches t m d
  approved : ∀ d ∈ s.procs, Reports t m "approved" d → RitmIn t m .approved s.shared
  rejected : ∀ d ∈ s.procs, Reports t m "rejected" d → RitmIn t m .rejected s.shared

/-- An approval that passed its read commits on a row that is still pending although
the RITM is rejected by now. -/
def Late (t m : String) (s : Pool Db Decision) : Event Decision Unit ℕ → Prop
  | .act i _ => ∃ d a₀ a, s.procs[i]? = some d ∧ d.phase = .transact a₀ ∧ d.tenantId = t ∧
      d.decision = "approved" ∧ RowOf t m s.shared a ∧ a.approvalId = d.approvalId ∧
      a.state = .pending ∧ RitmIn t m .rejected s.shared
  | _ => False

def CallOk (d : Decision) : Prop :=
  match d.phase with
  | .read => True
  | .transact _ => d.decision = "approved" ∨ d.decision = "rejected"
  | .returned o => o.shouldDispatch = true → o.ok = true ∧ o.state = "approved"

theorem Dispatches.reports {t m : String} {d : Decision} (hd : CallOk d) (h : Dispatches t m d) :
    Reports t m "approved" d := by
  obtain ⟨ht, o, ho, hs, hm⟩ := h
  simp only [CallOk, ho] at hd
  obtain ⟨hok, hv⟩ := hd hs
  exact ⟨ht, o, ho, hok, hm, hv⟩

theorem ritmIn_unique {t m : String} {v w : RitmState} {db : Db} (hv : RitmIn t m v db)
    (hw : RitmIn t m w db) : v = w := by
  obtain ⟨r, hr, rfl⟩ := hv
  obtain ⟨q, hq, rfl⟩ := hw
  rw [hr] at hq
  cases hq
  rfl

structure Aside (t m : String) (db db' : Db) : Prop where
  ritm : ∀ v, RitmIn t m v db → RitmIn t m v db'
  rows : ∀ a, RowOf t m db' a → RowOf t m db a

theorem Aside.refl (t m : String) (db : Db) : Aside t m db db := ⟨fun _ h => h, fun _ h => h⟩

def verdictState (approved : Bool) : RitmState := if approved then .approved else .rejected

def rowVerdict (approved : Bool) : ApprovalState := if approved then .approved else .rejected

structure Decided (t m : String) (approved : Bool) (db db' : Db) : Prop where
  ritm : ∀ v, RitmIn t m v db →
    RitmIn t m (if v = .requested then verdictState approved else v) db'
  rows : ∀ a, RowOf t m db' a → RowOf t m db a ∨ a.state = rowVerdict approved ∨
    (approved = true ∧ a.state = .withdrawn)
  closed : approved = true → ∀ a, RowOf t m db' a → a.state ≠ .pending

theorem find_pending {t m : String} {db : Db} {a : ApprovalRow} (h : RowOf t m db a)
    (hp : a.state = .pending) :
    db.approval.rows.find? (pendingApproval t a.approvalId) = some a := by
  obtain ⟨ha, ht, _⟩ := h
  cases hf : db.approval.rows.find? (pendingApproval t a.approvalId) with
  | none =>
    have := List.find?_eq_none.mp hf a ha
    simp [pendingApproval, ht, hp] at this
  | some b =>
    have hb := List.find?_some hf
    simp only [pendingApproval, decide_eq_true_eq] at hb
    rw [db.approval.eq_of_key (List.mem_of_find?_eq_some hf) ha]
    simp [approvalKey, hb.1, hb.2.1, ht]

theorem find_requested {t m : String} {db : Db} :
    (db.requestItem.rows.find? (approvalOutcomeMatches t m)).isSome = true ↔
      RitmIn t m .requested db := by
  rw [List.find?_isSome]
  constructor
  · rintro ⟨r, hr, hm⟩
    simp only [approvalOutcomeMatches, decide_eq_true_eq] at hm
    refine ⟨r, Table.lookup_eq_some.mpr ⟨hr, ?_⟩, hm.2.2⟩
    simp [ritmKey, hm.1, hm.2.1]
  · rintro ⟨r, hr, hs⟩
    have hk := getRitm_key hr
    refine ⟨r, (Table.lookup_eq_some.mp hr).1, ?_⟩
    simp [approvalOutcomeMatches, hk.1, hk.2, hs]

theorem ritmIn_outcome {t m u k : String} {b : Bool} {v : RitmState} {db : Db}
    (h : RitmIn t m v db) :
    RitmIn t m (if (u = t ∧ k = m) ∧ v = .requested then verdictState b else v)
      (applyApprovalOutcome u k b db).2 := by
  obtain ⟨r, hr, rfl⟩ := h
  have hk := getRitm_key hr
  refine ⟨if approvalOutcomeMatches u k r then approvalOutcomeSet b db.now r else r,
    by rw [getRitm_applyApproval, hr]; rfl, ?_⟩
  by_cases hm : (u = t ∧ k = m) ∧ r.state = .requested
  · have hp : approvalOutcomeMatches u k r = true := by
      simp [approvalOutcomeMatches, hk.1, hk.2, hm]
    rw [if_pos hp, if_pos hm]
    cases b <;> rfl
  · have hp : ¬ approvalOutcomeMatches u k r = true := by
      simp only [approvalOutcomeMatches, decide_eq_true_eq, hk.1, hk.2]
      rintro ⟨rfl, rfl, hs⟩
      exact hm ⟨⟨rfl, rfl⟩, hs⟩
    rw [if_neg hp, if_neg hm]

def SameRow (q a : ApprovalRow) : Prop :=
  a.tenantId = q.tenantId ∧ a.approvalId = q.approvalId ∧ a.ritmId = q.ritmId

theorem mem_decided {t i by_ : String} {v : ApprovalState} {c : Option String} {db : Db}
    {a : ApprovalRow} (h : a ∈ (updateApprovalDecision t i v by_ c db).2.approval.rows) :
    (a ∈ db.approval.rows ∧ ¬ pendingApproval t i a = true) ∨
      ∃ q ∈ db.approval.rows, pendingApproval t i q = true ∧ SameRow q a ∧ a.state = v := by
  obtain ⟨q, hq, rfl⟩ := List.mem_map.mp h
  by_cases hp : pendingApproval t i q = true
  · rw [if_pos hp]
    exact .inr ⟨q, hq, hp, ⟨rfl, rfl, rfl⟩, rfl⟩
  · rw [if_neg hp]
    exact .inl ⟨hq, hp⟩

theorem mem_withdrawn {t m i : String} {db : Db} {a : ApprovalRow}
    (h : a ∈ (withdrawOtherPendingApprovals t m i db).approval.rows) :
    (a ∈ db.approval.rows ∧
        ¬ (a.tenantId = t ∧ a.ritmId = m ∧ a.state = .pending ∧ a.approvalId ≠ i)) ∨
      (a.tenantId = t ∧ a.ritmId = m ∧ a.state = .withdrawn) := by
  obtain ⟨q, hq, rfl⟩ := List.mem_map.mp h
  by_cases hp : q.tenantId = t ∧ q.ritmId = m ∧ q.state = .pending ∧ q.approvalId ≠ i
  · rw [if_pos (decide_eq_true hp)]
    exact .inr ⟨hp.1, hp.2.1, rfl⟩
  · rw [if_neg (by simpa only [decide_eq_true_eq] using hp)]
    exact .inl ⟨hq, hp⟩

/-- The approval rows after a commit, before and after the siblings are withdrawn. -/
def decidedRows (d : Decision) (approved : Bool) (ritmId : String) (db : Db) : Db :=
  let db₁ := (updateApprovalDecision d.tenantId d.approvalId (rowVerdict approved) d.decidedBy
    d.comment db).2
  if approved then withdrawOtherPendingApprovals d.tenantId ritmId d.approvalId db₁ else db₁

theorem transact_rows {db : Db} {d : Decision} {a₀ b : ApprovalRow}
    (h : db.approval.rows.find? (pendingApproval d.tenantId d.approvalId) = some b) :
    (decisionTransact db d a₀).1.approval =
      (decidedRows d (d.decision = "approved") b.ritmId db).approval := by
  by_cases hv : d.decision = "approved"
  · simp only [decisionTransact, updateApprovalDecision, h, Option.map_some, hv, decidedRows]
    split <;> rfl
  · simp only [decisionTransact, updateApprovalDecision, h, Option.map_some, hv, decidedRows]
    split <;> rfl

theorem transact_ritm {db : Db} {d : Decision} {a₀ b : ApprovalRow}
    (h : db.approval.rows.find? (pendingApproval d.tenantId d.approvalId) = some b) :
    (decisionTransact db d a₀).1.requestItem =
      (applyApprovalOutcome d.tenantId b.ritmId (d.decision = "approved") db).2.requestItem := by
  by_cases hv : d.decision = "approved"
  · simp only [decisionTransact, updateApprovalDecision, h, Option.map_some, hv]
    split <;> rfl
  · simp only [decisionTransact, updateApprovalDecision, h, Option.map_some, hv]
    split <;> rfl

theorem transact_outcome {db : Db} {d : Decision} {a₀ b : ApprovalRow}
    (h : db.approval.rows.find? (pendingApproval d.tenantId d.approvalId) = some b) :
    ∃ msg, (decisionTransact db d a₀).2 = ⟨true, some b.ritmId, d.decision,
      d.decision = "approved" &&
        (db.requestItem.rows.find? (approvalOutcomeMatches d.tenantId b.ritmId)).isSome, msg⟩ := by
  by_cases hv : d.decision = "approved"
  · simp [decisionTransact, updateApprovalDecision, h, hv, applyApprovalOutcome,
      withdrawOtherPendingApprovals]
  · simp [decisionTransact, updateApprovalDecision, h, hv]

theorem transact_lost {db : Db} {d : Decision} {a₀ : ApprovalRow}
    (h : db.approval.rows.find? (pendingApproval d.tenantId d.approvalId) = none) :
    ∃ msg, (decisionTransact db d a₀).2 = ⟨true, some a₀.ritmId, "already", false, msg⟩ := by
  simp [decisionTransact, updateApprovalDecision, h]

theorem ritmIn_congr {t m : String} {v : RitmState} {db db' : Db}
    (h : db'.requestItem = db.requestItem) (hr : RitmIn t m v db) : RitmIn t m v db' := by
  obtain ⟨r, hr, hs⟩ := hr
  refine ⟨r, ?_, hs⟩
  simpa only [getRitm, h] using hr

theorem lost_aside {db : Db} {d : Decision} {a₀ : ApprovalRow} (t m : String)
    (h : db.approval.rows.find? (pendingApproval d.tenantId d.approvalId) = none) :
    Aside t m db (decisionTransact db d a₀).1 := by
  have hdb : (decisionTransact db d a₀).1 = (updateApprovalDecision d.tenantId d.approvalId
      (if d.decision = "approved" then .approved else .rejected) d.decidedBy d.comment db).2 := by
    simp [decisionTransact, updateApprovalDecision, h]
  rw [hdb]
  constructor
  · intro v hv
    exact ritmIn_congr rfl hv
  · rintro a ⟨ha, ht, hm⟩
    rcases mem_decided ha with ⟨ha, _⟩ | ⟨q, hq, hp, _⟩
    · exact ⟨ha, ht, hm⟩
    · exact absurd hp (List.find?_eq_none.mp h q hq)

/-- A commit decides its own row and, on approval, closes the siblings. -/
theorem mem_decidedRows {d : Decision} {approved : Bool} {db : Db}
    {a b : ApprovalRow} {t m : String}
    (hb : db.approval.rows.find? (pendingApproval d.tenantId d.approvalId) = some b)
    (h : RowOf t m (decidedRows d approved b.ritmId db) a) :
    (RowOf t m db a ∧ (approved = true → d.tenantId = t → b.ritmId = m → a.state ≠ .pending)) ∨
      (d.tenantId = t ∧ b.ritmId = m ∧
        (a.state = rowVerdict approved ∨ (approved = true ∧ a.state = .withdrawn))) := by
  obtain ⟨ha, ht, hm⟩ := h
  -- the decided row is the one the UPDATE found
  have own : ∀ q ∈ db.approval.rows, pendingApproval d.tenantId d.approvalId q = true → q = b := by
    intro q hq hp
    have hbp := List.find?_some hb
    simp only [pendingApproval, decide_eq_true_eq] at hp hbp
    apply db.approval.eq_of_key hq (List.mem_of_find?_eq_some hb)
    simp [approvalKey, hp.1, hp.2.1, hbp.1, hbp.2.1]
  have first : ∀ c : ApprovalRow, c.tenantId = t → c.ritmId = m →
      c ∈ (updateApprovalDecision d.tenantId d.approvalId (rowVerdict approved) d.decidedBy
        d.comment db).2.approval.rows →
      (RowOf t m db c ∧ ¬ pendingApproval d.tenantId d.approvalId c = true) ∨
        (d.tenantId = t ∧ b.ritmId = m ∧ c.state = rowVerdict approved) := by
    intro c hct hcm hc
    rcases mem_decided hc with ⟨hc, hn⟩ | ⟨q, hq, hp, ⟨hqt, _, hqm⟩, hs⟩
    · exact .inl ⟨⟨hc, hct, hcm⟩, hn⟩
    · have hqb := own q hq hp
      simp only [pendingApproval, decide_eq_true_eq] at hp
      exact .inr ⟨by rw [← hp.1, ← hqt, hct], by rw [← hqb, ← hqm, hcm], hs⟩
  cases approved with
  | false =>
    rcases first a ht hm ha with ⟨hr, _⟩ | ⟨h₁, h₂, hs⟩
    · exact .inl ⟨hr, fun h => by cases h⟩
    · exact .inr ⟨h₁, h₂, .inl hs⟩
  | true =>
    rcases mem_withdrawn ha with ⟨ha, hn⟩ | ⟨h₁, h₂, hs⟩
    · rcases first a ht hm ha with ⟨hr, hp⟩ | ⟨h₁, h₂, hs⟩
      · refine .inl ⟨hr, fun _ h₁ h₂ hs => ?_⟩
        by_cases hi : a.approvalId = d.approvalId
        · exact hp (by simp [pendingApproval, ht, h₁, hi, hs])
        · exact hn ⟨by rw [ht, h₁], by rw [hm, h₂], hs, hi⟩
      · exact .inr ⟨h₁, h₂, .inl hs⟩
    · exact .inr ⟨h₁.symm.trans ht, h₂.symm.trans hm, .inr ⟨rfl, hs⟩⟩

theorem commit_ritm {db : Db} {d : Decision} {a₀ b : ApprovalRow} {t m : String} {v : RitmState}
    (hb : db.approval.rows.find? (pendingApproval d.tenantId d.approvalId) = some b)
    (h : RitmIn t m v db) :
    RitmIn t m (if (d.tenantId = t ∧ b.ritmId = m) ∧ v = .requested then
      verdictState (d.decision = "approved") else v) (decisionTransact db d a₀).1 :=
  ritmIn_congr (transact_ritm hb) (ritmIn_outcome h)

theorem rowOf_congr {t m : String} {db db' : Db} {a : ApprovalRow}
    (h : db'.approval = db.approval) (ha : RowOf t m db' a) : RowOf t m db a := by
  obtain ⟨hr, hk⟩ := ha
  exact ⟨by rwa [h] at hr, hk⟩

theorem commit_decided {db : Db} {d : Decision} {a₀ b : ApprovalRow}
    (hb : db.approval.rows.find? (pendingApproval d.tenantId d.approvalId) = some b) :
    Decided d.tenantId b.ritmId (d.decision = "approved") db (decisionTransact db d a₀).1 := by
  constructor
  · intro v hv
    simpa using commit_ritm hb hv
  · intro a ha
    rcases mem_decidedRows hb (rowOf_congr (transact_rows hb) ha) with ⟨hr, _⟩ | ⟨_, _, hs⟩
    · exact .inl hr
    · exact .inr hs
  · intro happ a ha hp
    rcases mem_decidedRows hb (rowOf_congr (transact_rows hb) ha) with ⟨_, hn⟩ | ⟨_, _, hs⟩
    · exact hn happ rfl rfl hp
    · rw [happ, hp] at hs
      simp [rowVerdict] at hs

theorem commit_aside {db : Db} {d : Decision} {a₀ b : ApprovalRow} {t m : String}
    (hb : db.approval.rows.find? (pendingApproval d.tenantId d.approvalId) = some b)
    (hne : ¬ (d.tenantId = t ∧ b.ritmId = m)) : Aside t m db (decisionTransact db d a₀).1 := by
  constructor
  · intro v hv
    simpa [hne] using commit_ritm hb hv
  · intro a ha
    rcases mem_decidedRows hb (rowOf_congr (transact_rows hb) ha) with ⟨hr, _⟩ | ⟨ht, hm, _⟩
    · exact hr
    · exact absurd ⟨ht, hm⟩ hne

def moved (db : Db) (d : Decision) : Decision := { d with phase := (decisionStep db d).2 }

def verdictText (approved : Bool) : String := if approved then "approved" else "rejected"

/-- The calls report nothing new on this RITM, other than what its rows already say. -/
structure Quiet (t m : String) (s s' : Pool Db Decision) : Prop where
  aside : Aside t m s.shared s'.shared
  reports : ∀ d ∈ s'.procs, ∀ v, Reports t m v d → (∃ e ∈ s.procs, Reports t m v e) ∨
    (v ≠ "approved" ∧ v ≠ "rejected") ∨ ∃ a, RowOf t m s.shared a ∧ approvalStateValue a.state = v
  dispatches : ∀ (i : ℕ) (d : Decision), s'.procs[i]? = some d → Dispatches t m d →
    ∃ e, s.procs[i]? = some e ∧ Dispatches t m e

/-- The call at `i` commits its verdict on a pending row of this RITM. -/
structure Commit (t m : String) (i : ℕ) (approved : Bool) (s s' : Pool Db Decision) : Prop where
  row : ∃ a, RowOf t m s.shared a ∧ a.state = .pending
  decided : Decided t m approved s.shared s'.shared
  reports : ∀ d ∈ s'.procs, ∀ v, Reports t m v d → d ∈ s.procs ∨ v = verdictText approved
  reported : ∃ d ∈ s'.procs, Reports t m (verdictText approved) d
  dispatches : ∀ (j : ℕ) (d : Decision), s'.procs[j]? = some d → Dispatches t m d →
    s.procs[j]? = some d ∨ (j = i ∧ approved = true ∧ RitmIn t m .requested s.shared)

theorem quiet_of_same {t m : String} {s s' : Pool Db Decision}
    (ha : Aside t m s.shared s'.shared) (h : s'.procs = s.procs) : Quiet t m s s' := by
  constructor
  · exact ha
  · intro d hd v hv
    exact .inl ⟨d, h ▸ hd, hv⟩
  · intro i d hd hv
    exact ⟨d, by rw [← h]; exact hd, hv⟩

/-- A step of one call is quiet when that call itself reports nothing new. -/
theorem quiet_of_set {t m : String} {s : Pool Db Decision} {db' : Db} {i : ℕ} {d d' : Decision}
    (hi : s.procs[i]? = some d) (ha : Aside t m s.shared db')
    (hr : ∀ v, Reports t m v d' → Reports t m v d ∨ (v ≠ "approved" ∧ v ≠ "rejected") ∨
      ∃ a, RowOf t m s.shared a ∧ approvalStateValue a.state = v)
    (hd : Dispatches t m d' → Dispatches t m d) : Quiet t m s ⟨db', s.procs.set i d'⟩ := by
  constructor
  · exact ha
  · intro q hq v hv
    rcases List.mem_or_eq_of_mem_set hq with hq | rfl
    · exact .inl ⟨q, hq, hv⟩
    · rcases hr v hv with h | h
      · exact .inl ⟨d, List.mem_of_getElem? hi, h⟩
      · exact .inr h
  · intro j q hq hv
    rcases getElem?_set_cases hq with ⟨rfl, rfl⟩ | ⟨_, hq⟩
    · exact ⟨d, hi, hd hv⟩
    · exact ⟨q, hq, hv⟩

/-- The read refuses, repeats what the row says, or goes on to the transaction. -/
theorem decisionRead_cases (db : Db) (d : Decision) :
    (∃ o, decisionRead db d = .returned o ∧ o.ok = false ∧ o.shouldDispatch = false) ∨
      (∃ a o, decisionRead db d = .returned o ∧ RowOf d.tenantId a.ritmId db a ∧
        o.ritmId = some a.ritmId ∧ o.state = approvalStateValue a.state ∧
        o.shouldDispatch = false) ∨
      ∃ a, decisionRead db d = .transact a ∧
        (d.decision = "approved" ∨ d.decision = "rejected") := by
  unfold decisionRead
  by_cases hd : d.decision ≠ "approved" ∧ d.decision ≠ "rejected"
  · rw [if_pos hd]
    exact .inl ⟨_, rfl, rfl, rfl⟩
  rw [if_neg hd]
  cases ha : getApproval d.tenantId d.approvalId db with
  | none => exact .inl ⟨_, rfl, rfl, rfl⟩
  | some a =>
    obtain ⟨hmem, hk⟩ := Table.lookup_eq_some.mp ha
    simp only [approvalKey, Prod.mk.injEq] at hk
    by_cases hs : a.state ≠ .pending
    · refine .inr (.inl ⟨a, _, if_pos hs, ⟨hmem, hk.1, rfl⟩, rfl, rfl, rfl⟩)
    by_cases hby : d.decidedBy ≠ a.requestedFrom
    · exact .inl ⟨_, (if_neg hs).trans (if_pos hby), rfl, rfl⟩
    · refine .inr (.inr ⟨a, (if_neg hs).trans (if_neg hby), ?_⟩)
      by_cases happ : d.decision = "approved"
      · exact .inl happ
      · exact .inr (by_contra fun hrej => hd ⟨happ, hrej⟩)

theorem read_reports {t m v : String} {db : Db} {d : Decision}
    (h : Reports t m v { d with phase := decisionRead db d }) :
    ∃ a, RowOf t m db a ∧ approvalStateValue a.state = v := by
  obtain ⟨ht, o, ho, hok, hm, hv⟩ := h
  subst ht
  change decisionRead db d = .returned o at ho
  rcases decisionRead_cases db d with ⟨o', h, hf, _⟩ | ⟨a, o', h, ha, hr, hs, _⟩ | ⟨a, h, _⟩ <;>
    rw [h] at ho <;> cases ho
  · rw [hf] at hok
    cases hok
  · rw [hr] at hm
    cases hm
    exact ⟨a, ha, hs.symm.trans hv⟩

theorem read_no_dispatch {t m : String} {db : Db} {d : Decision} :
    ¬ Dispatches t m { d with phase := decisionRead db d } := by
  rintro ⟨_, o, ho, hs, _⟩
  change decisionRead db d = .returned o at ho
  rcases decisionRead_cases db d with ⟨o', h, _, hf⟩ | ⟨a, o', h, _, _, _, hf⟩ | ⟨a, h, _⟩ <;>
    rw [h] at ho <;> cases ho
  · rw [hf] at hs
    cases hs
  · rw [hf] at hs
    cases hs

theorem read_callOk (db : Db) (d : Decision) : CallOk { d with phase := decisionRead db d } := by
  rcases decisionRead_cases db d with ⟨o, h, _, hf⟩ | ⟨a, o, h, _, _, _, hf⟩ | ⟨a, h, hd⟩
  · simp [CallOk, h, hf]
  · simp [CallOk, h, hf]
  · simp only [CallOk, h]
    exact hd

theorem moved_callOk {db : Db} {d : Decision} (h : CallOk d) : CallOk (moved db d) := by
  cases hp : d.phase with
  | read =>
    simp only [moved, decisionStep, hp]
    exact read_callOk db d
  | returned o =>
    simp only [CallOk, hp] at h
    simpa only [moved, decisionStep, hp, CallOk] using h
  | transact a₀ =>
    simp only [moved, decisionStep, hp, CallOk]
    intro hs
    cases hb : db.approval.rows.find? (pendingApproval d.tenantId d.approvalId) with
    | none =>
      obtain ⟨msg, ho⟩ := @transact_lost db d a₀ hb
      rw [ho] at hs
      cases hs
    | some b =>
      obtain ⟨msg, ho⟩ := @transact_outcome db d a₀ b hb
      rw [ho] at hs ⊢
      simp only [Bool.and_eq_true, decide_eq_true_eq] at hs
      exact ⟨rfl, hs.1⟩

theorem commit_of_row {t m : String} {s : Pool Db Decision} {i : ℕ} {d : Decision}
    {a₀ b : ApprovalRow} (hi : s.procs[i]? = some d) (hp : d.phase = .transact a₀)
    (hv : d.decision = "approved" ∨ d.decision = "rejected")
    (hb : s.shared.approval.rows.find? (pendingApproval d.tenantId d.approvalId) = some b)
    (ht : d.tenantId = t) (hm : b.ritmId = m) :
    Commit t m i (d.decision = "approved") s
      ⟨(decisionStep s.shared d).1, s.procs.set i (moved s.shared d)⟩ := by
  obtain ⟨msg, ho⟩ := @transact_outcome s.shared d a₀ b hb
  have hphase : (moved s.shared d).phase = .returned (decisionTransact s.shared d a₀).2 := by
    simp only [moved, decisionStep, hp]
  have htext : d.decision = verdictText (d.decision = "approved") := by
    rcases hv with hv | hv <;> simp [hv, verdictText]
  subst ht hm
  constructor
  · have hbp := List.find?_some hb
    simp only [pendingApproval, decide_eq_true_eq] at hbp
    exact ⟨b, ⟨List.mem_of_find?_eq_some hb, hbp.1, rfl⟩, hbp.2.2⟩
  · simp only [decisionStep, hp]
    exact commit_decided hb
  · intro q hq v hr
    rcases List.mem_or_eq_of_mem_set hq with hq | rfl
    · exact .inl hq
    · obtain ⟨_, o, hq, _, _, rfl⟩ := hr
      rw [hphase] at hq
      cases hq
      rw [ho]
      exact .inr htext
  · refine ⟨_, List.mem_set (List.getElem?_eq_some_iff.mp hi).1 _, rfl, _, hphase, ?_⟩
    rw [ho]
    exact ⟨rfl, rfl, htext⟩
  · intro j q hq hd
    rcases getElem?_set_cases hq with ⟨rfl, rfl⟩ | ⟨_, hq⟩
    · obtain ⟨_, o, hq, hs, _⟩ := hd
      rw [hphase] at hq
      cases hq
      rw [ho] at hs
      simp only [Bool.and_eq_true, decide_eq_true_eq] at hs
      exact .inr ⟨rfl, decide_eq_true hs.1, find_requested.mp hs.2⟩
    · exact .inl hq

def HasRow (t m : String) (db : Db) (d : Decision) : Prop :=
  ∃ a₀ a, d.phase = .transact a₀ ∧ d.tenantId = t ∧ RowOf t m db a ∧
    a.approvalId = d.approvalId ∧ a.state = .pending

theorem quiet_of_no_row {t m : String} {s : Pool Db Decision} {i : ℕ} {d : Decision}
    (hi : s.procs[i]? = some d) (hn : ¬ HasRow t m s.shared d) :
    Quiet t m s ⟨(decisionStep s.shared d).1, s.procs.set i (moved s.shared d)⟩ := by
  cases hp : d.phase with
  | read =>
    simp only [decisionStep, moved, hp]
    refine quiet_of_set hi (Aside.refl t m _) ?_ ?_
    · intro v hv
      exact .inr (.inr (read_reports hv))
    · intro hd
      exact absurd hd read_no_dispatch
  | returned o =>
    have hm : moved s.shared d = d := by
      simp only [moved, decisionStep, hp]
      rw [← hp]
    rw [hm]
    simp only [decisionStep, hp]
    exact quiet_of_set hi (Aside.refl t m _) (fun v hv => .inl hv) id
  | transact a₀ =>
    have hphase : (moved s.shared d).phase = .returned (decisionTransact s.shared d a₀).2 := by
      simp only [moved, decisionStep, hp]
    have hdb : (decisionStep s.shared d).1 = (decisionTransact s.shared d a₀).1 := by
      simp only [decisionStep, hp]
    rw [hdb]
    cases hb : s.shared.approval.rows.find? (pendingApproval d.tenantId d.approvalId) with
    | none =>
      obtain ⟨msg, ho⟩ := @transact_lost s.shared d a₀ hb
      refine quiet_of_set hi (lost_aside t m hb) ?_ ?_
      · rintro v ⟨_, o, hq, _, _, rfl⟩
        rw [hphase, ho] at hq
        cases hq
        exact .inr (.inl ⟨by simp, by simp⟩)
      · rintro ⟨_, o, hq, hs, _⟩
        rw [hphase, ho] at hq
        cases hq
        cases hs
    | some b =>
      have hne : ¬ (d.tenantId = t ∧ b.ritmId = m) := by
        rintro ⟨ht, hm⟩
        have hbp := List.find?_some hb
        simp only [pendingApproval, decide_eq_true_eq] at hbp
        exact hn ⟨a₀, b, hp, ht, ⟨List.mem_of_find?_eq_some hb, hbp.1.trans ht, hm⟩, hbp.2.1,
          hbp.2.2⟩
      obtain ⟨msg, ho⟩ := @transact_outcome s.shared d a₀ b hb
      have other : ∀ o, (moved s.shared d).phase = .returned o → d.tenantId = t →
          o.ritmId = some m → False := by
        intro o hq ht hm
        rw [hphase, ho] at hq
        cases hq
        exact hne ⟨ht, Option.some.inj hm⟩
      refine quiet_of_set hi (commit_aside hb hne) ?_ ?_
      · rintro v ⟨ht, o, hq, _, hm, _⟩
        exact (other o hq ht hm).elim
      · rintro ⟨ht, o, hq, _, hm⟩
        exact (other o hq ht hm).elim

structure Undecided (t m : String) (s : Pool Db Decision) : Prop where
  ritm : RitmIn t m .requested s.shared
  rows : ∀ a, RowOf t m s.shared a → a.state ≠ .approved ∧ a.state ≠ .rejected
  reports : ∀ d ∈ s.procs, ∀ v, Reports t m v d → v ≠ "approved" ∧ v ≠ "rejected"

/-- Nothing is left to decide, so nobody can commit again. -/
structure Released (t m : String) (s : Pool Db Decision) : Prop where
  ritm : RitmIn t m .approved s.shared
  rows : ∀ a, RowOf t m s.shared a → a.state ≠ .pending ∧ a.state ≠ .rejected
  reports : ∀ d ∈ s.procs, ¬ Reports t m "rejected" d
  once : ∀ (i j : ℕ) (d e : Decision), s.procs[i]? = some d → s.procs[j]? = some e →
    Dispatches t m d → Dispatches t m e → i = j

structure Stopped (t m : String) (s : Pool Db Decision) : Prop where
  ritm : RitmIn t m .rejected s.shared
  rows : ∀ a, RowOf t m s.shared a → a.state ≠ .approved
  reports : ∀ d ∈ s.procs, ¬ Reports t m "approved" d

def Steady (t m : String) (s : Pool Db Decision) : Prop :=
  Undecided t m s ∨ Released t m s ∨ Stopped t m s

/-- Somebody was told that the fulfilment will start, and it will not. -/
structure Broken (t m : String) (s : Pool Db Decision) : Prop where
  ritm : RitmIn t m .rejected s.shared
  told : ∃ d ∈ s.procs, Reports t m "approved" d

def CallsOk (s : Pool Db Decision) : Prop := ∀ d ∈ s.procs, CallOk d

theorem Steady.single {t m : String} {s : Pool Db Decision} (hc : CallsOk s) (h : Steady t m s) :
    SingleRelease t m s := by
  rcases h with h | h | h
  · have quiet : ∀ d ∈ s.procs, ¬ Dispatches t m d := fun d hd hs =>
      (h.reports d hd _ (hs.reports (hc d hd))).1 rfl
    constructor
    · intro i j d e hi _ hd _
      exact absurd hd (quiet d (List.mem_of_getElem? hi))
    · exact fun _ => quiet
    · intro d hd hr
      exact absurd rfl (h.reports d hd _ hr).1
    · intro d hd hr
      exact absurd rfl (h.reports d hd _ hr).2
  · constructor
    · exact h.once
    · intro hr
      cases ritmIn_unique h.ritm hr
    · exact fun _ _ _ => h.ritm
    · intro d hd hr
      exact absurd hr (h.reports d hd)
  · constructor
    · intro i j d e hi _ hd _
      have hm := List.mem_of_getElem? hi
      exact absurd (hd.reports (hc d hm)) (h.reports d hm)
    · intro _ d hd hs
      exact h.reports d hd (hs.reports (hc d hd))
    · intro d hd hr
      exact absurd hr (h.reports d hd)
    · exact fun _ _ _ => h.ritm

theorem Broken.not_single {t m : String} {s : Pool Db Decision} (h : Broken t m s) :
    ¬ SingleRelease t m s := by
  intro hs
  obtain ⟨d, hd, hr⟩ := h.told
  cases ritmIn_unique (hs.approved d hd hr) h.ritm

theorem approvalStateValue_inj {v w : ApprovalState}
    (h : approvalStateValue v = approvalStateValue w) : v = w := by
  revert h
  cases v <;> cases w <;> decide

/-- A quiet step turns only a row's own state into a report. -/
theorem Quiet.new_report {t m : String} {s s' : Pool Db Decision} (h : Quiet t m s s')
    {w : ApprovalState} (hw : w = .approved ∨ w = .rejected) {d : Decision} (hd : d ∈ s'.procs)
    (hr : Reports t m (approvalStateValue w) d) :
    (∃ e ∈ s.procs, Reports t m (approvalStateValue w) e) ∨
      ∃ a, RowOf t m s.shared a ∧ a.state = w := by
  rcases h.reports d hd _ hr with he | ⟨ha, hb⟩ | ⟨a, ha, hv⟩
  · exact .inl he
  · rcases hw with rfl | rfl
    · exact absurd rfl ha
    · exact absurd rfl hb
  · exact .inr ⟨a, ha, approvalStateValue_inj hv⟩

theorem Quiet.steady {t m : String} {s s' : Pool Db Decision} (h : Quiet t m s s')
    (hs : Steady t m s) : Steady t m s' := by
  rcases hs with hs | hs | hs
  · refine .inl ⟨h.aside.ritm _ hs.ritm, fun a ha => hs.rows a (h.aside.rows a ha), ?_⟩
    intro d hd v hv
    rcases h.reports d hd v hv with ⟨e, he, hr⟩ | hne | ⟨a, ha, rfl⟩
    · exact hs.reports e he v hr
    · exact hne
    · obtain ⟨hn₁, hn₂⟩ := hs.rows a ha
      exact ⟨fun hv => hn₁ (approvalStateValue_inj (w := .approved) hv),
        fun hv => hn₂ (approvalStateValue_inj (w := .rejected) hv)⟩
  · refine .inr (.inl ⟨h.aside.ritm _ hs.ritm, fun a ha => hs.rows a (h.aside.rows a ha), ?_, ?_⟩)
    · intro d hd hr
      rcases h.new_report (w := .rejected) (.inr rfl) hd hr with ⟨e, he, hr⟩ | ⟨a, ha, hv⟩
      · exact hs.reports e he hr
      · exact (hs.rows a ha).2 hv
    · intro i j d e hi hj hd he
      obtain ⟨d₀, hi, hd⟩ := h.dispatches i d hi hd
      obtain ⟨e₀, hj, he⟩ := h.dispatches j e hj he
      exact hs.once i j d₀ e₀ hi hj hd he
  · refine .inr (.inr ⟨h.aside.ritm _ hs.ritm, fun a ha => hs.rows a (h.aside.rows a ha), ?_⟩)
    intro d hd hr
    rcases h.new_report (w := .approved) (.inl rfl) hd hr with ⟨e, he, hr⟩ | ⟨a, ha, hv⟩
    · exact hs.reports e he hr
    · exact hs.rows a ha hv

theorem Commit.undecided {t m : String} {i : ℕ} {b : Bool} {s s' : Pool Db Decision}
    (hc : CallsOk s) (h : Commit t m i b s s') (hs : Undecided t m s) : Steady t m s' := by
  have hritm := h.decided.ritm _ hs.ritm
  rw [if_pos rfl] at hritm
  cases b with
  | true =>
    refine .inr (.inl ⟨hritm, ?_, ?_, ?_⟩)
    · intro a ha
      refine ⟨h.decided.closed rfl a ha, ?_⟩
      rcases h.decided.rows a ha with ha | hv | ⟨_, hv⟩
      · exact (hs.rows a ha).2
      · simp [hv, rowVerdict]
      · simp [hv]
    · intro d hd hr
      rcases h.reports d hd _ hr with hd | hv
      · exact (hs.reports d hd _ hr).2 rfl
      · simp [verdictText] at hv
    · have only : ∀ (j : ℕ) (d : Decision), s'.procs[j]? = some d → Dispatches t m d → j = i := by
        intro j d hj hd
        rcases h.dispatches j d hj hd with hj | ⟨rfl, _⟩
        · have hm := List.mem_of_getElem? hj
          exact absurd rfl (hs.reports d hm _ (hd.reports (hc d hm))).1
        · rfl
      intro j k d e hj hk hd he
      rw [only j d hj hd, only k e hk he]
  | false =>
    refine .inr (.inr ⟨hritm, ?_, ?_⟩)
    · intro a ha
      rcases h.decided.rows a ha with ha | hv | ⟨hf, _⟩
      · exact (hs.rows a ha).1
      · simp [hv, rowVerdict]
      · cases hf
    · intro d hd hr
      rcases h.reports d hd _ hr with hd | hv
      · exact (hs.reports d hd _ hr).1 rfl
      · simp [verdictText] at hv

theorem Commit.stopped {t m : String} {i : ℕ} {s s' : Pool Db Decision}
    (h : Commit t m i false s s') (hs : Stopped t m s) : Steady t m s' := by
  have hritm := h.decided.ritm _ hs.ritm
  refine .inr (.inr ⟨hritm, ?_, ?_⟩)
  · intro a ha
    rcases h.decided.rows a ha with ha | hv | ⟨hf, _⟩
    · exact hs.rows a ha
    · simp [hv, rowVerdict]
    · cases hf
  · intro d hd hr
    rcases h.reports d hd _ hr with hd | hv
    · exact hs.reports d hd hr
    · simp [verdictText] at hv

theorem Commit.broken {t m : String} {i : ℕ} {s s' : Pool Db Decision}
    (h : Commit t m i true s s') (hs : RitmIn t m .rejected s.shared) : Broken t m s' :=
  ⟨h.decided.ritm _ hs, h.reported⟩

def Fresh : Event Decision Unit ℕ → Prop
  | .spawn d => d.phase = .read
  | _ => True

theorem next_panel {s : Pool Db Decision} {i : ℕ} {d : Decision} (h : s.procs[i]? = some d) :
    next panel s (.act i ()) =
      ⟨(decisionStep s.shared d).1, s.procs.set i (moved s.shared d)⟩ := next_act h ()

theorem next_callsOk {s : Pool Db Decision} {e : Event Decision Unit ℕ} (hf : Fresh e)
    (hc : CallsOk s) : CallsOk (next panel s e) := by
  cases e with
  | spawn d =>
    intro q hq
    rcases List.mem_append.mp hq with hq | hq
    · exact hc q hq
    · rw [List.mem_singleton.mp hq]
      change d.phase = .read at hf
      simp only [CallOk, hf]
  | env n => exact hc
  | act i _ =>
    cases hi : s.procs[i]? with
    | none => rwa [next_idle hi]
    | some d =>
      rw [next_panel hi]
      intro q hq
      rcases List.mem_or_eq_of_mem_set hq with hq | rfl
      · exact hc q hq
      · exact moved_callOk (hc d (List.mem_of_getElem? hi))

/-- A call spawned at its read reports nothing yet. -/
theorem quiet_spawn {t m : String} {s : Pool Db Decision} {d : Decision} (hf : d.phase = .read) :
    Quiet t m s (next panel s (.spawn d)) := by
  constructor
  · exact Aside.refl t m _
  · intro q hq v hv
    rcases List.mem_append.mp hq with hq | hq
    · exact .inl ⟨q, hq, hv⟩
    · rw [List.mem_singleton.mp hq] at hv
      obtain ⟨_, o, ho, _⟩ := hv
      rw [hf] at ho
      cases ho
  · intro i q hq hd
    change (s.procs ++ [d])[i]? = some q at hq
    rw [List.getElem?_append] at hq
    split at hq
    · exact ⟨q, hq, hd⟩
    · obtain ⟨_, o, ho, _⟩ := hd
      rw [List.mem_singleton.mp (List.mem_of_getElem? hq), hf] at ho
      cases ho

/-- Every event, as the RITM sees it: a commit is late exactly when it approves a RITM
that is rejected. -/
theorem next_cases {t m : String} {s : Pool Db Decision} {e : Event Decision Unit ℕ}
    (hf : Fresh e) (hc : CallsOk s) :
    (Quiet t m s (next panel s e) ∧ ¬ Late t m s e) ∨
      ∃ i b, Commit t m i b s (next panel s e) ∧
        (Late t m s e ↔ b = true ∧ RitmIn t m .rejected s.shared) := by
  cases e with
  | spawn d => exact .inl ⟨quiet_spawn hf, id⟩
  | env n =>
    refine .inl ⟨quiet_of_same ⟨fun v hv => ritmIn_congr rfl hv, fun a ha => ha⟩ rfl, id⟩
  | act i inp =>
    cases hi : s.procs[i]? with
    | none =>
      rw [next_idle hi]
      refine .inl ⟨quiet_of_same (Aside.refl t m _) rfl, ?_⟩
      rintro ⟨d, a₀, a, hd, _⟩
      rw [hi] at hd
      cases hd
    | some d =>
      rw [next_panel hi]
      by_cases hrow : HasRow t m s.shared d
      · obtain ⟨a₀, a, hp, ht, ha, hid, hs⟩ := hrow
        have hv := hc d (List.mem_of_getElem? hi)
        simp only [CallOk, hp] at hv
        have hb : s.shared.approval.rows.find? (pendingApproval d.tenantId d.approvalId) =
            some a := by
          rw [ht, ← hid]
          exact find_pending ha hs
        refine .inr ⟨i, _, commit_of_row hi hp hv hb ht ha.2.2, ?_⟩
        constructor
        · rintro ⟨d', a₁, a', hd', _, _, hv, _, _, _, hr⟩
          rw [hi] at hd'
          cases hd'
          exact ⟨decide_eq_true hv, hr⟩
        · rintro ⟨hv, hr⟩
          exact ⟨d, a₀, a, hi, hp, ht, of_decide_eq_true hv, ha, hid, hs, hr⟩
      · refine .inl ⟨quiet_of_no_row hi hrow, ?_⟩
        rintro ⟨d', a₀, a, hd', hp, ht, _, ha, hid, hs, _⟩
        rw [hi] at hd'
        cases hd'
        exact hrow ⟨a₀, a, hp, ht, ha, hid, hs⟩

theorem next_steady {t m : String} {s : Pool Db Decision} {e : Event Decision Unit ℕ}
    (hf : Fresh e) (hc : CallsOk s) (hs : Steady t m s) (hl : ¬ Late t m s e) :
    Steady t m (next panel s e) := by
  rcases next_cases hf hc with ⟨hq, _⟩ | ⟨i, b, hcom, hiff⟩
  · exact hq.steady hs
  · rcases hs with hs | hs | hs
    · exact hcom.undecided hc hs
    · obtain ⟨a, ha, hp⟩ := hcom.row
      exact absurd hp (hs.rows a ha).1
    · cases b with
      | true => exact absurd (hiff.mpr ⟨rfl, hs.ritm⟩) hl
      | false => exact hcom.stopped hs

theorem next_late {t m : String} {s : Pool Db Decision} {e : Event Decision Unit ℕ}
    (hf : Fresh e) (hc : CallsOk s) (hl : Late t m s e) : Broken t m (next panel s e) := by
  rcases next_cases hf hc with ⟨_, hn⟩ | ⟨i, b, hcom, hiff⟩
  · exact absurd hl hn
  · obtain ⟨rfl, hr⟩ := hiff.mp hl
    exact hcom.broken hr

/-- A call that returned is left alone, and a rejected RITM stays rejected. -/
theorem Broken.next {t m : String} {s : Pool Db Decision} {e : Event Decision Unit ℕ}
    (hf : Fresh e) (hc : CallsOk s) (h : Broken t m s) : Broken t m (next panel s e) := by
  constructor
  · rcases next_cases (t := t) (m := m) hf hc with ⟨hq, _⟩ | ⟨i, b, hcom, _⟩
    · exact hq.aside.ritm _ h.ritm
    · exact hcom.decided.ritm _ h.ritm
  · obtain ⟨d, hd, hr⟩ := h.told
    cases e with
    | spawn q => exact ⟨d, List.mem_append_left _ hd, hr⟩
    | env n => exact ⟨d, hd, hr⟩
    | act i inp =>
      cases hi : s.procs[i]? with
      | none =>
        rw [next_idle hi]
        exact ⟨d, hd, hr⟩
      | some q =>
        rw [next_panel hi]
        obtain ⟨j, hj⟩ := List.getElem?_of_mem hd
        by_cases hij : i = j
        · subst hij
          rw [hi] at hj
          cases hj
          refine ⟨_, List.mem_set (List.getElem?_eq_some_iff.mp hi).1 _, ?_⟩
          obtain ⟨ht, o, ho, hr⟩ := hr
          refine ⟨ht, o, ?_, hr⟩
          simp only [moved, decisionStep, ho]
        · refine ⟨d, List.mem_of_getElem? (i := j) ?_, hr⟩
          rw [List.getElem?_set_ne hij]
          exact hj

theorem Broken.play {t m : String} {es : List (Event Decision Unit ℕ)} :
    ∀ {s : Pool Db Decision}, (∀ e ∈ es, Fresh e) → CallsOk s → Broken t m s →
      Broken t m (play panel s es) := by
  induction es with
  | nil => exact fun _ _ h => h
  | cons e es ih =>
    intro s hf hc h
    have hfe := hf e List.mem_cons_self
    exact ih (fun e he => hf e (List.mem_cons_of_mem _ he)) (next_callsOk hfe hc) (h.next hfe hc)

theorem steady_single_iff {t m : String} {es : List (Event Decision Unit ℕ)} :
    ∀ {s : Pool Db Decision}, (∀ e ∈ es, Fresh e) → CallsOk s → Steady t m s →
      (SingleRelease t m (ProcessPool.play panel s es) ↔
        Admits panel (fun s e => ¬ Late t m s e) s es) := by
  induction es with
  | nil => exact fun _ hc h => ⟨fun _ => trivial, fun _ => h.single hc⟩
  | cons e es ih =>
    intro s hf hc h
    have hfe := hf e List.mem_cons_self
    have hfs : ∀ e ∈ es, Fresh e := fun e he => hf e (List.mem_cons_of_mem _ he)
    by_cases hl : Late t m s e
    · constructor
      · intro hs
        exact absurd hs ((next_late hfe hc hl).play hfs (next_callsOk hfe hc)).not_single
      · intro ha
        exact absurd hl ha.1
    · have hn := ih hfs (next_callsOk hfe hc) (next_steady hfe hc h hl)
      exact ⟨fun hs => ⟨hl, hn.mp hs⟩, fun ha => hn.mpr ha.2⟩

/-- In any interleaving of decisions over a parked RITM the release is single, and what
the approvers were told is true, exactly when no approval commits after a rejection. -/
theorem single_release_iff (t m : String) (s : Pool Db Decision)
    (es : List (Event Decision Unit ℕ)) (hs : Parked t m s) (hf : ∀ e ∈ es, Fresh e) :
    SingleRelease t m (ProcessPool.play panel s es) ↔
      Admits panel (fun s e => ¬ Late t m s e) s es := by
  apply steady_single_iff hf
  · intro d hd
    rw [hs.procs] at hd
    cases hd
  · refine .inl ⟨hs.ritm, hs.rows, ?_⟩
    intro d hd
    rw [hs.procs] at hd
    cases hd

def panelRow (approvalId requestedFrom : String) : ApprovalRow :=
  ⟨"t", approvalId, "RITM0000000001", none, "manager", "", requestedFrom, .pending, none, none, 1⟩

def panelOrder : Db :=
  { sampleDb { sampleRitm .requested 1 with approvalState := some .requested } []
      requestedOne_length List.nodup_nil List.nodup_nil (fun _ h => (by cases h)) with
    approval := ⟨[panelRow "APP1" "bob", panelRow "APP2" "cat"], by decide, by decide⟩ }

def decideOn (approvalId decidedBy decision : String) : Event Decision Unit ℕ :=
  .spawn ⟨"t", approvalId, decision, decidedBy, none, .read⟩

def bothDecide (first second : String) : List (Event Decision Unit ℕ) :=
  [decideOn "APP1" "bob" first, decideOn "APP2" "cat" second, .act 0 (), .act 1 (), .act 0 (),
    .act 1 ()]

theorem bothDecide_fresh (first second : String) : ∀ e ∈ bothDecide first second, Fresh e := by
  intro e he
  simp only [bothDecide, List.mem_cons, List.not_mem_nil, or_false] at he
  rcases he with rfl | rfl | rfl | rfl | rfl | rfl <;> trivial

theorem panelOrder_parked : Parked "t" "RITM0000000001" ⟨panelOrder, []⟩ := by
  refine ⟨rfl, ⟨_, rfl, rfl⟩, ?_⟩
  rintro a ⟨ha, _⟩
  change a ∈ [panelRow "APP1" "bob", panelRow "APP2" "cat"] at ha
  simp only [List.mem_cons, List.not_mem_nil, or_false] at ha
  rcases ha with rfl | rfl <;> exact ⟨by decide, by decide⟩

theorem not_late_of_ritm {t m : String} {s : Pool Db Decision} {e : Event Decision Unit ℕ}
    (h : ¬ RitmIn t m .rejected s.shared) : ¬ Late t m s e := by
  cases e with
  | act i inp =>
    rintro ⟨_, _, _, _, _, _, _, _, _, _, hr⟩
    exact h hr
  | spawn d => exact id
  | env n => exact id

/-- The second approver loses the race and is told so; one call dispatches. -/
theorem single_release_iff_both_approve :
    SingleRelease "t" "RITM0000000001"
      (ProcessPool.play panel ⟨panelOrder, []⟩ (bothDecide "approved" "approved")) ∧
    RitmIn "t" "RITM0000000001" .approved
      (ProcessPool.play panel ⟨panelOrder, []⟩ (bothDecide "approved" "approved")).shared := by
  constructor
  · apply (single_release_iff _ _ _ _ panelOrder_parked (bothDecide_fresh _ _)).mpr
    refine ⟨?_, ?_, ?_, ?_, ?_, ?_, trivial⟩ <;> exact not_late_of_ritm (by decide)
  · decide

/-- The first approver rejects; the second is told that the fulfilment will start. -/
theorem approval_told_after_rejection :
    Parked "t" "RITM0000000001" ⟨panelOrder, []⟩ ∧
    (∀ e ∈ bothDecide "rejected" "approved", Fresh e) ∧
    (∃ d ∈ (ProcessPool.play panel ⟨panelOrder, []⟩ (bothDecide "rejected" "approved")).procs,
      Reports "t" "RITM0000000001" "approved" d) ∧
    RitmIn "t" "RITM0000000001" .rejected
      (ProcessPool.play panel ⟨panelOrder, []⟩ (bothDecide "rejected" "approved")).shared ∧
    ¬ SingleRelease "t" "RITM0000000001"
      (ProcessPool.play panel ⟨panelOrder, []⟩ (bothDecide "rejected" "approved")) := by
  have told : ∃ d ∈ (ProcessPool.play panel ⟨panelOrder, []⟩
      (bothDecide "rejected" "approved")).procs, Reports "t" "RITM0000000001" "approved" d :=
    ⟨_, List.mem_of_getElem? (i := 1) rfl, rfl, _, rfl, rfl, rfl, rfl⟩
  have stays : RitmIn "t" "RITM0000000001" .rejected
      (ProcessPool.play panel ⟨panelOrder, []⟩ (bothDecide "rejected" "approved")).shared := by
    decide
  exact ⟨panelOrder_parked, bothDecide_fresh _ _, told, stays, Broken.not_single ⟨stays, told⟩⟩

end FulfillmentRelease
