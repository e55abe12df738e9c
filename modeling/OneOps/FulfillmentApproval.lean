import OneOps.FulfillmentDb

/-! `decide_approval`: a stale read and its guards, then one transaction that decides the
row, withdraws its siblings and moves the parked RITM. -/
namespace FulfillmentApproval

open FulfillmentContracts
open FulfillmentDb

def approvalStateValue : ApprovalState → String
  | .pending => "pending"
  | .approved => "approved"
  | .rejected => "rejected"
  | .expired => "expired"
  | .withdrawn => "withdrawn"

structure DecisionOutcome where
  ok : Bool
  ritmId : Option String
  state : String
  shouldDispatch : Bool
  message : String
  deriving DecidableEq

inductive DecisionPhase where
  | read
  | transact (approval : ApprovalRow)
  | returned (o : DecisionOutcome)

structure Decision where
  tenantId : String
  approvalId : String
  decision : String
  decidedBy : String
  comment : Option String
  phase : DecisionPhase

def decisionRead (db : Db) (d : Decision) : DecisionPhase :=
  if d.decision ≠ "approved" ∧ d.decision ≠ "rejected" then
    .returned ⟨false, none, "error", false, "decision must be 'approved' or 'rejected'"⟩
  else
    match getApproval d.tenantId d.approvalId db with
    | none => .returned ⟨false, none, "error", false, "approval not found"⟩
    | some a =>
      if a.state ≠ .pending then
        .returned ⟨true, some a.ritmId, approvalStateValue a.state, false,
          "this approval was already decided"⟩
      else if d.decidedBy ≠ a.requestedFrom then
        .returned ⟨false, some a.ritmId, "error", false,
          "you are not the assigned approver for this request"⟩
      else .transact a

/-- The statements inside `conn.transaction()`, committed as one step. -/
def decisionTransact (db : Db) (d : Decision) (a : ApprovalRow) : Db × DecisionOutcome :=
  let approved : Bool := d.decision = "approved"
  let verdict : ApprovalState := if approved then .approved else .rejected
  match updateApprovalDecision d.tenantId d.approvalId verdict d.decidedBy d.comment db with
  | (none, db₁) =>
    (db₁, ⟨true, some a.ritmId, "already", false, "this approval was already decided"⟩)
  | (some ritmId, db₁) =>
    let db₂ :=
      if approved then withdrawOtherPendingApprovals d.tenantId ritmId d.approvalId db₁ else db₁
    let moved := applyApprovalOutcome d.tenantId ritmId approved db₂
    let db₃ := match moved.1 with
      | none => moved.2
      | some requestId =>
        setRequestLifecycle d.tenantId requestId (if approved then "approved" else "rejected")
          (if approved then "fulfillment" else "closed") moved.2
    (db₃, ⟨true, some ritmId, d.decision, approved && moved.1.isSome,
      if approved then "Approved — fulfilment for " ++ ritmId ++ " will start."
      else "Rejected — " ++ ritmId ++ " will not be fulfilled."⟩)

def decisionStep (db : Db) (d : Decision) : Db × DecisionPhase :=
  match d.phase with
  | .read => (db, decisionRead db d)
  | .transact a => ((decisionTransact db d a).1, .returned (decisionTransact db d a).2)
  | .returned o => (db, .returned o)

end FulfillmentApproval
