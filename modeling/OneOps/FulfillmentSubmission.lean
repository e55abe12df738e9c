import OneOps.FulfillmentDb
import OneOps.FulfillmentPlanning
import OneOps.PythonText

/-! `fulfill_request` and the chat tool `create_service_request` around it, statement by
statement. Neither opens a transaction: a call that stops between two statements leaves
what it has written. Fresh ids are drawn by the environment. -/
namespace FulfillmentSubmission

open FulfillmentContracts
open FulfillmentDb
open FulfillmentPlanning

def duplicateLookbackDays : ℕ := 30

/-- The random parts of the ids a step may need, cut to the length the code keeps. -/
structure Draw where
  hex10 : String
  hex14 : String
  length10 : hex10.length = 10

def ritmIdOf (d : Draw) : String := "RITM" ++ d.hex10

theorem ritmIdOf_length (d : Draw) : (ritmIdOf d).length = 14 := by
  simp [ritmIdOf, String.length_append, d.length10]
  rfl

inductive FulfilPhase where
  | assertRequest
  | duplicateGate
  | loadTemplate
  | idemLookup (name : String) (plan : FulfillmentPlan)
  | insertRitm (name : String) (plan : FulfillmentPlan)
  | insertTasks (name ritmId : String) (todo : List TaskPlanItem) (inserted : ℕ)
  | insertRun (name ritmId : String) (inserted : ℕ)
  | returned (o : Outcome)
  | raised (e : FulfillmentError)

def newRitm (req : FulfillmentRequest) (plan : FulfillmentPlan) (d : Draw) (now : ℕ) : RitmRow :=
  { tenantId := req.tenantId
    ritmId := ritmIdOf d
    requestId := req.requestId
    catalogItemId := req.catalogItemId
    requestedFor := req.requestedFor
    openedBy := req.openedBy
    state := .requested
    approvalState := none
    totalTasks := plan.tasks.length
    completedTasks := 0
    failedTasks := 0
    openedAt := now
    approvedAt := none
    startedAt := none
    fulfilledAt := none
    closedAt := none
    updatedAt := now
    idempotencyKey := req.idempotencyKey
    version := 1 }

def newTask (req : FulfillmentRequest) (ritmId : String) (t : TaskPlanItem) (d : Draw) (now : ℕ) :
    TaskRow :=
  { tenantId := req.tenantId
    taskId := "SCTASK" ++ d.hex10
    ritmId := ritmId
    requestId := req.requestId
    templateTaskId := t.templateTaskId
    taskName := t.taskName
    taskType := t.taskType
    toolId := t.toolId
    dependsOn := t.dependsOn
    assignmentGroup := t.assignmentGroup
    state := .pending
    retryCount := 0
    maxRetries := 3
    inputPayload := t.inputPayload
    outputPayload := none
    errorMessage := none
    errorCode := none
    slaMinutes := t.slaMinutes
    readyAt := none
    startedAt := none
    finishedAt := none
    updatedAt := now
    version := 1 }

def newRun (req : FulfillmentRequest) (ritmId : String) (d : Draw) (now : ℕ) : RunRow :=
  ⟨req.tenantId, "RUN" ++ d.hex14, ritmId, req.triggerType, req.openedBy, none, none, now, none⟩

def submitted (req : FulfillmentRequest) (name ritmId runId : String) (n : ℕ) : Outcome :=
  { tenantId := req.tenantId
    requestId := req.requestId
    ritmId := ritmId
    catalogItemId := req.catalogItemId
    runId := runId
    outcome := .inProgress
    tasksTotal := n
    tasksCompleted := 0
    tasksFailed := 0
    tasksSkipped := 0
    tasksInProgress := 0
    displayText := "Fulfillment plan created for " ++ name ++ " — " ++ toString n ++
      " tasks queued. Status: " ++ ritmId ++ "."
    counters_sum := Nat.zero_le _ }

/-- `if idempotency_key:` — an empty key takes the same path as no key. -/
def keyGiven (req : FulfillmentRequest) : Bool :=
  req.idempotencyKey ≠ none ∧ req.idempotencyKey ≠ some ""

variable (format : String → JsonObject → Except FormatError String)

def fulfilStep (req : FulfillmentRequest) (d : Draw) (db : Db) (p : FulfilPhase) :
    Db × FulfilPhase :=
  match p with
  | .assertRequest =>
    (db, if requestExists req.tenantId req.requestId db then .duplicateGate
      else .raised ⟨.requestNotFound, "request '" ++ req.requestId ++ "' not found for tenant '" ++
        req.tenantId ++ "'"⟩)
  | .duplicateGate =>
    match findOpenDuplicate req.tenantId req.requestedFor req.catalogItemId
        duplicateLookbackDays db with
    | none => (db, .loadTemplate)
    | some existing => (db, .raised ⟨.duplicateRequest,
        "open RITM " ++ existing ++ " already exists for " ++ req.requestedFor ++ " + " ++
          req.catalogItemId ++ " within 30 days"⟩)
  | .loadTemplate =>
    match loadCatalogTemplate req.tenantId req.catalogItemId db with
    | .error e => (db, .raised e)
    | .ok template =>
      match materialisePlanFromTemplate format template req.requestVariables with
      | .error e => (db, .raised e)
      | .ok plan =>
        (db, if keyGiven req then .idemLookup template.name plan
          else .insertRitm template.name plan)
  | .idemLookup name plan =>
    match findRitmByKey req.tenantId (req.idempotencyKey.getD "") db with
    | some existing => (db, .insertTasks name existing plan.tasks 0)
    | none => (db, .insertRitm name plan)
  | .insertRitm name plan =>
    match insertRequestItem (newRitm req plan d db.now) (ritmIdOf_length d) db with
    | .ok db' => (db', .insertTasks name (ritmIdOf d) plan.tasks 0)
    | .uniqueViolation =>
      (db, .raised ⟨.persistence, "failed to insert RITM (uniqueness violation)"⟩)
    | .foreignKeyViolation => (db, .raised ⟨.foreignKey, "itsm.request_item.request_id"⟩)
  | .insertTasks name ritmId [] n => (db, .insertRun name ritmId n)
  | .insertTasks name ritmId (t :: todo) n =>
    match insertTask (newTask req ritmId t d db.now) db with
    | .ok db' => (db', .insertTasks name ritmId todo (n + 1))
    | .uniqueViolation => (db, .insertTasks name ritmId todo n)
    | .foreignKeyViolation => (db, .raised ⟨.foreignKey, "itsm.task.ritm_id"⟩)
  | .insertRun name ritmId n =>
    match insertFulfillmentRun (newRun req ritmId d db.now) db with
    | none => (db, .raised ⟨.other, "duplicate key value: fulfillment_run"⟩)
    | some db' => (db', .returned (submitted req name ritmId ("RUN" ++ d.hex14) n))
  | .returned o => (db, .returned o)
  | .raised e => (db, .raised e)

structure CreateArgs where
  tenantId : String
  userId : String
  catalogId : String
  formFields : JsonObject
  requestedFor : String
  quantity : ℤ
  idempotencyKey : Option String

structure ToolResult where
  ok : Bool
  errorCode : Option String
  requestId : Option String
  ritmId : Option String
  status : Option String
  dispatched : Bool
  deriving DecidableEq

/-- The answer of `resolve_approvers`, as far as the gate reads it. -/
structure GateDecision where
  required : Bool
  approvalType : String
  reason : String
  approvers : List String

structure SubmitInput where
  draw : Draw
  gate : Option GateDecision
  approvalIds : List String
  published : Bool

inductive CreatePhase where
  | loadForm
  | insertRequest (catalogName : String)
  | fulfil (req : FulfillmentRequest) (p : FulfilPhase)
  | gate (o : Outcome)
  | hold (o : Outcome)
  | holdStamp (o : Outcome)
  | park (o : Outcome) (g : GateDecision)
  | dispatch (o : Outcome)
  | returned (r : ToolResult)
  | raised (e : FulfillmentError)

structure CreateConfig where
  approvalEnabled : Bool
  natsAvailable : Bool

/-- `not str(fields.get(name, "")).strip()`: absent, or a blank text. -/
def blankField (fields : JsonObject) (name : String) : Bool :=
  match fields.find? (fun kv => kv.1 = name) with
  | none => true
  | some (_, .str s) => s.toList.all PythonText.isSpace
  | some _ => false

def missingFields (schema : List (String × Bool)) (fields : JsonObject) : List String :=
  (schema.filter fun f => f.2 && blankField fields f.1).map Prod.fst

def newRequest (a : CreateArgs) (catalogName : String) (d : Draw) : RequestRow :=
  ⟨a.tenantId, "REQ" ++ d.hex10, catalogName ++ " request", "requested", "request", a.catalogId,
    a.requestedFor, a.userId, a.formFields⟩

def requestOf (a : CreateArgs) (requestId : String) : FulfillmentRequestFields :=
  ⟨a.tenantId, requestId, a.catalogId, a.formFields, a.requestedFor, a.userId, a.quantity,
    a.idempotencyKey, .chat⟩

def refused (code : String) (requestId : Option String) : ToolResult :=
  ⟨false, some code, requestId, none, none, false⟩

/-- The typed errors the tool turns into `ok=False`; all others leave it as exceptions. -/
def fulfilFailure (requestId : String) (e : FulfillmentError) : CreatePhase :=
  match e.kind with
  | .duplicateRequest => .returned (refused "UC08_DUPLICATE_REQUEST" (some requestId))
  | .catalogItemNotFound => .returned (refused "UC08_CATALOG_ITEM_NOT_FOUND" none)
  | _ => .raised e

def insertApprovals (rows : List ApprovalRow) (db : Db) : Option Db :=
  rows.foldlM (fun db r => insertApproval r db) db

theorem insertApprovals_items {rows : List ApprovalRow} :
    ∀ {db db' : Db}, insertApprovals rows db = some db' → SameItems db db' := by
  induction rows with
  | nil =>
    intro db db' h
    cases h
    exact ⟨rfl, rfl, rfl⟩
  | cons r rows ih =>
    intro db db' h
    obtain ⟨db₁, h₁, h₂⟩ := Option.bind_eq_some_iff.mp h
    have s₁ := insertApproval_items h₁
    have s₂ := ih h₂
    exact ⟨s₂.task.trans s₁.task, s₂.requestItem.trans s₁.requestItem, s₂.now.trans s₁.now⟩

def gateRows (a : CreateArgs) (o : Outcome) (g : GateDecision) (ids : List String) :
    List ApprovalRow :=
  (g.approvers.zip ids).map fun x =>
    ⟨a.tenantId, "APP" ++ x.2, o.ritmId, none, g.approvalType, g.reason, x.1, .pending, none,
      none, 1⟩

def heldResult (o : Outcome) (status : String) : ToolResult :=
  ⟨true, none, some o.requestId, some o.ritmId, some status, false⟩

def createStep (cfg : CreateConfig) (a : CreateArgs) (inp : SubmitInput) (db : Db)
    (p : CreatePhase) : Db × CreatePhase :=
  match p with
  | .loadForm =>
    if a.catalogId = "" then (db, .returned (refused "UC08_BAD_REQUEST" none))
    else match db.catalogItem.lookup (a.tenantId, a.catalogId) with
    | none => (db, .returned (refused "UC08_CATALOG_ITEM_NOT_FOUND" none))
    | some row =>
      (db, if (missingFields row.requestFields a.formFields).isEmpty then
          .insertRequest (if row.name = "" then a.catalogId else row.name)
        else .returned (refused "UC08_MISSING_FIELDS" none))
  | .insertRequest catalogName =>
    if (a.tenantId, a.requestedFor) ∈ db.sysUser ∧ (a.tenantId, a.userId) ∈ db.sysUser then
      match insertRequest (newRequest a catalogName inp.draw) db with
      | none => (db, .raised ⟨.persistence, "failed to insert SR (uniqueness violation)"⟩)
      | some db' =>
        if h : (requestOf a ("REQ" ++ inp.draw.hex10)).Valid then
          (db', .fulfil { requestOf a ("REQ" ++ inp.draw.hex10) with valid := h } .assertRequest)
        else (db', .returned (refused "UC08_BAD_REQUEST" none))
    else (db, .returned (refused "UC08_REQUESTER_NOT_FOUND" none))
  | .fulfil _ (.returned o) =>
    (db, if cfg.approvalEnabled ∧ o.ritmId ≠ "" then .gate o else .dispatch o)
  | .fulfil req (.raised e) => (db, fulfilFailure req.requestId e)
  | .fulfil req q =>
    ((fulfilStep format req inp.draw db q).1, .fulfil req (fulfilStep format req inp.draw db q).2)
  | .gate o =>
    match inp.gate with
    | none => (db, .returned (heldResult o "approval_error"))
    | some g =>
      (db, if !g.required then .dispatch o else if g.approvers.isEmpty then .hold o else .park o g)
  | .hold o => (setRitmApprovalState a.tenantId o.ritmId .requested db, .holdStamp o)
  | .holdStamp o =>
    (setRequestLifecycle a.tenantId o.requestId "pending_approval" "approval" db,
      .returned (heldResult o "approval_unresolved"))
  | .park o g =>
    match insertApprovals (gateRows a o g inp.approvalIds) db with
    | none => (db, .returned (heldResult o "approval_error"))
    | some db' =>
      (setRequestLifecycle a.tenantId o.requestId "pending_approval" "approval"
        (setRitmApprovalState a.tenantId o.ritmId .requested db'),
        .returned (heldResult o "pending_approval"))
  | .dispatch o =>
    (db, .returned ⟨true, none, some o.requestId, some o.ritmId, none,
      cfg.natsAvailable && inp.published⟩)
  | .returned r => (db, .returned r)
  | .raised e => (db, .raised e)

end FulfillmentSubmission
