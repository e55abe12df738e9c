import OneOps.KeyedTable
import OneOps.FulfillmentContracts

/-! The fulfilment tables and one function per SQL statement of the data layer.
Each statement is atomic. Time is counted in seconds and `now` is the clock the
statement reads. Only columns that a modelled function reads or decides on are kept. -/
namespace FulfillmentDb

open KeyedTable
open FulfillmentContracts

instance lawfulKeys : LawfulBEq (String × String) := inferInstance

structure TaskRow where
  tenantId : String
  taskId : String
  ritmId : String
  requestId : String
  templateTaskId : String
  taskName : String
  taskType : TaskType
  toolId : Option String
  dependsOn : List String
  assignmentGroup : Option String
  state : TaskState
  retryCount : ℕ
  maxRetries : ℕ
  inputPayload : JsonObject
  outputPayload : Option Json
  errorMessage : Option String
  errorCode : Option String
  slaMinutes : Option ℕ
  readyAt : Option ℕ
  startedAt : Option ℕ
  finishedAt : Option ℕ
  updatedAt : ℕ
  version : ℕ

structure RitmRow where
  tenantId : String
  ritmId : String
  requestId : String
  catalogItemId : String
  requestedFor : String
  openedBy : String
  state : RitmState
  approvalState : Option ApprovalGateState
  totalTasks : ℕ
  completedTasks : ℕ
  failedTasks : ℕ
  openedAt : ℕ
  approvedAt : Option ℕ
  startedAt : Option ℕ
  fulfilledAt : Option ℕ
  closedAt : Option ℕ
  updatedAt : ℕ
  idempotencyKey : Option String
  version : ℕ

structure RequestRow where
  tenantId : String
  requestId : String
  title : String
  status : String
  stage : String
  catalogItemId : String
  requestedFor : String
  requestedBy : String
  formFields : JsonObject

structure ApprovalRow where
  tenantId : String
  approvalId : String
  ritmId : String
  taskId : Option String
  approvalType : String
  reason : String
  requestedFrom : String
  state : ApprovalState
  decidedBy : Option String
  decisionComment : Option String
  version : ℕ

/-- The four results `_is_terminal` can name. -/
inductive RitmOutcome where
  | fulfilled | partialFailure | failed | blocked
  deriving DecidableEq, Repr

structure RunRow where
  tenantId : String
  runId : String
  ritmId : String
  triggerType : TriggerType
  triggeredBy : String
  outcome : Option RitmOutcome
  failureReason : Option String
  startedAt : ℕ
  finishedAt : Option ℕ

/-- One entry of `itsm.catalog_item.tasks`, before validation. -/
structure RawTemplateTask where
  taskId : Option String
  id : Option String
  name : Option String
  type : Option String
  ownerGroup : Option String
  dependsOn : Option (List String)
  toolId : Option String
  inputTemplate : Option JsonObject
  slaMinutes : Option ℕ

structure CatalogItemRow where
  tenantId : String
  catalogItemId : String
  name : String
  description : Option String
  category : Option String
  ownerGroup : Option String
  estimatedTotalMinutes : Option ℕ
  tasks : List RawTemplateTask
  requestFields : List (String × Bool)

def taskKey (r : TaskRow) : String × String := (r.tenantId, r.taskId)

/-- The column `idempotency_key` always holds this text, so it is computed. -/
def taskIdempotencyKey (r : TaskRow) : String := r.ritmId ++ ":" ++ r.templateTaskId

def taskAlt (r : TaskRow) : Option (String × String) := some (r.tenantId, taskIdempotencyKey r)

def ritmKey (r : RitmRow) : String × String := (r.tenantId, r.ritmId)
def ritmAlt (r : RitmRow) : Option (String × String) := r.idempotencyKey.map (r.tenantId, ·)
def requestKey (r : RequestRow) : String × String := (r.tenantId, r.requestId)
def approvalKey (r : ApprovalRow) : String × String := (r.tenantId, r.approvalId)
def runKey (r : RunRow) : String × String := (r.tenantId, r.runId)
def catalogKey (r : CatalogItemRow) : String × String := (r.tenantId, r.catalogItemId)
def noAlt {α : Type} (_ : α) : Option Unit := none

/-- The tables with the constraints the workflow leans on: primary keys, the two
UNIQUE idempotency keys, two foreign keys, and the id format of a RITM. -/
structure Db where
  request : Table requestKey noAlt
  requestItem : Table ritmKey ritmAlt
  task : Table taskKey taskAlt
  approval : Table approvalKey noAlt
  fulfillmentRun : Table runKey noAlt
  catalogItem : Table catalogKey noAlt
  sysUser : List (String × String)
  now : ℕ
  ritm_length : ∀ r ∈ requestItem.rows, r.ritmId.length = 14
  ritm_request : ∀ r ∈ requestItem.rows, (r.tenantId, r.requestId) ∈ request.rows.map requestKey
  task_ritm : ∀ t ∈ task.rows, (t.tenantId, t.ritmId) ∈ requestItem.rows.map ritmKey

structure TaskTransition where
  tenantId : String
  taskId : String
  fromState : TaskState
  toState : TaskState
  version : ℕ
  outputPayload : Option Json
  errorMessage : Option String
  errorCode : Option String
  retryCount : Option ℕ

def TaskTransition.matches (a : TaskTransition) (r : TaskRow) : Bool :=
  r.tenantId = a.tenantId ∧ r.taskId = a.taskId ∧ r.state = a.fromState ∧ r.version = a.version

def TaskTransition.set (a : TaskTransition) (now : ℕ) (r : TaskRow) : TaskRow :=
  { r with
    state := a.toState
    outputPayload := a.outputPayload <|> r.outputPayload
    errorMessage := a.errorMessage <|> r.errorMessage
    errorCode := a.errorCode <|> r.errorCode
    retryCount := a.retryCount.getD r.retryCount
    startedAt := if a.toState = .inProgress ∧ r.startedAt = none then some now else r.startedAt
    finishedAt := if a.toState = .done ∨ a.toState = .failed ∨ a.toState = .skipped
      then some now else r.finishedAt
    readyAt := if a.toState = .ready ∧ r.readyAt = none then some now else r.readyAt
    updatedAt := now
    version := r.version + 1 }

theorem taskAlt_unchanged {f : TaskRow → TaskRow} (hk : ∀ r, taskKey (f r) = taskKey r)
    (hr : ∀ r, (f r).ritmId = r.ritmId) (ht : ∀ r, (f r).templateTaskId = r.templateTaskId)
    (r : TaskRow) : taskAlt (f r) = taskAlt r := by
  have := hk r
  simp only [taskKey, Prod.mk.injEq] at this
  simp [taskAlt, taskIdempotencyKey, hr, ht, this.1]

def updateTasks (p : TaskRow → Bool) (f : TaskRow → TaskRow)
    (hk : ∀ r, taskKey (f r) = taskKey r) (hr : ∀ r, (f r).ritmId = r.ritmId)
    (ht : ∀ r, (f r).templateTaskId = r.templateTaskId) (db : Db) : Db :=
  { db with
    task := db.task.update p f hk (taskAlt_unchanged hk hr ht)
    task_ritm := by
      intro t h
      obtain ⟨q, hq, rfl⟩ := Table.mem_update.mp h
      have hqk := hk q
      simp only [taskKey, Prod.mk.injEq] at hqk
      by_cases hp : p q
      · simpa [hp, hqk.1, hr] using db.task_ritm q hq
      · simpa [hp] using db.task_ritm q hq }

/-- The optimistic-lock UPDATE. `none` means that no row matched. -/
def transitionTaskState (a : TaskTransition) (db : Db) : Option ℕ × Db :=
  ((db.task.rows.find? a.matches).map (·.version + 1),
    updateTasks a.matches (a.set db.now) (fun _ => rfl) (fun _ => rfl) (fun _ => rfl) db)

def listTasksForRitm (tenantId ritmId : String) (db : Db) : List TaskRow :=
  (db.task.rows.filter fun r => r.tenantId = tenantId ∧ r.ritmId = ritmId).insertionSort
    fun a b => b.updatedAt ≤ a.updatedAt

def stuckTask (tenantId ritmId : String) (minutes now : ℕ) (r : TaskRow) : Bool :=
  r.tenantId = tenantId ∧ r.ritmId = ritmId ∧ r.state = .inProgress ∧
    ∃ s ∈ r.startedAt, s + minutes * 60 < now

def recoverTask (now : ℕ) (r : TaskRow) : TaskRow :=
  { r with
    state := .ready
    retryCount := r.retryCount + 1
    errorMessage := some "recovered_from_orphan"
    updatedAt := now
    version := r.version + 1 }

/-- The unconditional recovery UPDATE of `_init_ritm_and_recover`: no version guard. -/
def recoverStuckTasks (tenantId ritmId : String) (minutes : ℕ) (db : Db) : Db :=
  updateTasks (stuckTask tenantId ritmId minutes db.now) (recoverTask db.now)
    (fun _ => rfl) (fun _ => rfl) (fun _ => rfl) db

structure RitmTransition where
  tenantId : String
  ritmId : String
  fromState : RitmState
  toState : RitmState
  version : ℕ
  completedTasks : Option ℕ
  failedTasks : Option ℕ

def RitmTransition.matches (a : RitmTransition) (r : RitmRow) : Bool :=
  r.tenantId = a.tenantId ∧ r.ritmId = a.ritmId ∧ r.state = a.fromState ∧ r.version = a.version

def RitmTransition.set (a : RitmTransition) (now : ℕ) (r : RitmRow) : RitmRow :=
  { r with
    state := a.toState
    completedTasks := a.completedTasks.getD r.completedTasks
    failedTasks := a.failedTasks.getD r.failedTasks
    startedAt := if a.toState = .inProgress ∧ r.startedAt = none then some now else r.startedAt
    fulfilledAt := if a.toState = .fulfilled then some now else r.fulfilledAt
    closedAt := if a.toState = .cancelled ∨ a.toState = .rejected ∨ a.toState = .fulfilled
      then some now else r.closedAt
    updatedAt := now
    version := r.version + 1 }

theorem ritmAlt_unchanged {f : RitmRow → RitmRow} (hk : ∀ r, ritmKey (f r) = ritmKey r)
    (hi : ∀ r, (f r).idempotencyKey = r.idempotencyKey) (r : RitmRow) :
    ritmAlt (f r) = ritmAlt r := by
  have := hk r
  simp only [ritmKey, Prod.mk.injEq] at this
  simp [ritmAlt, hi, this.1]

def updateRitms (p : RitmRow → Bool) (f : RitmRow → RitmRow)
    (hk : ∀ r, ritmKey (f r) = ritmKey r) (hi : ∀ r, (f r).idempotencyKey = r.idempotencyKey)
    (hq : ∀ r, (f r).requestId = r.requestId) (db : Db) : Db :=
  { db with
    requestItem := db.requestItem.update p f hk (ritmAlt_unchanged hk hi)
    ritm_length := by
      intro t h
      obtain ⟨q, hq, rfl⟩ := Table.mem_update.mp h
      have hqk := hk q
      simp only [ritmKey, Prod.mk.injEq] at hqk
      by_cases hp : p q
      · simpa [hp, hqk.2] using db.ritm_length q hq
      · simpa [hp] using db.ritm_length q hq
    ritm_request := by
      intro t h
      obtain ⟨q, hmem, rfl⟩ := Table.mem_update.mp h
      have hqk := hk q
      simp only [ritmKey, Prod.mk.injEq] at hqk
      by_cases hp : p q
      · simpa [hp, hqk.1, hq] using db.ritm_request q hmem
      · simpa [hp] using db.ritm_request q hmem
    task_ritm := by
      intro t h
      change _ ∈ (updateWhere p f db.requestItem.rows).map ritmKey
      rw [map_updateWhere hk]
      exact db.task_ritm t h }

def transitionRitmState (a : RitmTransition) (db : Db) : Option ℕ × Db :=
  ((db.requestItem.rows.find? a.matches).map (·.version + 1),
    updateRitms a.matches (a.set db.now) (fun _ => rfl) (fun _ => rfl) (fun _ => rfl) db)

def getRitm (tenantId ritmId : String) (db : Db) : Option RitmRow :=
  db.requestItem.lookup (tenantId, ritmId)

def isRitm (tenantId ritmId : String) (r : RitmRow) : Bool :=
  r.tenantId = tenantId ∧ r.ritmId = ritmId

def approvalStateSet (s : ApprovalGateState) (now : ℕ) (r : RitmRow) : RitmRow :=
  { r with
    approvalState := some s
    approvedAt := if s = .approved then some now else r.approvedAt
    updatedAt := now }

/-- Parks a RITM: `approval_state` moves, `state` and `version` do not. -/
def setRitmApprovalState (tenantId ritmId : String) (s : ApprovalGateState) (db : Db) : Db :=
  updateRitms (isRitm tenantId ritmId) (approvalStateSet s db.now) (fun _ => rfl) (fun _ => rfl)
    (fun _ => rfl) db

def approvalOutcomeMatches (tenantId ritmId : String) (r : RitmRow) : Bool :=
  r.tenantId = tenantId ∧ r.ritmId = ritmId ∧ r.state = .requested

def approvalOutcomeSet (approved : Bool) (now : ℕ) (r : RitmRow) : RitmRow :=
  { r with
    approvalState := some (if approved then .approved else .rejected)
    state := if approved then .approved else .rejected
    approvedAt := if approved then some now else r.approvedAt
    closedAt := if approved then r.closedAt else some now
    updatedAt := now
    version := r.version + 1 }

/-- Only a RITM that is still `requested` moves; returns its parent request. -/
def applyApprovalOutcome (tenantId ritmId : String) (approved : Bool) (db : Db) :
    Option String × Db :=
  ((db.requestItem.rows.find? (approvalOutcomeMatches tenantId ritmId)).map (·.requestId),
    updateRitms (approvalOutcomeMatches tenantId ritmId) (approvalOutcomeSet approved db.now)
      (fun _ => rfl) (fun _ => rfl) (fun _ => rfl) db)

def openRitm (s : RitmState) : Prop := s = .requested ∨ s = .approved ∨ s = .inProgress

instance (s : RitmState) : Decidable (openRitm s) := inferInstanceAs (Decidable (_ ∨ _))

/-- The WHERE clause of `find_open_duplicate`. -/
def openDuplicate (tenantId requestedFor catalogItemId : String) (lookbackDays now : ℕ)
    (r : RitmRow) : Bool :=
  r.tenantId = tenantId ∧ r.requestedFor = requestedFor ∧ r.catalogItemId = catalogItemId ∧
    openRitm r.state ∧ now ≤ r.openedAt + lookbackDays * 86400

def findOpenDuplicate (tenantId requestedFor catalogItemId : String) (lookbackDays : ℕ)
    (db : Db) : Option String :=
  (((db.requestItem.rows.filter
    (openDuplicate tenantId requestedFor catalogItemId lookbackDays db.now)).insertionSort
    fun a b => b.openedAt ≤ a.openedAt).head?).map (·.ritmId)

def findRitmByKey (tenantId key : String) (db : Db) : Option String :=
  (db.requestItem.rows.find? fun r => r.tenantId = tenantId ∧ r.idempotencyKey = some key).map
    (·.ritmId)

def approvalTypes : List String :=
  ["substitution", "budget", "manager", "security", "catalog_owner"]

/-- `none` is the CHECK violation on `approval_type` or a primary-key clash. -/
def insertApproval (r : ApprovalRow) (db : Db) : Option Db :=
  if r.approvalType ∈ approvalTypes then
    (db.approval.insert r).map fun t => { db with approval := t }
  else none

def getApproval (tenantId approvalId : String) (db : Db) : Option ApprovalRow :=
  db.approval.lookup (tenantId, approvalId)

def pendingApproval (tenantId approvalId : String) (r : ApprovalRow) : Bool :=
  r.tenantId = tenantId ∧ r.approvalId = approvalId ∧ r.state = .pending

/-- Only a row that is still `pending` is decided; returns its RITM. -/
def updateApprovalDecision (tenantId approvalId : String) (decision : ApprovalState)
    (decidedBy : String) (comment : Option String) (db : Db) : Option String × Db :=
  ((db.approval.rows.find? (pendingApproval tenantId approvalId)).map (·.ritmId),
    { db with
      approval := db.approval.update (pendingApproval tenantId approvalId)
        (fun r => { r with
          state := decision
          decidedBy := some decidedBy
          decisionComment := comment
          version := r.version + 1 })
        (fun _ => rfl) (fun _ => rfl) })

def withdrawOtherPendingApprovals (tenantId ritmId keep : String) (db : Db) : Db :=
  { db with
    approval := db.approval.update
      (fun r => r.tenantId = tenantId ∧ r.ritmId = ritmId ∧ r.state = .pending ∧
        r.approvalId ≠ keep)
      (fun r => { r with state := .withdrawn, version := r.version + 1 })
      (fun _ => rfl) (fun _ => rfl) }

def pendingApprovalIds (tenantId ritmId : String) (db : Db) : List String :=
  (db.approval.rows.filter fun r =>
    r.tenantId = tenantId ∧ r.ritmId = ritmId ∧ r.state = .pending).map (·.approvalId)

def isRequest (tenantId requestId : String) (r : RequestRow) : Bool :=
  r.tenantId = tenantId ∧ r.requestId = requestId

def lifecycleSet (status stage : String) (r : RequestRow) : RequestRow :=
  { r with status := status, stage := stage }

def setRequestLifecycle (tenantId requestId status stage : String) (db : Db) : Db :=
  { db with
    request := db.request.update (isRequest tenantId requestId) (lifecycleSet status stage)
      (fun _ => rfl) (fun _ => rfl)
    ritm_request := by
      intro r hr
      have hkeys : (updateWhere (isRequest tenantId requestId) (lifecycleSet status stage)
          db.request.rows).map requestKey = db.request.rows.map requestKey :=
        map_updateWhere (f := lifecycleSet status stage) (fun _ => rfl) _ _
      change _ ∈ (updateWhere _ _ db.request.rows).map requestKey
      rw [hkeys]
      exact db.ritm_request r hr }

def latestRun (tenantId ritmId : String) (db : Db) : Option String :=
  (((db.fulfillmentRun.rows.filter fun r => r.tenantId = tenantId ∧ r.ritmId = ritmId).insertionSort
    fun a b => b.startedAt ≤ a.startedAt).head?).map (·.runId)

/-- `none` is the CHECK violation: `blocked` is no run outcome. -/
def finaliseRun (tenantId runId : String) (outcome : RitmOutcome) (failureReason : Option String)
    (db : Db) : Option Db :=
  if outcome = .blocked then none
  else some { db with
    fulfillmentRun := db.fulfillmentRun.update (fun r => r.tenantId = tenantId ∧ r.runId = runId)
      (fun r => { r with
        outcome := some outcome
        failureReason := failureReason
        finishedAt := some db.now })
      (fun _ => rfl) (fun _ => rfl) }

def requestExists (tenantId requestId : String) (db : Db) : Bool :=
  (db.request.lookup (tenantId, requestId)).isSome

def insertRequest (r : RequestRow) (db : Db) : Option Db :=
  match h : db.request.insert r with
  | none => none
  | some t => some { db with
    request := t
    ritm_request := by
      intro q hq
      rw [(Table.insert_eq_some h).1, List.map_append]
      exact List.mem_append_left _ (db.ritm_request q hq) }

inductive InsertResult where
  | ok (db : Db)
  | uniqueViolation
  | foreignKeyViolation

def insertRequestItem (r : RitmRow) (hr : r.ritmId.length = 14) (db : Db) : InsertResult :=
  if hf : (r.tenantId, r.requestId) ∈ db.request.rows.map requestKey then
    match h : db.requestItem.insert r with
    | none => .uniqueViolation
    | some t => .ok { db with
      requestItem := t
      ritm_length := by
        intro q hq
        rw [(Table.insert_eq_some h).1, List.mem_append, List.mem_singleton] at hq
        rcases hq with hq | rfl
        · exact db.ritm_length q hq
        · exact hr
      ritm_request := by
        intro q hq
        rw [(Table.insert_eq_some h).1, List.mem_append, List.mem_singleton] at hq
        rcases hq with hq | rfl
        · exact db.ritm_request q hq
        · exact hf
      task_ritm := by
        intro q hq
        rw [(Table.insert_eq_some h).1, List.map_append]
        exact List.mem_append_left _ (db.task_ritm q hq) }
  else .foreignKeyViolation

def insertTask (r : TaskRow) (db : Db) : InsertResult :=
  if hf : (r.tenantId, r.ritmId) ∈ db.requestItem.rows.map ritmKey then
    match h : db.task.insert r with
    | none => .uniqueViolation
    | some t => .ok { db with
      task := t
      task_ritm := by
        intro q hq
        rw [(Table.insert_eq_some h).1, List.mem_append, List.mem_singleton] at hq
        rcases hq with hq | rfl
        · exact db.task_ritm q hq
        · exact hf }
  else .foreignKeyViolation

def insertFulfillmentRun (r : RunRow) (db : Db) : Option Db :=
  (db.fulfillmentRun.insert r).map fun t => { db with fulfillmentRun := t }

def taskTypeOf : String → Option TaskType
  | "automated" => some .automated
  | "manual" => some .manual
  | _ => none

/-- The keyword arguments of `CatalogTemplateTask`; `none` when `type` is no TaskType. -/
def parseTemplateTask (t : RawTemplateTask) : Option CatalogTemplateTask :=
  (taskTypeOf ((t.type.filter (· ≠ "")).getD "automated")).map fun ty =>
    { taskId := (t.taskId.filter (· ≠ "") <|> t.id.filter (· ≠ "")).getD ""
      name := t.name.getD ""
      type := ty
      ownerGroup := t.ownerGroup
      dependsOn := t.dependsOn.getD []
      toolId := t.toolId
      inputTemplate := t.inputTemplate
      slaMinutes := t.slaMinutes }

/-- A row whose columns the `CatalogTemplate` validators refuse raises a pydantic
error, which is not the `InvalidTemplateError` of the docstring. -/
def loadCatalogTemplate (tenantId catalogItemId : String) (db : Db) :
    Except FulfillmentError CatalogTemplate :=
  match db.catalogItem.lookup (tenantId, catalogItemId) with
  | none => .error ⟨.catalogItemNotFound,
      "catalog item '" ++ catalogItemId ++ "' not found for tenant '" ++ tenantId ++ "'"⟩
  | some row =>
    match row.tasks.mapM parseTemplateTask, row.category, row.ownerGroup,
        row.estimatedTotalMinutes with
    | some tasks, some category, some ownerGroup, some minutes =>
      let c : CatalogTemplateFields :=
        { catalogItemId := row.catalogItemId
          tenantId := row.tenantId
          name := row.name
          description := row.description
          category := category
          ownerGroup := ownerGroup
          estimatedTotalMinutes := minutes
          tasks := tasks }
      if h : c.Valid then .ok { c with valid := h }
      else .error ⟨.validation, "catalog template " ++ catalogItemId⟩
    | _, _, _, _ => .error ⟨.validation, "catalog template " ++ catalogItemId⟩

theorem TaskTransition.matches_iff {a : TaskTransition} {r : TaskRow} :
    a.matches r = true ↔ taskKey r = (a.tenantId, a.taskId) ∧ r.state = a.fromState ∧
      r.version = a.version := by
  simp [TaskTransition.matches, taskKey, and_assoc]

theorem lookup_updateTasks (p : TaskRow → Bool) (f : TaskRow → TaskRow) (hk hr ht) (db : Db)
    (k : String × String) :
    (updateTasks p f hk hr ht db).task.lookup k =
      (db.task.lookup k).map fun r => if p r then f r else r :=
  Table.lookup_update db.task p f hk (taskAlt_unchanged hk hr ht) k

theorem lookup_transitionTask (a : TaskTransition) (db : Db) (k : String × String) :
    (transitionTaskState a db).2.task.lookup k =
      (db.task.lookup k).map fun r => if a.matches r then a.set db.now r else r :=
  lookup_updateTasks a.matches (a.set db.now) (fun _ => rfl) (fun _ => rfl) (fun _ => rfl) db k

theorem lookup_recoverStuck (tenantId ritmId : String) (minutes : ℕ) (db : Db)
    (k : String × String) :
    (recoverStuckTasks tenantId ritmId minutes db).task.lookup k =
      (db.task.lookup k).map fun r =>
        if stuckTask tenantId ritmId minutes db.now r then recoverTask db.now r else r :=
  lookup_updateTasks (stuckTask tenantId ritmId minutes db.now) (recoverTask db.now) (fun _ => rfl)
    (fun _ => rfl) (fun _ => rfl) db k

theorem keys_transitionTask (a : TaskTransition) (db : Db) :
    (transitionTaskState a db).2.task.rows.map taskKey = db.task.rows.map taskKey :=
  map_updateWhere (f := a.set db.now) (fun _ => rfl) a.matches db.task.rows

theorem keys_recoverStuck (tenantId ritmId : String) (minutes : ℕ) (db : Db) :
    (recoverStuckTasks tenantId ritmId minutes db).task.rows.map taskKey =
      db.task.rows.map taskKey :=
  map_updateWhere (f := recoverTask db.now) (fun _ => rfl)
    (stuckTask tenantId ritmId minutes db.now) db.task.rows

/-- The guarded UPDATE returns a version exactly when the row under its key is in the
expected state at the expected version. -/
theorem transitionTask_some {a : TaskTransition} {db : Db} {v : ℕ} :
    (transitionTaskState a db).1 = some v ↔ v = a.version + 1 ∧
      ∃ r, db.task.lookup (a.tenantId, a.taskId) = some r ∧ r.state = a.fromState ∧
        r.version = a.version := by
  constructor
  · intro h
    obtain ⟨r, hr, rfl⟩ := Option.map_eq_some_iff.mp h
    obtain ⟨hk, hs, hv⟩ := TaskTransition.matches_iff.mp (List.find?_some hr)
    refine ⟨by rw [hv], r, ?_, hs, hv⟩
    exact Table.lookup_eq_some.mpr ⟨List.mem_of_find?_eq_some hr, hk⟩
  · rintro ⟨rfl, r, hr, hs, hv⟩
    obtain ⟨hmem, hk⟩ := Table.lookup_eq_some.mp hr
    have hm : a.matches r = true := TaskTransition.matches_iff.mpr ⟨hk, hs, hv⟩
    cases hf : db.task.rows.find? a.matches with
    | none => simpa [hm] using List.find?_eq_none.mp hf r hmem
    | some q =>
      have hq := (TaskTransition.matches_iff.mp (List.find?_some hf)).2.2
      simp [transitionTaskState, hf, hq]

/-- A row that the guarded UPDATE matches is replaced by its SET list. -/
theorem lookup_transition_hit {a : TaskTransition} {db : Db} {r : TaskRow}
    (hr : db.task.lookup (a.tenantId, a.taskId) = some r) (hs : r.state = a.fromState)
    (hv : r.version = a.version) :
    (transitionTaskState a db).2.task.lookup (a.tenantId, a.taskId) = some (a.set db.now r) := by
  have hm : a.matches r = true := TaskTransition.matches_iff.mpr ⟨Table.key_of_lookup hr, hs, hv⟩
  rw [lookup_transitionTask, hr, Option.map_some, if_pos hm]

theorem mem_listTasks {tenantId ritmId : String} {db : Db} {t : TaskRow} :
    t ∈ listTasksForRitm tenantId ritmId db ↔
      t ∈ db.task.rows ∧ t.tenantId = tenantId ∧ t.ritmId = ritmId := by
  rw [listTasksForRitm, List.mem_insertionSort, List.mem_filter, decide_eq_true_eq]

/-- Rows of one listing with the same task id are the same row. -/
theorem listTasks_eq_of_taskId {tenantId ritmId : String} {db : Db} {t u : TaskRow}
    (ht : t ∈ listTasksForRitm tenantId ritmId db) (hu : u ∈ listTasksForRitm tenantId ritmId db)
    (h : t.taskId = u.taskId) : t = u := by
  obtain ⟨ht, htt, _⟩ := mem_listTasks.mp ht
  obtain ⟨hu, hut, _⟩ := mem_listTasks.mp hu
  exact db.task.eq_of_key ht hu (by simp [taskKey, h, htt, hut])

theorem RitmTransition.matches_iff {a : RitmTransition} {r : RitmRow} :
    a.matches r = true ↔ ritmKey r = (a.tenantId, a.ritmId) ∧ r.state = a.fromState ∧
      r.version = a.version := by
  simp [RitmTransition.matches, ritmKey, and_assoc]

theorem getRitm_updateRitms (p : RitmRow → Bool) (f : RitmRow → RitmRow) (hk hi hq) (db : Db)
    (tenantId ritmId : String) :
    getRitm tenantId ritmId (updateRitms p f hk hi hq db) =
      (getRitm tenantId ritmId db).map fun r => if p r then f r else r :=
  Table.lookup_update db.requestItem p f hk (ritmAlt_unchanged hk hi) (tenantId, ritmId)

theorem getRitm_transitionRitm (a : RitmTransition) (db : Db) (tenantId ritmId : String) :
    getRitm tenantId ritmId (transitionRitmState a db).2 =
      (getRitm tenantId ritmId db).map fun r => if a.matches r then a.set db.now r else r :=
  getRitm_updateRitms a.matches (a.set db.now) (fun _ => rfl) (fun _ => rfl) (fun _ => rfl) db
    tenantId ritmId

theorem getRitm_applyApproval (tenantId ritmId : String) (approved : Bool) (db : Db)
    (t m : String) :
    getRitm t m (applyApprovalOutcome tenantId ritmId approved db).2 =
      (getRitm t m db).map fun r =>
        if approvalOutcomeMatches tenantId ritmId r then approvalOutcomeSet approved db.now r
        else r :=
  getRitm_updateRitms (approvalOutcomeMatches tenantId ritmId) (approvalOutcomeSet approved db.now)
    (fun _ => rfl) (fun _ => rfl) (fun _ => rfl) db t m

theorem getRitm_setApprovalState (tenantId ritmId : String) (s : ApprovalGateState) (db : Db)
    (t m : String) :
    getRitm t m (setRitmApprovalState tenantId ritmId s db) =
      (getRitm t m db).map fun r => if isRitm tenantId ritmId r then approvalStateSet s db.now r
        else r :=
  getRitm_updateRitms (isRitm tenantId ritmId) (approvalStateSet s db.now) (fun _ => rfl)
    (fun _ => rfl) (fun _ => rfl) db t m

theorem getRitm_key {tenantId ritmId : String} {db : Db} {r : RitmRow}
    (h : getRitm tenantId ritmId db = some r) : r.tenantId = tenantId ∧ r.ritmId = ritmId := by
  simpa [ritmKey] using Table.key_of_lookup h

/-- Statements on approvals, runs and requests leave these columns of the store alone. -/
structure SameItems (db db' : Db) : Prop where
  task : db'.task = db.task
  requestItem : db'.requestItem = db.requestItem
  now : db'.now = db.now

theorem insertApproval_items {r : ApprovalRow} {db db' : Db} (h : insertApproval r db = some db') :
    SameItems db db' := by
  unfold insertApproval at h
  split at h
  · obtain ⟨t, _, rfl⟩ := Option.map_eq_some_iff.mp h
    exact ⟨rfl, rfl, rfl⟩
  · cases h

theorem finaliseRun_items {tenantId runId : String} {outcome : RitmOutcome}
    {reason : Option String} {db db' : Db}
    (h : finaliseRun tenantId runId outcome reason db = some db') : SameItems db db' := by
  unfold finaliseRun at h
  split at h
  · cases h
  · cases h
    exact ⟨rfl, rfl, rfl⟩

theorem insertRequest_some {r : RequestRow} {db db' : Db} (h : insertRequest r db = some db') :
    db.request.insert r = some db'.request ∧ SameItems db db' ∧
      db'.fulfillmentRun = db.fulfillmentRun := by
  unfold insertRequest at h
  split at h
  · cases h
  · rename_i t ht
    cases h
    exact ⟨ht, ⟨rfl, rfl, rfl⟩, rfl⟩

theorem insertRun_items {r : RunRow} {db db' : Db} (h : insertFulfillmentRun r db = some db') :
    SameItems db db' := by
  obtain ⟨t, _, rfl⟩ := Option.map_eq_some_iff.mp h
  exact ⟨rfl, rfl, rfl⟩

theorem insertTask_ok {r : TaskRow} {db db' : Db} (h : insertTask r db = .ok db') :
    db.task.insert r = some db'.task ∧ db'.requestItem = db.requestItem ∧ db'.now = db.now := by
  unfold insertTask at h
  split at h
  · split at h
    · cases h
    · rename_i t ht
      cases h
      exact ⟨ht, rfl, rfl⟩
  · cases h

theorem insertTask_runs {r : TaskRow} {db db' : Db} (h : insertTask r db = .ok db') :
    db'.fulfillmentRun = db.fulfillmentRun := by
  unfold insertTask at h
  split at h
  · split at h
    · cases h
    · cases h
      rfl
  · cases h

theorem insertTask_refused {r : TaskRow} {db : Db} (h : insertTask r db = .uniqueViolation) :
    db.task.insert r = none := by
  unfold insertTask at h
  split at h
  · split at h
    · assumption
    · cases h
  · cases h

theorem insertTask_orphan {r : TaskRow} {db : Db} (h : insertTask r db = .foreignKeyViolation) :
    (r.tenantId, r.ritmId) ∉ db.requestItem.rows.map ritmKey := by
  unfold insertTask at h
  split at h
  · split at h <;> cases h
  · assumption

theorem insertRequestItem_ok {r : RitmRow} {hr : r.ritmId.length = 14} {db db' : Db}
    (h : insertRequestItem r hr db = .ok db') :
    db.requestItem.insert r = some db'.requestItem ∧ db'.task = db.task ∧ db'.now = db.now := by
  unfold insertRequestItem at h
  split at h
  · split at h
    · cases h
    · rename_i t ht
      cases h
      exact ⟨ht, rfl, rfl⟩
  · cases h

theorem insertRequestItem_runs {r : RitmRow} {hr : r.ritmId.length = 14} {db db' : Db}
    (h : insertRequestItem r hr db = .ok db') : db'.fulfillmentRun = db.fulfillmentRun := by
  unfold insertRequestItem at h
  split at h
  · split at h
    · cases h
    · cases h
      rfl
  · cases h

theorem insertRequestItem_refused {r : RitmRow} {hr : r.ritmId.length = 14} {db : Db}
    (h : insertRequestItem r hr db = .uniqueViolation) : db.requestItem.insert r = none := by
  unfold insertRequestItem at h
  split at h
  · split at h
    · assumption
    · cases h
  · cases h

theorem insertRequestItem_orphan {r : RitmRow} {hr : r.ritmId.length = 14} {db : Db}
    (h : insertRequestItem r hr db = .foreignKeyViolation) :
    (r.tenantId, r.requestId) ∉ db.request.rows.map requestKey := by
  unfold insertRequestItem at h
  split at h
  · split at h <;> cases h
  · assumption

end FulfillmentDb
