import OneOps.FulfillmentInspection

/-! `execute_plan` after its lock attempt, as a machine whose steps are its awaits: every SQL
statement, every adapter call that is issued or answered. The coroutines of one wave are the
children of the worker and advance in any order; a fault ends one child, as `gather` swallows
its exception. A call that was issued acts outside at any later time, awaited or not. The ghost
logs record claims, issued calls and external effects. -/
namespace FulfillmentWorker

open FulfillmentContracts
open FulfillmentDb
open FulfillmentInspection

def maxWaves : ℕ := 64

structure Config where
  hasMethod : String → Bool
  stuckTaskRecoveryMinutes : ℕ
  adapterCallTimeout : String

/-- A committed `→ in_progress` transition, with the version it gave the row. -/
structure Claim where
  tenantId : String
  taskId : String
  version : ℕ
  deriving DecidableEq

/-- An external side effect, under the key that the adapter deduplicates by. -/
structure Effect where
  tenantId : String
  idempotencyKey : String
  taskId : String
  deriving DecidableEq

structure IssuedCall where
  claim : Claim
  call : AdapterCall

structure World where
  db : Db
  claims : List Claim
  calls : List IssuedCall
  effects : List Effect

/-- The awaits of `_execute_one_task`. `task` is the row of the listing, `version` the
version returned by the claim. -/
inductive Child where
  | claim (task : TaskRow)
  | approve (task : TaskRow) (version : ℕ)
  | dispatch (task : TaskRow) (version : ℕ)
  | calling (task : TaskRow) (version : ℕ)
  | settle (a : TaskTransition)
  | finished (result : TaskState)
  | raised

inductive ChildInput where
  | stmt (hex : String)
  | result (r : CallResult)
  | fault

def plain (tenantId taskId : String) (fromState toState : TaskState) (version : ℕ) :
    TaskTransition :=
  ⟨tenantId, taskId, fromState, toState, version, none, none, none, none⟩

def leave (tenantId : String) (task : TaskRow) (toState : TaskState) (version : ℕ) :
    TaskTransition :=
  plain tenantId task.taskId .inProgress toState version

def resolved (note : String) : Option Json := some (.obj [("resolved", .str note)])

def misconfigured (tenantId : String) (task : TaskRow) (version : ℕ) : TaskTransition :=
  { leave tenantId task .failed version with
    errorMessage := some ("task '" ++ task.taskName ++ "' is type=automated but has no " ++
      "tool_id — catalog item misconfigured; refusing to silently no-op")
    errorCode := some "catalog_misconfigured"
    retryCount := some task.retryCount }

/-- What a claimed task does next: the approval gate, a task without an adapter binding,
a manual task, or the adapter call. -/
def afterClaim (tenantId : String) (task : TaskRow) (version : ℕ) : Child :=
  if task.toolId = some "request_human_approval" then .approve task version
  else if task.toolId = none ∨ task.toolId = some "" then
    if task.taskType = .manual then
      .settle { leave tenantId task .done version with outputPayload := resolved "manual_no_tool" }
    else .settle (misconfigured tenantId task version)
  else if task.taskType = .manual then
    .settle { leave tenantId task .done version with outputPayload := resolved "manual_auto" }
  else .dispatch task version

def adapterCall (tenantId ritmId : String) (task : TaskRow) : AdapterCall :=
  { tenantId := tenantId
    ritmId := ritmId
    taskId := task.taskId
    toolId := task.toolId.getD ""
    idempotencyKey := ritmId ++ ":" ++ task.taskId ++ ":" ++ toString task.retryCount
    payload := task.inputPayload }

def retryBudget (task : TaskRow) : ℕ := if task.maxRetries = 0 then 3 else task.maxRetries

def retryable (c : AdapterErrorClass) : Prop := c = .transient ∨ c = .timeout

instance (c : AdapterErrorClass) : Decidable (retryable c) := inferInstanceAs (Decidable (_ ∨ _))

def settleResponse (tenantId : String) (task : TaskRow) (version : ℕ) (r : AdapterResponse) :
    TaskTransition :=
  if r.success then { leave tenantId task .done version with outputPayload := r.result }
  else
    let errClass := r.errorClass.getD .permanent
    let toState : TaskState :=
      if retryable errClass ∧ task.retryCount + 1 < retryBudget task then .ready else .failed
    { leave tenantId task toState version with
      errorMessage := r.errorMessage
      errorCode := some errClass.value
      retryCount := some (task.retryCount + 1) }

section SettleResponse

variable (tenantId : String) (task : TaskRow) (version : ℕ) (r : AdapterResponse)

@[simp]
theorem settleResponse_tenantId :
    (settleResponse tenantId task version r).tenantId = tenantId := by
  unfold settleResponse
  split_ifs <;> rfl

@[simp]
theorem settleResponse_taskId : (settleResponse tenantId task version r).taskId = task.taskId := by
  unfold settleResponse
  split_ifs <;> rfl

@[simp]
theorem settleResponse_version : (settleResponse tenantId task version r).version = version := by
  unfold settleResponse
  split_ifs <;> rfl

end SettleResponse

def timeoutResponse (cfg : Config) (toolId : String) : AdapterResponse :=
  ⟨false, none, some .timeout,
    some ("adapter " ++ toolId ++ " exceeded " ++ cfg.adapterCallTimeout ++ "s timeout")⟩

/-- `payload.get(key, default)` bound to a text column; `none` is a DataError. -/
def payloadText (payload : JsonObject) (key default : String) : Option String :=
  match payload.find? (fun kv => kv.1 = key) with
  | none => some default
  | some (_, .str s) => some s
  | some _ => none

def approvalRow (tenantId ritmId : String) (task : TaskRow) (approvalId : String) :
    Option ApprovalRow := do
  let approvalType ← payloadText task.inputPayload "approval_type" "fulfillment_step"
  let reason ← payloadText task.inputPayload "reason"
    ("Approval required for " ++ task.taskName)
  let requestedFrom ← payloadText task.inputPayload "requested_from"
    ((task.assignmentGroup.filter (· ≠ "")).getD "manager")
  return ⟨tenantId, approvalId, ritmId, some task.taskId, approvalType, reason, requestedFrom,
    .pending, none, none, 1⟩

/-- An adapter that honours the Protocol performs no second effect under one key. -/
def perform (e : Effect) (effects : List Effect) : List Effect :=
  if effects.any (fun f => f.tenantId = e.tenantId ∧ f.idempotencyKey = e.idempotencyKey)
  then effects else effects ++ [e]

def effectOf (c : AdapterCall) : Effect := ⟨c.tenantId, c.idempotencyKey, c.taskId⟩

/-- The `n`-th issued call acts outside, while it is awaited, after `wait_for` gave up or
after its worker died. -/
def landing (n : Option ℕ) (w : World) : List Effect :=
  match n.bind (w.calls[·]?) with
  | none => w.effects
  | some x => perform (effectOf x.call) w.effects

def childStep (cfg : Config) (tenantId ritmId : String) (inp : ChildInput) (w : World)
    (c : Child) : World × Child :=
  match c, inp with
  | .claim task, .stmt _ =>
    match transitionTaskState (plain tenantId task.taskId task.state .inProgress task.version)
        w.db with
    | (none, db) => ({ w with db := db }, .finished task.state)
    | (some v, db) =>
      ({ w with db := db, claims := w.claims ++ [⟨tenantId, task.taskId, v⟩] },
        afterClaim tenantId task v)
  | .approve task version, .stmt hex =>
    match (approvalRow tenantId ritmId task ("APP" ++ hex)).bind (insertApproval · w.db) with
    | none => (w, .raised)
    | some db => ({ w with db := db },
        .settle { leave tenantId task .blocked version with
          outputPayload := some (.obj [("approval_id", .str ("APP" ++ hex))]) })
  | .dispatch task version, .stmt _ =>
    if cfg.hasMethod (task.toolId.getD "") then
      let issued : IssuedCall :=
        ⟨⟨tenantId, task.taskId, version⟩, adapterCall tenantId ritmId task⟩
      ({ w with calls := w.calls ++ [issued] }, .calling task version)
    else (w, .raised)
  | .calling task version, .result (.answer r) =>
    (w, .settle (settleResponse tenantId task version r))
  | .calling task version, .result .timeout =>
    (w, .settle (settleResponse tenantId task version
      (timeoutResponse cfg (task.toolId.getD ""))))
  | .calling _ _, .result (.raised _) => (w, .raised)
  | .settle a, .stmt _ => ({ w with db := (transitionTaskState a w.db).2 }, .finished a.toState)
  | .finished s, _ => (w, .finished s)
  | _, .fault => (w, .raised)
  | c, _ => (w, c)

def Child.ended : Child → Bool
  | .finished _ | .raised => true
  | _ => false

structure Closing where
  outcome : RitmOutcome
  tasks : List TaskRow
  failureReason : Option String

/-- `snapshot` is the path of a call that found the advisory lock taken. -/
inductive Phase where
  | snapshot
  | readRitm
  | startRitm (version : ℕ)
  | recover
  | list (wave : ℕ)
  | cascade (wave : ℕ) (todo : List (String × TaskState × ℕ))
  | relist (wave : ℕ)
  | running (wave : ℕ) (children : List Child)
  | finalRead (c : Closing)
  | finalList (c : Closing) (ritm : RitmRow)
  | finalWrite (c : Closing) (ritm : RitmRow)
  | finalRun (c : Closing) (ritm : RitmRow)
  | finalStamp (c : Closing) (ritm : RitmRow) (runId : String)
  | partialRead (tasks : List TaskRow)
  | partialApprovals (tasks : List TaskRow) (ritm : Option RitmRow)
  | partialRun (tasks : List TaskRow) (ritm : Option RitmRow) (approvals : List String)
  | returned (o : Outcome)
  | raised (e : FulfillmentError)

structure Worker where
  tenantId : String
  ritmId : String
  phase : Phase

inductive WorkerInput where
  | stmt
  | child (i : ℕ) (inp : ChildInput)

def decideWave (wave : ℕ) (tasks : List TaskRow) : Phase :=
  match isTerminal tasks with
  | some outcome => .finalRead ⟨outcome, tasks, none⟩
  | none =>
    if (readyTaskIds tasks).isEmpty then .partialRead tasks
    else .running wave ((readyTasks tasks).map .claim)

/-- `for _wave in range(_MAX_WAVES)`: the loop ends without another look at the rows. -/
def nextWave (wave : ℕ) : Phase :=
  if wave + 1 < maxWaves then .list (wave + 1)
  else .finalRead ⟨.failed, [], some "max waves (64) exceeded"⟩

def ritmStateOf : RitmOutcome → RitmState
  | .fulfilled => .fulfilled
  | .partialFailure => .failed
  | .failed => .failed
  | .blocked => .inProgress

def outcomeOf : RitmOutcome → FulfillmentOutcome
  | .fulfilled => .fulfilled
  | .partialFailure => .partialFailure
  | .failed => .failed
  | .blocked => .inProgress

def report (k : Worker) (ritm : RitmRow) (outcome : FulfillmentOutcome) (runId : Option String)
    (tasks : List TaskRow) (display : String) : Phase :=
  if h : countByState tasks .done + countByState tasks .failed + countByState tasks .skipped +
      countByState tasks .inProgress ≤ ritm.totalTasks then
    .returned
      { tenantId := k.tenantId
        requestId := ritm.requestId
        ritmId := k.ritmId
        catalogItemId := ritm.catalogItemId
        runId := runId.getD "RUN_UNKNOWN"
        outcome := outcome
        tasksTotal := ritm.totalTasks
        tasksCompleted := countByState tasks .done
        tasksFailed := countByState tasks .failed
        tasksSkipped := countByState tasks .skipped
        tasksInProgress := countByState tasks .inProgress
        displayText := display
        counters_sum := h }
  else .raised ⟨.validation, "Outcome counters exceed tasks_total for ritm " ++ k.ritmId⟩

def closeWrite (k : Worker) (c : Closing) (ritm : RitmRow) : RitmTransition :=
  { tenantId := k.tenantId
    ritmId := k.ritmId
    fromState := ritm.state
    toState := ritmStateOf c.outcome
    version := ritm.version
    completedTasks := some (countByState c.tasks .done)
    failedTasks := some (countByState c.tasks .failed) }

def startWrite (k : Worker) (version : ℕ) : RitmTransition :=
  ⟨k.tenantId, k.ritmId, .requested, .inProgress, version, none, none⟩

def skipWrite (k : Worker) (x : String × TaskState × ℕ) : TaskTransition :=
  { plain k.tenantId x.1 x.2.1 .skipped x.2.2 with
    errorMessage := some "upstream_task_failed"
    errorCode := some "CASCADE_SKIPPED" }

def closeReport (k : Worker) (c : Closing) (ritm : RitmRow) (runId : Option String) : Phase :=
  report k ritm (outcomeOf c.outcome) runId c.tasks (renderDisplay k.ritmId c.outcome c.tasks)

def partialReport (k : Worker) (tasks : List TaskRow) (ritm : RitmRow) (approvals : List String)
    (runId : Option String) : Phase :=
  report k ritm .inProgress runId tasks
    (k.ritmId ++ " awaiting " ++ toString approvals.length ++ " approval(s); " ++
      toString (countByState tasks .done) ++ "/" ++ toString ritm.totalTasks ++ " tasks done.")

def mainStep (cfg : Config) (w : World) (k : Worker) : World × Phase :=
  match k.phase with
  | .snapshot => (w, .partialRead (listTasksForRitm k.tenantId k.ritmId w.db))
  | .readRitm =>
    match getRitm k.tenantId k.ritmId w.db with
    | none => (w, .raised ⟨.requestItemNotFound,
        "RITM " ++ k.ritmId ++ " not found for tenant " ++ k.tenantId⟩)
    | some r => (w, if r.state = .requested then .startRitm r.version else .recover)
  | .startRitm version =>
    ({ w with db := (transitionRitmState (startWrite k version) w.db).2 }, .recover)
  | .recover =>
    ({ w with db := recoverStuckTasks k.tenantId k.ritmId cfg.stuckTaskRecoveryMinutes w.db },
      .list 0)
  | .list wave =>
    let tasks := listTasksForRitm k.tenantId k.ritmId w.db
    (w, if (transitivelyBlockedTaskIds tasks).isEmpty then decideWave wave tasks
        else .cascade wave (transitivelyBlockedTaskIds tasks))
  | .cascade wave [] => (w, .relist wave)
  | .cascade wave (x :: todo) =>
    ({ w with db := (transitionTaskState (skipWrite k x) w.db).2 }, .cascade wave todo)
  | .relist wave => (w, decideWave wave (listTasksForRitm k.tenantId k.ritmId w.db))
  | .running wave children =>
    (w, if children.all Child.ended then nextWave wave else .running wave children)
  | .finalRead c =>
    match getRitm k.tenantId k.ritmId w.db with
    | none => (w, .raised ⟨.requestItemNotFound, k.ritmId⟩)
    | some r => (w, if c.tasks.isEmpty then .finalList c r else .finalWrite c r)
  | .finalList c r =>
    (w, .finalWrite { c with tasks := listTasksForRitm k.tenantId k.ritmId w.db } r)
  | .finalWrite c r =>
    (if r.state = ritmStateOf c.outcome then w
      else { w with db := (transitionRitmState (closeWrite k c r) w.db).2 }, .finalRun c r)
  | .finalRun c r =>
    match latestRun k.tenantId k.ritmId w.db with
    | none => (w, closeReport k c r none)
    | some runId => (w, .finalStamp c r runId)
  | .finalStamp c r runId =>
    match finaliseRun k.tenantId runId c.outcome c.failureReason w.db with
    | none => (w, .raised ⟨.check, "fulfillment_run.outcome"⟩)
    | some db => ({ w with db := db }, closeReport k c r (some runId))
  | .partialRead tasks => (w, .partialApprovals tasks (getRitm k.tenantId k.ritmId w.db))
  | .partialApprovals tasks r =>
    (w, .partialRun tasks r (pendingApprovalIds k.tenantId k.ritmId w.db))
  | .partialRun _ none _ => (w, .raised ⟨.other, "'NoneType' object is not subscriptable"⟩)
  | .partialRun tasks (some r) approvals =>
    (w, partialReport k tasks r approvals (latestRun k.tenantId k.ritmId w.db))
  | .returned o => (w, .returned o)
  | .raised e => (w, .raised e)

def workerStep (cfg : Config) (inp : WorkerInput) (w : World) (k : Worker) : World × Worker :=
  match inp, k.phase with
  | .stmt, _ => ((mainStep cfg w k).1, { k with phase := (mainStep cfg w k).2 })
  | .child i ci, .running wave children =>
    match children[i]? with
    | none => (w, k)
    | some c =>
      let r := childStep cfg k.tenantId k.ritmId ci w c
      (r.1, { k with phase := .running wave (children.set i r.2) })
  | .child _ _, _ => (w, k)

end FulfillmentWorker
