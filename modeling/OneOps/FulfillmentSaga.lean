import OneOps.FulfillmentWorker

/-! `compensate_ritm`: the completed tasks are undone in reverse order of their template
ids, then the RITM is cancelled. Each compensating call is one step. -/
namespace FulfillmentSaga

open FulfillmentContracts
open FulfillmentDb
open FulfillmentWorker

def compensationRegistry : String → Option (String × String × String)
  | "create_directory_account" => some ("disable_directory_account", "account_id", "account_id")
  | "provision_email_mailbox" => some ("deprovision_email_mailbox", "mailbox_id", "mailbox_id")
  | "grant_vpn_access" => some ("revoke_vpn_access", "config_id", "config_id")
  | "assign_software_license" => some ("release_software_license", "license_id", "license_id")
  | "order_hardware_asset" => some ("cancel_hardware_order", "po_id", "po_id")
  | _ => none

structure Compensation where
  taskId : String
  toolId : Option String
  compensation : String
  ok : Option Bool
  error : Option String

/-- How an awaited compensating call can end. -/
inductive UndoResult where
  | answer (success : Bool)
  | raised (message : String)

def resourceHandle (task : TaskRow) (source : String) : Option (Option Json) :=
  let output := (task.outputPayload.filter Json.truthy).getD (.obj [])
  let inner := match output with
    | .obj fields =>
      ((fields.find? fun kv : String × Json => kv.1 = "result").map Prod.snd).getD output
    | o => o
  match (if inner.truthy then inner else .obj []) with
  | .obj fields => some ((fields.find? fun kv : String × Json => kv.1 = source).map Prod.snd)
  | _ => none

def compensateOneTask (cfg : Config) (task : TaskRow) (r : UndoResult) : Option Compensation :=
  match task.toolId.bind compensationRegistry with
  | none => some ⟨task.taskId, task.toolId, "skipped_no_op", none, none⟩
  | some (compTool, _, source) =>
    if cfg.hasMethod compTool then
      (resourceHandle task source).map fun handle =>
        if (handle.filter Json.truthy).isSome then
          match r with
          | .answer success => ⟨task.taskId, task.toolId, compTool, some success, none⟩
          | .raised message => ⟨task.taskId, task.toolId, compTool, some false, some message⟩
        else ⟨task.taskId, task.toolId, compTool, some false,
          some ("missing '" ++ source ++ "' in output_payload")⟩
    else some ⟨task.taskId, task.toolId, compTool, some false,
      some ("adapter missing method '" ++ compTool ++ "'")⟩

/-- Stable descending order of the template ids, as `sorted(..., reverse=True)`. -/
def completedTasks (tasks : List TaskRow) : List TaskRow :=
  (tasks.filter fun t => t.state = .done).insertionSort
    fun a b => b.templateTaskId ≤ a.templateTaskId

inductive SagaPhase where
  | list
  | undo (todo : List TaskRow) (results : List Compensation)
  | readRitm (results : List Compensation)
  | write (ritm : RitmRow) (results : List Compensation)
  | returned (results : List Compensation)
  | raised

structure Saga where
  tenantId : String
  ritmId : String
  phase : SagaPhase

def cancelWrite (k : Saga) (ritm : RitmRow) : RitmTransition :=
  ⟨k.tenantId, k.ritmId, ritm.state, .cancelled, ritm.version, none, none⟩

def sagaStep (cfg : Config) (r : UndoResult) (db : Db) (k : Saga) : Db × SagaPhase :=
  match k.phase with
  | .list => (db, .undo (completedTasks (listTasksForRitm k.tenantId k.ritmId db)) [])
  | .undo [] results => (db, .readRitm results)
  | .undo (t :: todo) results =>
    match compensateOneTask cfg t r with
    | none => (db, .raised)
    | some c => (db, .undo todo (results ++ [c]))
  | .readRitm results =>
    match getRitm k.tenantId k.ritmId db with
    | none => (db, .returned results)
    | some ritm => (db, if ritm.state = .cancelled then .returned results else .write ritm results)
  | .write ritm results => ((transitionRitmState (cancelWrite k ritm) db).2, .returned results)
  | .returned results => (db, .returned results)
  | .raised => (db, .raised)

end FulfillmentSaga
