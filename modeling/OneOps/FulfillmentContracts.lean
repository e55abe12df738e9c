import Mathlib.Data.Rat.Defs
import Mathlib.Tactic.Common

/-! The data contracts of catalog fulfilment: state vocabularies, the catalog
template, the materialised plan, the request and the outcome. Vocabularies follow
the CHECK constraints of the tables. Validated models carry their validators as a
field, so a value that the validators would refuse cannot be built. -/
namespace FulfillmentContracts

/-- A decoded JSON document. Objects keep the insertion order of their keys. -/
inductive Json where
  | null
  | bool (b : Bool)
  | num (q : ℚ)
  | str (s : String)
  | arr (xs : List Json)
  | obj (fields : List (String × Json))

abbrev JsonObject := List (String × Json)

def Json.truthy : Json → Bool
  | .null => false
  | .bool b => b
  | .num q => q ≠ 0
  | .str s => s ≠ ""
  | .arr xs => !xs.isEmpty
  | .obj fields => !fields.isEmpty

inductive TriggerType where
  | portal | chat | autoRetry | cancel | rollback
  deriving DecidableEq, Repr

/-- The seven values of the CHECK constraint; the Python enum omits `failed`. -/
inductive RitmState where
  | requested | approved | inProgress | fulfilled | cancelled | rejected | failed
  deriving DecidableEq, Repr

inductive ApprovalGateState where
  | notRequired | requested | approved | rejected
  deriving DecidableEq, Repr

inductive TaskType where
  | automated | manual
  deriving DecidableEq, Repr

inductive TaskState where
  | pending | ready | inProgress | done | failed | skipped | blocked
  deriving DecidableEq, Repr

inductive ApprovalState where
  | pending | approved | rejected | expired | withdrawn
  deriving DecidableEq, Repr

inductive FulfillmentOutcome where
  | fulfilled | partialFailure | failed | cancelled | inProgress
  deriving DecidableEq, Repr

inductive AdapterErrorClass where
  | transient | permanent | resourceUnavailable | unauthorized | timeout
  deriving DecidableEq, Repr

def AdapterErrorClass.value : AdapterErrorClass → String
  | .transient => "transient"
  | .permanent => "permanent"
  | .resourceUnavailable => "resource_unavailable"
  | .unauthorized => "unauthorized"
  | .timeout => "timeout"

/-- The exception classes that leave the modelled functions. `validation` is a
pydantic failure, `check` and `foreignKey` are constraint violations that no
handler catches, `other` is any further Python exception. -/
inductive ErrorKind where
  | catalogItemNotFound | requestNotFound | requesterNotFound | requestItemNotFound
  | duplicateRequest | invalidTemplate | adapterInvocation | persistence
  | validation | check | foreignKey | other
  deriving DecidableEq, Repr

structure FulfillmentError where
  kind : ErrorKind
  message : String
  deriving DecidableEq, Repr

structure CatalogTemplateTask where
  taskId : String
  name : String
  type : TaskType
  ownerGroup : Option String
  dependsOn : List String
  toolId : Option String
  inputTemplate : Option JsonObject
  slaMinutes : Option ℕ

def lengthBetween (lo hi : ℕ) (s : String) : Prop := lo ≤ s.length ∧ s.length ≤ hi

instance (lo hi : ℕ) (s : String) : Decidable (lengthBetween lo hi s) :=
  inferInstanceAs (Decidable (_ ∧ _))

def minutesInYear (m : ℕ) : Prop := 1 ≤ m ∧ m ≤ 525600

instance (m : ℕ) : Decidable (minutesInYear m) := inferInstanceAs (Decidable (_ ∧ _))

def CatalogTemplateTask.Valid (t : CatalogTemplateTask) : Prop :=
  lengthBetween 1 32 t.taskId ∧ lengthBetween 1 240 t.name ∧
  (∀ g ∈ t.ownerGroup, lengthBetween 0 64 g) ∧ (∀ g ∈ t.toolId, lengthBetween 0 64 g) ∧
  ∀ m ∈ t.slaMinutes, minutesInYear m

instance (t : CatalogTemplateTask) : Decidable t.Valid := inferInstanceAs (Decidable (_ ∧ _))

/-- The shape both `_validate_dag` validators check: dependencies name a task of the
list and no task names itself. Neither rejects repeated ids or longer cycles. -/
def DagShape (ids : List String) (nodes : List (String × List String)) : Prop :=
  ∀ n ∈ nodes, ∀ dep ∈ n.2, dep ∈ ids ∧ dep ≠ n.1

instance (ids : List String) (nodes : List (String × List String)) :
    Decidable (DagShape ids nodes) :=
  inferInstanceAs (Decidable (∀ n ∈ nodes, ∀ dep ∈ n.2, dep ∈ ids ∧ dep ≠ n.1))

structure CatalogTemplateFields where
  catalogItemId : String
  tenantId : String
  name : String
  description : Option String
  category : String
  ownerGroup : String
  estimatedTotalMinutes : ℕ
  tasks : List CatalogTemplateTask

def templateNodes (tasks : List CatalogTemplateTask) : List (String × List String) :=
  tasks.map fun t => (t.taskId, t.dependsOn)

structure CatalogTemplateFields.Valid (c : CatalogTemplateFields) : Prop where
  catalog_item_id : lengthBetween 1 64 c.catalogItemId
  tenant_id : lengthBetween 1 64 c.tenantId
  name : lengthBetween 1 240 c.name
  description : ∀ d ∈ c.description, lengthBetween 0 2000 d
  category : lengthBetween 1 32 c.category
  owner_group : lengthBetween 1 64 c.ownerGroup
  estimated : minutesInYear c.estimatedTotalMinutes
  tasks_count : 1 ≤ c.tasks.length ∧ c.tasks.length ≤ 200
  tasks_valid : ∀ t ∈ c.tasks, t.Valid
  dag : DagShape (c.tasks.map (·.taskId)) (templateNodes c.tasks)

instance (c : CatalogTemplateFields) : Decidable c.Valid :=
  decidable_of_iff
    (lengthBetween 1 64 c.catalogItemId ∧ lengthBetween 1 64 c.tenantId ∧
      lengthBetween 1 240 c.name ∧ (∀ d ∈ c.description, lengthBetween 0 2000 d) ∧
      lengthBetween 1 32 c.category ∧ lengthBetween 1 64 c.ownerGroup ∧
      minutesInYear c.estimatedTotalMinutes ∧ (1 ≤ c.tasks.length ∧ c.tasks.length ≤ 200) ∧
      (∀ t ∈ c.tasks, t.Valid) ∧ DagShape (c.tasks.map (·.taskId)) (templateNodes c.tasks))
    ⟨fun ⟨a, b, d, e, f, g, h, i, j, k⟩ => ⟨a, b, d, e, f, g, h, i, j, k⟩,
      fun ⟨a, b, d, e, f, g, h, i, j, k⟩ => ⟨a, b, d, e, f, g, h, i, j, k⟩⟩

structure CatalogTemplate extends CatalogTemplateFields where
  valid : toCatalogTemplateFields.Valid

structure FulfillmentRequestFields where
  tenantId : String
  requestId : String
  catalogItemId : String
  requestVariables : JsonObject
  requestedFor : String
  openedBy : String
  quantity : ℤ
  idempotencyKey : Option String
  triggerType : TriggerType

structure FulfillmentRequestFields.Valid (r : FulfillmentRequestFields) : Prop where
  tenant_id : lengthBetween 1 64 r.tenantId
  request_id : lengthBetween 1 64 r.requestId
  catalog_item_id : lengthBetween 1 64 r.catalogItemId
  requested_for : lengthBetween 1 128 r.requestedFor
  opened_by : lengthBetween 1 128 r.openedBy
  quantity : 1 ≤ r.quantity ∧ r.quantity ≤ 100
  idempotency_key : ∀ k ∈ r.idempotencyKey, lengthBetween 0 128 k

instance (r : FulfillmentRequestFields) : Decidable r.Valid :=
  decidable_of_iff
    (lengthBetween 1 64 r.tenantId ∧ lengthBetween 1 64 r.requestId ∧
      lengthBetween 1 64 r.catalogItemId ∧ lengthBetween 1 128 r.requestedFor ∧
      lengthBetween 1 128 r.openedBy ∧ (1 ≤ r.quantity ∧ r.quantity ≤ 100) ∧
      ∀ k ∈ r.idempotencyKey, lengthBetween 0 128 k)
    ⟨fun ⟨a, b, c, d, e, f, g⟩ => ⟨a, b, c, d, e, f, g⟩,
      fun ⟨a, b, c, d, e, f, g⟩ => ⟨a, b, c, d, e, f, g⟩⟩

structure FulfillmentRequest extends FulfillmentRequestFields where
  valid : toFulfillmentRequestFields.Valid

structure TaskPlanItem where
  templateTaskId : String
  taskName : String
  taskType : TaskType
  toolId : Option String
  dependsOn : List String
  assignmentGroup : Option String
  slaMinutes : Option ℕ
  inputPayload : JsonObject

def TaskPlanItem.Valid (t : TaskPlanItem) : Prop :=
  lengthBetween 1 32 t.templateTaskId ∧ lengthBetween 1 240 t.taskName ∧
  (∀ g ∈ t.toolId, lengthBetween 0 64 g) ∧ (∀ g ∈ t.assignmentGroup, lengthBetween 0 64 g) ∧
  ∀ m ∈ t.slaMinutes, minutesInYear m

def planNodes (tasks : List TaskPlanItem) : List (String × List String) :=
  tasks.map fun t => (t.templateTaskId, t.dependsOn)

instance (t : TaskPlanItem) : Decidable t.Valid := inferInstanceAs (Decidable (_ ∧ _))

structure FulfillmentPlanFields where
  catalogItemId : String
  tasks : List TaskPlanItem
  estimatedTotalMinutes : ℕ

structure FulfillmentPlanFields.Valid (p : FulfillmentPlanFields) : Prop where
  catalog_item_id : lengthBetween 1 64 p.catalogItemId
  estimated : minutesInYear p.estimatedTotalMinutes
  tasks_count : 1 ≤ p.tasks.length ∧ p.tasks.length ≤ 200
  tasks_valid : ∀ t ∈ p.tasks, t.Valid
  dag : DagShape (p.tasks.map (·.templateTaskId)) (planNodes p.tasks)

instance (p : FulfillmentPlanFields) : Decidable p.Valid :=
  decidable_of_iff
    (lengthBetween 1 64 p.catalogItemId ∧ minutesInYear p.estimatedTotalMinutes ∧
      (1 ≤ p.tasks.length ∧ p.tasks.length ≤ 200) ∧ (∀ t ∈ p.tasks, t.Valid) ∧
      DagShape (p.tasks.map (·.templateTaskId)) (planNodes p.tasks))
    ⟨fun ⟨a, b, c, d, e⟩ => ⟨a, b, c, d, e⟩, fun ⟨a, b, c, d, e⟩ => ⟨a, b, c, d, e⟩⟩

structure FulfillmentPlan extends FulfillmentPlanFields where
  valid : toFulfillmentPlanFields.Valid

/-- `_counters_sum` is the last field: the four counters never exceed the total. -/
structure Outcome where
  tenantId : String
  requestId : String
  ritmId : String
  catalogItemId : String
  runId : String
  outcome : FulfillmentOutcome
  tasksTotal : ℕ
  tasksCompleted : ℕ
  tasksFailed : ℕ
  tasksSkipped : ℕ
  tasksInProgress : ℕ
  displayText : String
  counters_sum : tasksCompleted + tasksFailed + tasksSkipped + tasksInProgress ≤ tasksTotal

/-- The response envelope; only the fields the executor reads. -/
structure AdapterResponse where
  success : Bool
  result : Option Json
  errorClass : Option AdapterErrorClass
  errorMessage : Option String

/-- One forward integration call, as `_invoke_adapter` issues it. -/
structure AdapterCall where
  tenantId : String
  ritmId : String
  taskId : String
  toolId : String
  idempotencyKey : String
  payload : JsonObject

/-- How an awaited adapter call can end. A timeout says nothing about the effect. -/
inductive CallResult where
  | answer (r : AdapterResponse)
  | timeout
  | raised (message : String)

end FulfillmentContracts
