import OneOps.FulfillmentDuplicateGate

/-! What a submission leaves behind when it stops. `fulfill_request` and
`create_service_request` commit each INSERT on its own, so a call that crashes, raises or
returns early leaves the rows it has written. A log of the committed INSERTs runs beside
the call, and the rows of the store are the old rows followed by the log. -/
namespace FulfillmentAtomicity

open KeyedTable
open FulfillmentContracts
open FulfillmentDb
open FulfillmentPlanning
open FulfillmentSubmission
open FulfillmentTaskProtocol
open FulfillmentDuplicateGate

inductive Commit where
  | request (id : String)
  | item (id requestId : String) (total : ℕ)
  | task (id ritmId : String)
  | run (id ritmId : String)
  deriving DecidableEq

def Commit.ritm : Commit → Option String
  | .request _ => none
  | .item m _ _ => some m
  | .task _ m => some m
  | .run _ m => some m

def Commit.isTask : Commit → Bool
  | .task _ _ => true
  | _ => false

def fulfilCommit (req : FulfillmentRequest) (d : Draw) (db : Db) : FulfilPhase → List Commit
  | .insertRitm _ plan =>
    match insertRequestItem (newRitm req plan d db.now) (ritmIdOf_length d) db with
    | .ok _ => [.item (ritmIdOf d) req.requestId plan.tasks.length]
    | _ => []
  | .insertTasks _ m (t :: _) _ =>
    match insertTask (newTask req m t d db.now) db with
    | .ok _ => [.task ("SCTASK" ++ d.hex10) m]
    | _ => []
  | .insertRun _ m _ =>
    match insertFulfillmentRun (newRun req m d db.now) db with
    | some _ => [.run ("RUN" ++ d.hex14) m]
    | none => []
  | _ => []

def createCommit (a : CreateArgs) (inp : SubmitInput) (db : Db) : CreatePhase → List Commit
  | .insertRequest name =>
    if (a.tenantId, a.requestedFor) ∈ db.sysUser ∧ (a.tenantId, a.userId) ∈ db.sysUser then
      match insertRequest (newRequest a name inp.draw) db with
      | some _ => [.request ("REQ" ++ inp.draw.hex10)]
      | none => []
    else []
  | .fulfil req q => fulfilCommit req inp.draw db q
  | _ => []

/-- A call on its own, with the log of what it has committed. -/
structure Call (φ : Type) where
  db : Db
  phase : φ
  log : List Commit

def elapse (seconds : ℕ) (db : Db) : Db := { db with now := db.now + seconds }

section Calls

variable (format : String → JsonObject → Except FormatError String)

def fulfilNext (req : FulfillmentRequest) (c : Call FulfilPhase) (x : ℕ × Draw) :
    Call FulfilPhase :=
  ⟨(fulfilStep format req x.2 (elapse x.1 c.db) c.phase).1,
    (fulfilStep format req x.2 (elapse x.1 c.db) c.phase).2,
    c.log ++ fulfilCommit req x.2 (elapse x.1 c.db) c.phase⟩

def createNext (cc : CreateConfig) (a : CreateArgs) (c : Call CreatePhase) (x : ℕ × SubmitInput) :
    Call CreatePhase :=
  ⟨(createStep format cc a x.2 (elapse x.1 c.db) c.phase).1,
    (createStep format cc a x.2 (elapse x.1 c.db) c.phase).2,
    c.log ++ createCommit a x.2 (elapse x.1 c.db) c.phase⟩

/-- `fulfill_request` stopped after as many statements as there are inputs. -/
def fulfilCall (req : FulfillmentRequest) (db : Db) (xs : List (ℕ × Draw)) : Call FulfilPhase :=
  xs.foldl (fulfilNext format req) ⟨db, .assertRequest, []⟩

def createCall (cc : CreateConfig) (a : CreateArgs) (db : Db) (xs : List (ℕ × SubmitInput)) :
    Call CreatePhase :=
  xs.foldl (createNext format cc a) ⟨db, .loadForm, []⟩

end Calls

def itemShape (r : RitmRow) : (String × String) × String × ℕ :=
  (ritmKey r, r.requestId, r.totalTasks)

def taskShape (r : TaskRow) : (String × String) × String := (taskKey r, r.ritmId)

def runShape (r : RunRow) : (String × String) × String := (runKey r, r.ritmId)

def newRequests (t : String) (log : List Commit) : List (String × String) :=
  log.filterMap fun | .request id => some (t, id) | _ => none

def newItems (t : String) (log : List Commit) : List ((String × String) × String × ℕ) :=
  log.filterMap fun | .item id q n => some ((t, id), q, n) | _ => none

def newTasks (t : String) (log : List Commit) : List ((String × String) × String) :=
  log.filterMap fun | .task id m => some ((t, id), m) | _ => none

def newRuns (t : String) (log : List Commit) : List ((String × String) × String) :=
  log.filterMap fun | .run id m => some ((t, id), m) | _ => none

structure Rows (t : String) (db : Db) (log : List Commit) (db' : Db) : Prop where
  requests : db'.request.rows.map requestKey = db.request.rows.map requestKey ++ newRequests t log
  items : db'.requestItem.rows.map itemShape = db.requestItem.rows.map itemShape ++ newItems t log
  tasks : db'.task.rows.map taskShape = db.task.rows.map taskShape ++ newTasks t log
  runs : db'.fulfillmentRun.rows.map runShape = db.fulfillmentRun.rows.map runShape ++ newRuns t log

section Rows

variable {t : String} {a b c : Db}

theorem Rows.of_same (hq : b.request.rows.map requestKey = a.request.rows.map requestKey)
    (hi : b.requestItem.rows.map itemShape = a.requestItem.rows.map itemShape)
    (ht : b.task = a.task) (hr : b.fulfillmentRun = a.fulfillmentRun) : Rows t a [] b := by
  refine ⟨?_, ?_, ?_, ?_⟩
  · simp [newRequests, hq]
  · simp [newItems, hi]
  · simp [newTasks, ht]
  · simp [newRuns, hr]

theorem Rows.refl (t : String) (a : Db) : Rows t a [] a := .of_same rfl rfl rfl rfl

theorem Rows.elapse (n : ℕ) : Rows t a [] (elapse n a) := .of_same rfl rfl rfl rfl

theorem Rows.trans {l k : List Commit} (h : Rows t a l b) (h' : Rows t b k c) :
    Rows t a (l ++ k) c := by
  refine ⟨?_, ?_, ?_, ?_⟩
  · rw [h'.requests, h.requests]
    simp [newRequests]
  · rw [h'.items, h.items]
    simp [newItems]
  · rw [h'.tasks, h.tasks]
    simp [newTasks]
  · rw [h'.runs, h.runs]
    simp [newRuns]

theorem rows_insertRequest {r : RequestRow} (h : insertRequest r a = some b) :
    Rows r.tenantId a [.request r.requestId] b := by
  unfold insertRequest at h
  split at h
  · cases h
  · rename_i u hu
    cases h
    refine ⟨?_, by simp [newItems], by simp [newTasks], by simp [newRuns]⟩
    simp [(Table.insert_eq_some hu).1, newRequests, requestKey]

theorem rows_insertItem {r : RitmRow} {hr : r.ritmId.length = 14}
    (h : insertRequestItem r hr a = .ok b) :
    Rows r.tenantId a [.item r.ritmId r.requestId r.totalTasks] b := by
  unfold insertRequestItem at h
  split at h
  · split at h
    · cases h
    · rename_i u hu
      cases h
      refine ⟨by simp [newRequests], ?_, by simp [newTasks], by simp [newRuns]⟩
      simp [(Table.insert_eq_some hu).1, newItems, itemShape, ritmKey]
  · cases h

theorem rows_insertTask {r : TaskRow} (h : insertTask r a = .ok b) :
    Rows r.tenantId a [.task r.taskId r.ritmId] b := by
  unfold insertTask at h
  split at h
  · split at h
    · cases h
    · rename_i u hu
      cases h
      refine ⟨by simp [newRequests], by simp [newItems], ?_, by simp [newRuns]⟩
      simp [(Table.insert_eq_some hu).1, newTasks, taskShape, taskKey]
  · cases h

theorem rows_insertRun {r : RunRow} (h : insertFulfillmentRun r a = some b) :
    Rows r.tenantId a [.run r.runId r.ritmId] b := by
  obtain ⟨u, hu, rfl⟩ := Option.map_eq_some_iff.mp h
  refine ⟨by simp [newRequests], by simp [newItems], by simp [newTasks], ?_⟩
  simp [(Table.insert_eq_some hu).1, newRuns, runShape, runKey]

theorem rows_insertApproval {r : ApprovalRow} (h : insertApproval r a = some b) :
    Rows t a [] b := by
  unfold insertApproval at h
  split at h
  · obtain ⟨u, _, rfl⟩ := Option.map_eq_some_iff.mp h
    exact .of_same rfl rfl rfl rfl
  · cases h

theorem rows_insertApprovals {rows : List ApprovalRow} :
    ∀ {a b : Db}, insertApprovals rows a = some b → Rows t a [] b := by
  induction rows with
  | nil =>
    intro a b h
    cases h
    exact .refl t a
  | cons r rows ih =>
    intro a b h
    obtain ⟨c, h₁, h₂⟩ := Option.bind_eq_some_iff.mp h
    exact (rows_insertApproval h₁).trans (ih h₂)

theorem rows_setApprovalState (ritmId : String) (g : ApprovalGateState) :
    Rows t a [] (setRitmApprovalState t ritmId g a) :=
  .of_same rfl (map_updateWhere (f := approvalStateSet g a.now) (fun _ => rfl)
    (isRitm t ritmId) a.requestItem.rows) rfl rfl

theorem rows_setLifecycle (requestId status stage : String) :
    Rows t a [] (setRequestLifecycle t requestId status stage a) :=
  .of_same (map_updateWhere (f := lifecycleSet status stage) (fun _ => rfl)
    (isRequest t requestId) a.request.rows) rfl rfl rfl

end Rows

section Steps

variable (format : String → JsonObject → Except FormatError String)

theorem fulfilStep_rows (req : FulfillmentRequest) (d : Draw) (db : Db) (q : FulfilPhase) :
    Rows req.tenantId db (fulfilCommit req d db q) (fulfilStep format req d db q).1 := by
  cases q with
  | assertRequest => exact .refl _ db
  | duplicateGate =>
    simp only [fulfilStep, fulfilCommit]
    split <;> exact .refl _ db
  | loadTemplate =>
    simp only [fulfilStep, fulfilCommit]
    split
    · exact .refl _ db
    · split <;> exact .refl _ db
  | idemLookup name plan =>
    simp only [fulfilStep, fulfilCommit]
    split <;> exact .refl _ db
  | insertRitm name plan =>
    simp only [fulfilStep, fulfilCommit]
    cases h : insertRequestItem (newRitm req plan d db.now) (ritmIdOf_length d) db with
    | ok db' => exact rows_insertItem h
    | uniqueViolation => exact .refl _ db
    | foreignKeyViolation => exact .refl _ db
  | insertTasks name m todo n =>
    cases todo with
    | nil => exact .refl _ db
    | cons t todo =>
      simp only [fulfilStep, fulfilCommit]
      cases h : insertTask (newTask req m t d db.now) db with
      | ok db' => exact rows_insertTask h
      | uniqueViolation => exact .refl _ db
      | foreignKeyViolation => exact .refl _ db
  | insertRun name m n =>
    simp only [fulfilStep, fulfilCommit]
    cases h : insertFulfillmentRun (newRun req m d db.now) db with
    | none => exact .refl _ db
    | some db' => exact rows_insertRun h
  | returned o => exact .refl _ db
  | raised e => exact .refl _ db

theorem createStep_rows (cc : CreateConfig) (a : CreateArgs) (inp : SubmitInput) (db : Db)
    {p : CreatePhase} (hp : ∀ req q, p = .fulfil req q → req.tenantId = a.tenantId) :
    Rows a.tenantId db (createCommit a inp db p) (createStep format cc a inp db p).1 := by
  cases p with
  | loadForm =>
    simp only [createStep, createCommit]
    split
    · exact .refl _ db
    · split <;> exact .refl _ db
  | insertRequest name =>
    simp only [createStep, createCommit]
    split
    · cases h : insertRequest (newRequest a name inp.draw) db with
      | none => exact .refl _ db
      | some db' =>
        dsimp only
        split <;> exact rows_insertRequest h
    · exact .refl _ db
  | fulfil req q =>
    have hrows := fulfilStep_rows format req inp.draw db q
    rw [hp req q rfl] at hrows
    cases q with
    | returned o => exact .refl _ db
    | raised e => exact .refl _ db
    | _ => exact hrows
  | gate o =>
    simp only [createStep, createCommit]
    split <;> exact .refl _ db
  | hold o => exact rows_setApprovalState ..
  | holdStamp o => exact rows_setLifecycle ..
  | park o g =>
    simp only [createStep, createCommit]
    cases h : insertApprovals (gateRows a o g inp.approvalIds) db with
    | none => exact .refl _ db
    | some db' =>
      exact (rows_insertApprovals h).trans
        ((rows_setApprovalState o.ritmId .requested).trans (rows_setLifecycle ..))
  | dispatch o => exact .refl _ db
  | returned r => exact .refl _ db
  | raised e => exact .refl _ db

end Steps

def OneItem (m : String) (log : List Commit) : Prop := ∀ x ∈ log, x.ritm = some m

/-- The log of `fulfill_request`: nothing before the RITM insert or the lookup that
replaces it, and one request item from there on. -/
def FulfilLog (log : List Commit) : FulfilPhase → Prop
  | .insertTasks _ m _ _ => OneItem m log
  | .insertRun _ m _ => OneItem m log
  | .returned _ => ∃ m, OneItem m log
  | .raised e => log = [] ∨
      (e.kind ≠ .duplicateRequest ∧ e.kind ≠ .catalogItemNotFound ∧ ∃ m, OneItem m log)
  | _ => log = []

theorem FulfilLog.one {log : List Commit} {q : FulfilPhase} (h : FulfilLog log q) :
    ∃ m, OneItem m log := by
  have hnil : log = [] → ∃ m, OneItem m log := by
    rintro rfl
    exact ⟨"", fun _ hx => by cases hx⟩
  cases q with
  | insertTasks name m todo n => exact ⟨m, h⟩
  | insertRun name m n => exact ⟨m, h⟩
  | returned o => exact h
  | raised e =>
    rcases h with h | h
    · exact hnil h
    · exact h.2.2
  | _ => exact hnil h

def ItemsOf (requestId : String) (log : List Commit) : Prop :=
  ∀ m q n, .item m q n ∈ log → q = requestId

theorem OneItem.append {m : String} {log : List Commit} {x : Commit} (h : OneItem m log)
    (hx : x.ritm = some m) : OneItem m (log ++ [x]) := by
  intro y hy
  rcases List.mem_append.mp hy with hy | hy
  · exact h y hy
  · rw [List.mem_singleton.mp hy]
    exact hx

theorem fulfilCommit_items (req : FulfillmentRequest) (d : Draw) (db : Db) (q : FulfilPhase) :
    ItemsOf req.requestId (fulfilCommit req d db q) := by
  intro m r n hm
  unfold fulfilCommit at hm
  split at hm
  · split at hm
    · cases List.mem_singleton.mp hm
      rfl
    · cases hm
  · split at hm
    · cases List.mem_singleton.mp hm
    · cases hm
  · split at hm
    · cases List.mem_singleton.mp hm
    · cases hm
  · cases hm

theorem ItemsOf.append {requestId : String} {log log' : List Commit} (h : ItemsOf requestId log)
    (h' : ItemsOf requestId log') : ItemsOf requestId (log ++ log') := by
  intro m q n hm
  rcases List.mem_append.mp hm with hm | hm
  · exact h m q n hm
  · exact h' m q n hm

section FulfilLog

variable (format : String → JsonObject → Except FormatError String)

theorem fulfilStep_log (req : FulfillmentRequest) (d : Draw) (db : Db) {q : FulfilPhase}
    {log : List Commit} (h : FulfilLog log q) :
    FulfilLog (log ++ fulfilCommit req d db q) (fulfilStep format req d db q).2 := by
  cases q with
  | assertRequest =>
    simp only [fulfilStep, fulfilCommit, List.append_nil]
    split
    · exact h
    · exact .inl h
  | duplicateGate =>
    simp only [fulfilStep, fulfilCommit, List.append_nil]
    split
    · exact h
    · exact .inl h
  | loadTemplate =>
    simp only [fulfilStep, fulfilCommit, List.append_nil]
    split
    · exact .inl h
    · split
      · exact .inl h
      · dsimp only
        split <;> exact h
  | idemLookup name plan =>
    simp only [fulfilStep, fulfilCommit, List.append_nil]
    have hnil : log = [] := h
    subst hnil
    split
    · exact fun x hx => by cases hx
    · rfl
  | insertRitm name plan =>
    have hnil : log = [] := h
    subst hnil
    simp only [fulfilStep, fulfilCommit, List.nil_append]
    cases insertRequestItem (newRitm req plan d db.now) (ritmIdOf_length d) db with
    | ok db' =>
      intro x hx
      rw [List.mem_singleton.mp hx]
      rfl
    | uniqueViolation => exact .inl rfl
    | foreignKeyViolation => exact .inl rfl
  | insertTasks name m todo n =>
    have hone : OneItem m (log ++ []) := by
      rw [List.append_nil]
      exact h
    cases todo with
    | nil => exact hone
    | cons t todo =>
      simp only [fulfilStep, fulfilCommit]
      cases insertTask (newTask req m t d db.now) db with
      | ok db' => exact OneItem.append h rfl
      | uniqueViolation => exact hone
      | foreignKeyViolation => exact .inr ⟨fun h => (by cases h), fun h => (by cases h), m, hone⟩
  | insertRun name m n =>
    have hone : OneItem m (log ++ []) := by
      rw [List.append_nil]
      exact h
    simp only [fulfilStep, fulfilCommit]
    cases insertFulfillmentRun (newRun req m d db.now) db with
    | none => exact .inr ⟨fun h => (by cases h), fun h => (by cases h), m, hone⟩
    | some db' => exact ⟨m, OneItem.append h rfl⟩
  | returned o => simpa [fulfilStep, fulfilCommit] using h
  | raised e => simpa [fulfilStep, fulfilCommit] using h

end FulfilLog

/-- The log of a tool call that has opened its parent request. -/
def Filed (log : List Commit) : Prop :=
  ∃ id l m, log = .request id :: l ∧ OneItem m l ∧ ItemsOf id l

def NoItem (log : List Commit) : Prop := ∀ m q n, .item m q n ∉ log

def CreateLog (log : List Commit) : CreatePhase → Prop
  | .loadForm => log = []
  | .insertRequest _ => log = []
  | .fulfil req q =>
    ∃ l, log = .request req.requestId :: l ∧ FulfilLog l q ∧ ItemsOf req.requestId l
  | .returned r => (log = [] ∨ Filed log) ∧ (r.ok = false → NoItem log)
  | .raised _ => log = [] ∨ Filed log
  | _ => Filed log

theorem noItem_nil : NoItem [] := fun _ _ _ h => (by cases h)

theorem noItem_request (id : String) : NoItem [.request id] := by
  intro m q n h
  cases List.mem_singleton.mp h

theorem oneItem_nil (m : String) : OneItem m [] := fun _ hx => by cases hx

theorem itemsOf_nil (id : String) : ItemsOf id [] := fun _ _ _ hx => by cases hx

theorem filed_request (id : String) : Filed [.request id] :=
  ⟨id, [], "", rfl, oneItem_nil _, itemsOf_nil _⟩

def OwnTenant (a : CreateArgs) (p : CreatePhase) : Prop :=
  ∀ req q, p = .fulfil req q → req.tenantId = a.tenantId

section CreateLog

variable (format : String → JsonObject → Except FormatError String)

theorem createStep_tenant (cc : CreateConfig) {a : CreateArgs} (inp : SubmitInput) (db : Db)
    {p : CreatePhase} (h : OwnTenant a p) : OwnTenant a (createStep format cc a inp db p).2 := by
  intro req q he
  unfold createStep at he
  split at he
  · split at he
    · cases he
    · split at he
      · cases he
      · dsimp only at he
        split at he <;> cases he
  · split at he
    · split at he
      · cases he
      · split at he
        · cases he
          rfl
        · cases he
    · cases he
  · dsimp only at he
    split at he <;> cases he
  · simp only [fulfilFailure] at he
    split at he <;> cases he
  · cases he
    exact h _ _ rfl
  · split at he
    · cases he
    · dsimp only at he
      split_ifs at he
  · cases he
  · cases he
  · split at he <;> cases he
  · cases he
  · cases he
  · cases he

theorem createStep_log (cc : CreateConfig) (a : CreateArgs) (inp : SubmitInput) (db : Db)
    {p : CreatePhase} {log : List Commit} (h : CreateLog log p) :
    CreateLog (log ++ createCommit a inp db p) (createStep format cc a inp db p).2 := by
  have refuse : ∀ {r : ToolResult}, log = [] → CreateLog (log ++ []) (.returned r) := by
    rintro r rfl
    exact ⟨.inl rfl, fun _ => noItem_nil⟩
  have answer : ∀ {r : ToolResult}, Filed log → r.ok = true →
      CreateLog (log ++ []) (.returned r) := by
    intro r hf hr
    rw [List.append_nil]
    refine ⟨.inr hf, fun hf => ?_⟩
    rw [hr] at hf
    cases hf
  cases p with
  | loadForm =>
    simp only [createStep, createCommit]
    split
    · exact refuse h
    · split
      · exact refuse h
      · dsimp only
        split
        · simpa [CreateLog] using h
        · exact refuse h
  | insertRequest name =>
    have hnil : log = [] := h
    simp only [createStep, createCommit]
    split
    · cases insertRequest (newRequest a name inp.draw) db with
      | none => exact .inl (by simpa using hnil)
      | some db' =>
        subst hnil
        dsimp only
        split
        · exact ⟨[], rfl, rfl, itemsOf_nil _⟩
        · exact ⟨.inr (filed_request _), fun _ => noItem_request _⟩
    · exact refuse h
  | fulfil req q =>
    obtain ⟨l, rfl, hl, hi⟩ := h
    have hstep := fulfilStep_log format req inp.draw db hl
    have hitems := hi.append (fulfilCommit_items req inp.draw db q)
    have hfiled : Filed (.request req.requestId :: l) := by
      obtain ⟨m, hm⟩ := hl.one
      exact ⟨req.requestId, l, m, rfl, hm, hi⟩
    cases q with
    | returned o =>
      simp only [createStep, createCommit, fulfilCommit, List.append_nil]
      split <;> exact hfiled
    | raised e =>
      simp only [createStep, createCommit, fulfilCommit, List.append_nil, fulfilFailure]
      split
      · rename_i hk
        have hnil : l = [] := hl.resolve_right fun hr => hr.1 hk
        subst hnil
        exact ⟨.inr hfiled, fun _ => noItem_request _⟩
      · rename_i hk
        have hnil : l = [] := hl.resolve_right fun hr => hr.2.1 hk
        subst hnil
        exact ⟨.inr hfiled, fun _ => noItem_request _⟩
      · exact .inr hfiled
    | _ => exact ⟨_, rfl, hstep, hitems⟩
  | gate o =>
    simp only [createStep, createCommit]
    split
    · exact answer h rfl
    · dsimp only
      rw [List.append_nil]
      split_ifs <;> exact h
  | hold o =>
    simp only [createStep, createCommit, List.append_nil]
    exact h
  | holdStamp o => exact answer h rfl
  | park o g =>
    simp only [createStep, createCommit]
    split <;> exact answer h rfl
  | dispatch o => exact answer h rfl
  | returned r => simpa [createStep, createCommit] using h
  | raised e => simpa [createStep, createCommit] using h

end CreateLog

def taskCount (t m : String) (db : Db) : ℕ := (listTasksForRitm t m db).length

/-- A request item with exactly the task rows it counts. -/
def Whole (db : Db) (r : RitmRow) : Prop := taskCount r.tenantId r.ritmId db = r.totalTasks

/-- Every row that is new since `db₀` stands with a whole request item. -/
structure Atomic (db₀ db : Db) : Prop where
  request : ∀ r ∈ db.request.rows, requestKey r ∉ db₀.request.rows.map requestKey →
    ∃ q ∈ db.requestItem.rows, (q.tenantId, q.requestId) = requestKey r ∧ Whole db q
  item : ∀ q ∈ db.requestItem.rows, ritmKey q ∉ db₀.requestItem.rows.map ritmKey → Whole db q
  task : ∀ x ∈ db.task.rows, taskKey x ∉ db₀.task.rows.map taskKey →
    ∃ q ∈ db.requestItem.rows, ritmKey q = (x.tenantId, x.ritmId) ∧ Whole db q
  run : ∀ x ∈ db.fulfillmentRun.rows, runKey x ∉ db₀.fulfillmentRun.rows.map runKey →
    ∃ q ∈ db.requestItem.rows, ritmKey q = (x.tenantId, x.ritmId) ∧ Whole db q

section NewRows

variable {t : String} {db₀ db : Db} {log : List Commit}

theorem mem_newRequests {k : String × String} :
    k ∈ newRequests t log ↔ ∃ id, .request id ∈ log ∧ k = (t, id) := by
  simp only [newRequests, List.mem_filterMap]
  constructor
  · rintro ⟨x, hx, hk⟩
    cases x <;> cases hk
    exact ⟨_, hx, rfl⟩
  · rintro ⟨id, hx, rfl⟩
    exact ⟨_, hx, rfl⟩

theorem mem_newItems {k : (String × String) × String × ℕ} :
    k ∈ newItems t log ↔ ∃ m q n, .item m q n ∈ log ∧ k = ((t, m), q, n) := by
  simp only [newItems, List.mem_filterMap]
  constructor
  · rintro ⟨x, hx, hk⟩
    cases x <;> cases hk
    exact ⟨_, _, _, hx, rfl⟩
  · rintro ⟨m, q, n, hx, rfl⟩
    exact ⟨_, hx, rfl⟩

theorem mem_newTasks {k : (String × String) × String} :
    k ∈ newTasks t log ↔ ∃ id m, .task id m ∈ log ∧ k = ((t, id), m) := by
  simp only [newTasks, List.mem_filterMap]
  constructor
  · rintro ⟨x, hx, hk⟩
    cases x <;> cases hk
    exact ⟨_, _, hx, rfl⟩
  · rintro ⟨id, m, hx, rfl⟩
    exact ⟨_, hx, rfl⟩

theorem mem_newRuns {k : (String × String) × String} :
    k ∈ newRuns t log ↔ ∃ id m, .run id m ∈ log ∧ k = ((t, id), m) := by
  simp only [newRuns, List.mem_filterMap]
  constructor
  · rintro ⟨x, hx, hk⟩
    cases x <;> cases hk
    exact ⟨_, _, hx, rfl⟩
  · rintro ⟨id, m, hx, rfl⟩
    exact ⟨_, hx, rfl⟩

/-- A row whose key is not among the old keys has its shape in the new part. -/
theorem new_of_fresh {α β κ : Type} {s : α → β} {k : α → κ} {f : β → κ}
    (hf : ∀ x, f (s x) = k x) {old rows : List α} {new : List β}
    (h : rows.map s = old.map s ++ new) {x : α} (hx : x ∈ rows)
    (hk : k x ∉ old.map k) : s x ∈ new := by
  have hmem : s x ∈ old.map s ++ new := h ▸ List.mem_map_of_mem hx
  rcases List.mem_append.mp hmem with hold | hnew
  · obtain ⟨y, hy, he⟩ := List.mem_map.mp hold
    refine absurd (List.mem_map.mpr ⟨y, hy, ?_⟩) hk
    rw [← hf, he, hf]
  · exact hnew

/-- With unique keys, what is in the new part is a row whose key is not old. -/
theorem fresh_of_new {α β κ : Type} {s : α → β} {k : α → κ} {f : β → κ}
    (hf : ∀ x, f (s x) = k x) {old rows : List α} {new : List β}
    (h : rows.map s = old.map s ++ new) (hn : (rows.map k).Nodup) {b : β}
    (hb : b ∈ new) : ∃ x ∈ rows, s x = b ∧ k x ∉ old.map k := by
  have hmem : b ∈ rows.map s := h ▸ List.mem_append_right _ hb
  obtain ⟨x, hx, rfl⟩ := List.mem_map.mp hmem
  have hcomp : ∀ l : List α, l.map k = (l.map s).map f := by
    intro l
    simp [List.map_map, Function.comp_def, hf]
  refine ⟨x, hx, rfl, fun hold => ?_⟩
  rw [hcomp, h, List.map_append, List.nodup_append] at hn
  exact hn.2.2 (k x) (hcomp old ▸ hold) (k x) (List.mem_map.mpr ⟨s x, hb, hf x⟩) rfl

theorem countP_newTasks {m : String} (h : ∀ id m', .task id m' ∈ log → m' = m) :
    (newTasks t log).countP (fun s => s.1.1 = t ∧ s.2 = m) = log.countP Commit.isTask := by
  induction log with
  | nil => rfl
  | cons x log ih =>
    have ih' := ih fun id m' hm => h id m' (List.mem_cons_of_mem _ hm)
    cases x with
    | task id m' =>
      have hm : m' = m := h id m' List.mem_cons_self
      have hcons : newTasks t (.task id m' :: log) = ((t, id), m') :: newTasks t log := rfl
      rw [hcons, List.countP_cons_of_pos (by simp [hm]), List.countP_cons_of_pos rfl, ih']
    | _ =>
      rw [List.countP_cons_of_neg (by simp [Commit.isTask])]
      exact ih'

theorem taskCount_eq (t m : String) (db : Db) :
    taskCount t m db = (db.task.rows.map taskShape).countP (fun s => s.1.1 = t ∧ s.2 = m) := by
  rw [taskCount, listTasksForRitm, List.length_insertionSort, List.countP_map,
    List.countP_eq_length_filter]
  rfl

theorem Rows.taskCount (h : Rows t db₀ log db) {m : String}
    (hm : ∀ id m', .task id m' ∈ log → m' = m) :
    taskCount t m db = FulfillmentAtomicity.taskCount t m db₀ + log.countP Commit.isTask := by
  rw [taskCount_eq, taskCount_eq, h.tasks, List.countP_append, countP_newTasks hm]

/-- No task row refers to a request item that is not there. -/
theorem taskCount_fresh {m : String} (h : (t, m) ∉ db.requestItem.rows.map ritmKey) :
    taskCount t m db = 0 := by
  rw [taskCount, List.length_eq_zero_iff, List.eq_nil_iff_forall_not_mem]
  intro x hx
  obtain ⟨hmem, rfl, rfl⟩ := mem_listTasks.mp hx
  exact h (db.task_ritm x hmem)

section Recorded

variable (h : Rows t db₀ log db)

include h

theorem Rows.new_request {r : RequestRow} (hr : r ∈ db.request.rows)
    (hk : requestKey r ∉ db₀.request.rows.map requestKey) :
    ∃ id, .request id ∈ log ∧ requestKey r = (t, id) :=
  mem_newRequests.mp (new_of_fresh (k := requestKey) (f := fun x => x)
    (fun _ => rfl) h.requests hr hk)

theorem Rows.new_item {q : RitmRow} (hq : q ∈ db.requestItem.rows)
    (hk : ritmKey q ∉ db₀.requestItem.rows.map ritmKey) :
    ∃ m r n, .item m r n ∈ log ∧ itemShape q = ((t, m), r, n) :=
  mem_newItems.mp (new_of_fresh (f := Prod.fst) (fun _ => rfl) h.items hq hk)

theorem Rows.new_task {x : TaskRow} (hx : x ∈ db.task.rows)
    (hk : taskKey x ∉ db₀.task.rows.map taskKey) :
    ∃ id m, .task id m ∈ log ∧ taskShape x = ((t, id), m) :=
  mem_newTasks.mp (new_of_fresh (f := Prod.fst) (fun _ => rfl) h.tasks hx hk)

theorem Rows.new_run {x : RunRow} (hx : x ∈ db.fulfillmentRun.rows)
    (hk : runKey x ∉ db₀.fulfillmentRun.rows.map runKey) :
    ∃ id m, .run id m ∈ log ∧ runShape x = ((t, id), m) :=
  mem_newRuns.mp (new_of_fresh (f := Prod.fst) (fun _ => rfl) h.runs hx hk)

theorem Rows.request_row {id : String} (hx : .request id ∈ log) :
    ∃ r ∈ db.request.rows, requestKey r = (t, id) ∧
      requestKey r ∉ db₀.request.rows.map requestKey :=
  fresh_of_new (k := requestKey) (f := fun x => x) (fun _ => rfl) h.requests db.request.key_unique
    (mem_newRequests.mpr ⟨id, hx, rfl⟩)

theorem Rows.item_row {m r : String} {n : ℕ} (hx : .item m r n ∈ log) :
    ∃ q ∈ db.requestItem.rows, itemShape q = ((t, m), r, n) ∧
      ritmKey q ∉ db₀.requestItem.rows.map ritmKey :=
  fresh_of_new (f := Prod.fst) (fun _ => rfl) h.items db.requestItem.key_unique
    (mem_newItems.mpr ⟨m, r, n, hx, rfl⟩)

/-- An old request item keeps its parent request. -/
theorem Rows.item_kept {r₀ q : RitmRow} (hr₀ : r₀ ∈ db₀.requestItem.rows)
    (hq : q ∈ db.requestItem.rows) (hk : ritmKey r₀ = ritmKey q) :
    q.requestId = r₀.requestId ∧ q.tenantId = r₀.tenantId := by
  have hmem : itemShape r₀ ∈ db.requestItem.rows.map itemShape := by
    rw [h.items]
    exact List.mem_append_left _ (List.mem_map_of_mem hr₀)
  obtain ⟨q', hq', hs⟩ := List.mem_map.mp hmem
  simp only [itemShape, Prod.mk.injEq] at hs
  have he : q' = q := db.requestItem.eq_of_key hq' hq (hs.1.trans hk)
  subst he
  exact ⟨hs.2.1, congrArg Prod.fst hs.1⟩

theorem Rows.task_row {id m : String} (hx : .task id m ∈ log) :
    ∃ x ∈ db.task.rows, taskShape x = ((t, id), m) ∧ taskKey x ∉ db₀.task.rows.map taskKey :=
  fresh_of_new (f := Prod.fst) (fun _ => rfl) h.tasks db.task.key_unique
    (mem_newTasks.mpr ⟨id, m, hx, rfl⟩)

theorem Rows.run_row {id m : String} (hx : .run id m ∈ log) :
    ∃ x ∈ db.fulfillmentRun.rows, runShape x = ((t, id), m) ∧
      runKey x ∉ db₀.fulfillmentRun.rows.map runKey :=
  fresh_of_new (f := Prod.fst) (fun _ => rfl) h.runs db.fulfillmentRun.key_unique
    (mem_newRuns.mpr ⟨id, m, hx, rfl⟩)

end Recorded

theorem atomic_of_empty (h : Rows t db₀ [] db) : Atomic db₀ db := by
  refine ⟨?_, ?_, ?_, ?_⟩
  · intro r hr hk
    obtain ⟨_, hx, _⟩ := h.new_request hr hk
    cases hx
  · intro q hq hk
    obtain ⟨_, _, _, hx, _⟩ := h.new_item hq hk
    cases hx
  · intro x hx hk
    obtain ⟨_, _, hx, _⟩ := h.new_task hx hk
    cases hx
  · intro x hx hk
    obtain ⟨_, _, hx, _⟩ := h.new_run hx hk
    cases hx

/-- A log about one whole request item leaves nothing unaccounted for. -/
theorem atomic_of_whole (h : Rows t db₀ log db) {r : RitmRow} {m : String}
    (hr : r ∈ db.requestItem.rows) (hk : ritmKey r = (t, m)) (hw : Whole db r)
    (hone : ∀ x ∈ log, ∀ m', x.ritm = some m' → m' = m)
    (hreq : ∀ id, .request id ∈ log → r.requestId = id) : Atomic db₀ db := by
  have hkey := hk
  simp only [ritmKey, Prod.mk.injEq] at hkey
  refine ⟨?_, ?_, ?_, ?_⟩
  · intro x hx hnew
    obtain ⟨id, hid, hxk⟩ := h.new_request hx hnew
    refine ⟨r, hr, ?_, hw⟩
    rw [hxk, hkey.1, hreq id hid]
  · intro q hq hnew
    obtain ⟨m', _, _, hm, hs⟩ := h.new_item hq hnew
    have hqk : ritmKey q = (t, m') := congrArg Prod.fst hs
    rw [hone _ hm m' rfl, ← hk] at hqk
    rw [db.requestItem.eq_of_key hq hr hqk]
    exact hw
  · intro x hx hnew
    obtain ⟨id, m', hm, hs⟩ := h.new_task hx hnew
    simp only [taskShape, taskKey, Prod.mk.injEq] at hs
    refine ⟨r, hr, ?_, hw⟩
    rw [hk, hs.1.1, hs.2, hone _ hm m' rfl]
  · intro x hx hnew
    obtain ⟨id, m', hm, hs⟩ := h.new_run hx hnew
    simp only [runShape, runKey, Prod.mk.injEq] at hs
    refine ⟨r, hr, ?_, hw⟩
    rw [hk, hs.1.1, hs.2, hone _ hm m' rfl]

theorem OneItem.task {m : String} (h : OneItem m log) {id m' : String} (hx : .task id m' ∈ log) :
    m' = m := Option.some.inj (h _ hx)

def Target (t : String) (db₀ : Db) (log : List Commit) (m : String) (n : ℕ) : Prop :=
  OneItem m log ∧ ∃ q, ((t, m), q, n) ∈ db₀.requestItem.rows.map itemShape ++ newItems t log

theorem fulfil_atomic_iff (h : Rows t db₀ log db) {m₀ : String} (hone : OneItem m₀ log) :
    Atomic db₀ db ↔ log = [] ∨ ∃ m n, Target t db₀ log m n ∧
      taskCount t m db₀ + log.countP Commit.isTask = n := by
  constructor
  · intro ha
    cases hl : log with
    | nil => exact .inl rfl
    | cons x l =>
      have hx : x ∈ log := hl ▸ List.mem_cons_self
      have hm : x.ritm = some m₀ := hone x hx
      have hwhole : ∃ q ∈ db.requestItem.rows, ritmKey q = (t, m₀) ∧ Whole db q := by
        cases x with
        | request id => cases hm
        | item m q n =>
          cases hm
          obtain ⟨r, hr, hs, hnew⟩ := h.item_row hx
          exact ⟨r, hr, congrArg Prod.fst hs, ha.item r hr hnew⟩
        | task id m =>
          cases hm
          obtain ⟨r, hr, hs, hnew⟩ := h.task_row hx
          simp only [taskShape, taskKey, Prod.mk.injEq] at hs
          obtain ⟨q, hq, hqk, hw⟩ := ha.task r hr hnew
          exact ⟨q, hq, by rw [hqk, hs.1.1, hs.2], hw⟩
        | run id m =>
          cases hm
          obtain ⟨r, hr, hs, hnew⟩ := h.run_row hx
          simp only [runShape, runKey, Prod.mk.injEq] at hs
          obtain ⟨q, hq, hqk, hw⟩ := ha.run r hr hnew
          exact ⟨q, hq, by rw [hqk, hs.1.1, hs.2], hw⟩
      obtain ⟨q, hq, hqk, hw⟩ := hwhole
      have hkey := hqk
      simp only [ritmKey, Prod.mk.injEq] at hkey
      rw [Whole, hkey.1, hkey.2, h.taskCount fun _ _ ht => hone.task ht] at hw
      rw [← hl]
      refine .inr ⟨m₀, q.totalTasks, ⟨hone, q.requestId, ?_⟩, hw⟩
      rw [← h.items, ← hqk]
      exact List.mem_map_of_mem hq
  · rintro (rfl | ⟨m, n, ⟨hm, q, hs⟩, hn⟩)
    · exact atomic_of_empty h
    · rw [← h.items] at hs
      obtain ⟨r, hr, hrs⟩ := List.mem_map.mp hs
      simp only [itemShape, ritmKey, Prod.mk.injEq] at hrs
      refine atomic_of_whole h hr (by rw [ritmKey, hrs.1.1, hrs.1.2]) ?_ ?_ ?_
      · rw [Whole, hrs.1.1, hrs.1.2, h.taskCount fun _ _ ht => hm.task ht, hn, hrs.2.2]
      · intro x hx m' hm'
        exact (Option.some.inj ((hm x hx).symm.trans hm')).symm
      · intro id hid
        cases hm _ hid

theorem create_atomic_iff (h : Rows t db₀ log db) (hlog : log = [] ∨ Filed log) :
    Atomic db₀ db ↔ log = [] ∨ ∃ m q n, .item m q n ∈ log ∧ log.countP Commit.isTask = n := by
  constructor
  · intro ha
    refine hlog.imp_right fun ⟨id, l, m₀, hl, hone, _⟩ => ?_
    obtain ⟨r, hr, hrk, hnew⟩ := h.request_row (hl ▸ List.mem_cons_self)
    obtain ⟨q, hq, hqk, hw⟩ := ha.request r hr hnew
    rw [hrk] at hqk
    -- an old request item would refer to a request that did not exist yet
    have hfresh : ritmKey q ∉ db₀.requestItem.rows.map ritmKey := by
      intro hold
      obtain ⟨r₀, hr₀, hr₀k⟩ := List.mem_map.mp hold
      obtain ⟨hreq, hten⟩ := h.item_kept hr₀ hq hr₀k
      have := db₀.ritm_request r₀ hr₀
      rw [← hreq, ← hten, hqk, ← hrk] at this
      exact hnew this
    obtain ⟨m, q', n, hm, hs⟩ := h.new_item hq hfresh
    simp only [itemShape, ritmKey, Prod.mk.injEq] at hs
    refine ⟨m, q', n, hm, ?_⟩
    have htask : ∀ id m', .task id m' ∈ log → m' = m := by
      intro id' m' hx
      rw [hl] at hx hm
      have hx' : .task id' m' ∈ l := by simpa using hx
      have hm' : .item m q' n ∈ l := by simpa using hm
      exact (hone.task hx').trans (Option.some.inj (hone _ hm')).symm
    rw [Whole, hs.1.1, hs.1.2, h.taskCount htask, taskCount_fresh, hs.2.2, Nat.zero_add] at hw
    · exact hw
    · rw [← hs.1.1, ← hs.1.2]
      exact hfresh
  · rintro (rfl | ⟨m, q, n, hm, hn⟩)
    · exact atomic_of_empty h
    · obtain ⟨id, l, m₀, rfl, hone, hitems⟩ := hlog.resolve_left (List.ne_nil_of_mem hm)
      have hml : .item m q n ∈ l := by simpa using hm
      have hm₀ : m = m₀ := Option.some.inj (hone _ hml)
      subst hm₀
      obtain ⟨r, hr, hs, hfresh⟩ := h.item_row hm
      have hshape := hs
      simp only [itemShape, ritmKey, Prod.mk.injEq] at hshape
      have hall : ∀ x ∈ Commit.request id :: l, ∀ m', x.ritm = some m' → m' = m := by
        intro x hx m' hm'
        rcases List.mem_cons.mp hx with rfl | hx
        · cases hm'
        · exact (Option.some.inj ((hone x hx).symm.trans hm')).symm
      refine atomic_of_whole h hr (congrArg Prod.fst hs) ?_ hall ?_
      · rw [Whole, hshape.1.1, hshape.1.2,
          h.taskCount fun id m' hx => hall _ hx m' rfl, taskCount_fresh, hn,
            hshape.2.2, Nat.zero_add]
        rw [← hshape.1.1, ← hshape.1.2]
        exact hfresh
      · intro id' hid
        rcases List.mem_cons.mp hid with he | hid
        · cases he
          rw [hshape.2.1]
          exact hitems m q n hml
        · cases hone _ hid

end NewRows

section Stops

variable (format : String → JsonObject → Except FormatError String)

theorem fulfilCall_inv (req : FulfillmentRequest) (db₀ : Db) (xs : List (ℕ × Draw)) :
    Rows req.tenantId db₀ (fulfilCall format req db₀ xs).log (fulfilCall format req db₀ xs).db ∧
      FulfilLog (fulfilCall format req db₀ xs).log (fulfilCall format req db₀ xs).phase := by
  have hrun : ∀ (xs : List (ℕ × Draw)) (c : Call FulfilPhase),
      Rows req.tenantId db₀ c.log c.db ∧ FulfilLog c.log c.phase →
      Rows req.tenantId db₀ (xs.foldl (fulfilNext format req) c).log
        (xs.foldl (fulfilNext format req) c).db ∧
      FulfilLog (xs.foldl (fulfilNext format req) c).log
        (xs.foldl (fulfilNext format req) c).phase := by
    intro xs
    induction xs with
    | nil => exact fun c h => h
    | cons x xs ih =>
      intro c h
      refine ih _ ⟨h.1.trans ?_, fulfilStep_log format req x.2 _ h.2⟩
      exact (Rows.elapse x.1).trans (fulfilStep_rows format req x.2 _ c.phase)
  exact hrun xs _ ⟨.refl _ db₀, rfl⟩

structure CreateInv (a : CreateArgs) (db₀ : Db) (c : Call CreatePhase) : Prop where
  rows : Rows a.tenantId db₀ c.log c.db
  log : CreateLog c.log c.phase
  tenant : OwnTenant a c.phase

theorem createNext_inv (cc : CreateConfig) {a : CreateArgs} {db₀ : Db} {c : Call CreatePhase}
    (x : ℕ × SubmitInput) (h : CreateInv a db₀ c) : CreateInv a db₀ (createNext format cc a c x) :=
  ⟨h.rows.trans ((Rows.elapse x.1).trans (createStep_rows format cc a x.2 _ h.tenant)),
    createStep_log format cc a x.2 _ h.log, createStep_tenant format cc x.2 _ h.tenant⟩

theorem createCall_inv (cc : CreateConfig) (a : CreateArgs) (db₀ : Db)
    (xs : List (ℕ × SubmitInput)) : CreateInv a db₀ (createCall format cc a db₀ xs) := by
  have hrun : ∀ (xs : List (ℕ × SubmitInput)) (c : Call CreatePhase), CreateInv a db₀ c →
      CreateInv a db₀ (xs.foldl (createNext format cc a) c) := by
    intro xs
    induction xs with
    | nil => exact fun c h => h
    | cons x xs ih => exact fun c h => ih _ (createNext_inv format cc x h)
  refine hrun xs ⟨db₀, .loadForm, []⟩ ⟨.refl _ db₀, rfl, ?_⟩
  intro req q h
  cases h

theorem CreateLog.filed {log : List Commit} {p : CreatePhase} (h : CreateLog log p) :
    log = [] ∨ Filed log := by
  cases p with
  | loadForm => exact .inl h
  | insertRequest name => exact .inl h
  | fulfil req q =>
    obtain ⟨l, rfl, hl, hi⟩ := h
    obtain ⟨m, hm⟩ := hl.one
    exact .inr ⟨req.requestId, l, m, rfl, hm, hi⟩
  | returned r => exact h.1
  | raised e => exact h
  | _ => exact .inr h

/-- A tool call that has answered `ok=False` leaves no new parent request. -/
def NoOrphan (db₀ : Db) (c : Call CreatePhase) : Prop :=
  ∀ r, c.phase = .returned r → r.ok = false →
    c.db.request.rows.map requestKey = db₀.request.rows.map requestKey

theorem noOrphan_of_log {cc : CreateConfig} {a : CreateArgs} {db₀ : Db}
    {xs : List (ℕ × SubmitInput)}
    (h : (createCall format cc a db₀ xs).log = [] ∨
      ∃ m q n, .item m q n ∈ (createCall format cc a db₀ xs).log) :
    NoOrphan db₀ (createCall format cc a db₀ xs) := by
  have inv := createCall_inv format cc a db₀ xs
  intro r hp hok
  have hno : NoItem (createCall format cc a db₀ xs).log := by
    have hlog := inv.log
    rw [hp] at hlog
    exact hlog.2 hok
  rcases h with hnil | ⟨m, q, n, hm⟩
  · rw [inv.rows.requests, hnil]
    simp [newRequests]
  · exact absurd hm (hno m q n)

end Stops

end FulfillmentAtomicity
