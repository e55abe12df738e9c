import OneOps.ProcessPool
import OneOps.FulfillmentSaga
import OneOps.FulfillmentApproval
import OneOps.FulfillmentSubmission

/-! The fulfilment service as one pool: any number of `execute_plan`, `compensate_ritm`,
`decide_approval`, `fulfill_request` and `create_service_request` calls over one database.
A message that is delivered twice is a second call; a crash stops a call between two
awaits. No advisory lock is assumed. -/
namespace FulfillmentSystem

open KeyedTable
open ProcessPool
open FulfillmentContracts
open FulfillmentDb
open FulfillmentPlanning
open FulfillmentInspection
open FulfillmentWorker
open FulfillmentSaga
open FulfillmentApproval
open FulfillmentSubmission

inductive Proc where
  | execute (k : Worker)
  | compensate (k : Saga)
  | decide (d : Decision)
  | fulfil (req : FulfillmentRequest) (p : FulfilPhase)
  | create (cc : CreateConfig) (a : CreateArgs) (p : CreatePhase)
  | stopped

inductive Input where
  | worker (inp : WorkerInput)
  | saga (r : UndoResult)
  | decision
  | fulfil (d : Draw)
  | create (inp : SubmitInput)
  | crash

abbrev Service := Pool World Proc

/-- What happens between two statements: the clock moves, and at most one issued call acts. -/
structure Outside where
  seconds : ℕ
  lands : Option ℕ

abbrev ServiceEvent := Event Proc Input Outside

/-- A call as it enters the service. The lock attempt decides between `readRitm` and
`snapshot`. -/
inductive Entry : Proc → Prop where
  | execute (tenantId ritmId : String) : Entry (.execute ⟨tenantId, ritmId, .readRitm⟩)
  | contended (tenantId ritmId : String) : Entry (.execute ⟨tenantId, ritmId, .snapshot⟩)
  | compensate (tenantId ritmId : String) : Entry (.compensate ⟨tenantId, ritmId, .list⟩)
  | decide (d : Decision) (h : d.phase = .read) : Entry (.decide d)
  | fulfil (req : FulfillmentRequest) : Entry (.fulfil req .assertRequest)
  | create (cc : CreateConfig) (a : CreateArgs) : Entry (.create cc a .loadForm)

section Machine

variable (cfg : Config) (format : String → JsonObject → Except FormatError String)

def procStep (inp : Input) (w : World) (p : Proc) : World × Proc :=
  match p, inp with
  | .execute k, .worker inp => ((workerStep cfg inp w k).1, .execute (workerStep cfg inp w k).2)
  | .compensate k, .saga r =>
    ({ w with db := (sagaStep cfg r w.db k).1 },
      .compensate { k with phase := (sagaStep cfg r w.db k).2 })
  | .decide d, .decision =>
    ({ w with db := (decisionStep w.db d).1 }, .decide { d with phase := (decisionStep w.db d).2 })
  | .fulfil req q, .fulfil d =>
    ({ w with db := (fulfilStep format req d w.db q).1 },
      .fulfil req (fulfilStep format req d w.db q).2)
  | .create cc a q, .create inp =>
    ({ w with db := (createStep format cc a inp w.db q).1 },
      .create cc a (createStep format cc a inp w.db q).2)
  | _, .crash => (w, .stopped)
  | p, _ => (w, p)

def tick (seconds : ℕ) (w : World) : World :=
  { w with db := { w.db with now := w.db.now + seconds } }

def pass (e : Outside) (w : World) : World :=
  { tick e.seconds w with effects := landing e.lands w }

def service : Machine World Proc Input Outside := ⟨procStep cfg format, pass⟩

end Machine

/-- The steps of the service: an input that does not fit its process is idle. -/
inductive Acts (cfg : Config) (format : String → JsonObject → Except FormatError String)
    (w : World) : Proc → Input → Prop where
  | main (k : Worker) : Acts cfg format w (.execute k) (.worker .stmt)
  | child (k : Worker) (j : ℕ) (ci : ChildInput) (wave : ℕ) (children : List Child) (c : Child)
      (hp : k.phase = .running wave children) (hc : children[j]? = some c) :
      Acts cfg format w (.execute k) (.worker (.child j ci))
  | saga (k : Saga) (r : UndoResult) : Acts cfg format w (.compensate k) (.saga r)
  | decision (d : Decision) : Acts cfg format w (.decide d) .decision
  | fulfil (req : FulfillmentRequest) (q : FulfilPhase) (d : Draw) :
      Acts cfg format w (.fulfil req q) (.fulfil d)
  | create (cc : CreateConfig) (a : CreateArgs) (q : CreatePhase) (inp : SubmitInput) :
      Acts cfg format w (.create cc a q) (.create inp)
  | crash (p : Proc) (h : procStep cfg format .crash w p = (w, .stopped)) :
      Acts cfg format w p .crash
  | idle (p : Proc) (inp : Input) (h : procStep cfg format inp w p = (w, p)) :
      Acts cfg format w p inp

theorem workerStep_child {cfg : Config} {w : World} {k : Worker} {j wave : ℕ} {ci : ChildInput}
    {children : List Child} {c : Child} (hp : k.phase = .running wave children)
    (hc : children[j]? = some c) :
    workerStep cfg (.child j ci) w k =
      ((childStep cfg k.tenantId k.ritmId ci w c).1, ⟨k.tenantId, k.ritmId, .running wave
        (children.set j (childStep cfg k.tenantId k.ritmId ci w c).2)⟩) := by
  simp [workerStep, hp, hc]

theorem acts (cfg : Config) (format : String → JsonObject → Except FormatError String)
    (w : World) (p : Proc) (inp : Input) : Acts cfg format w p inp := by
  cases p with
  | execute k =>
    cases inp with
    | worker winp =>
      cases winp with
      | stmt => exact .main k
      | child j ci =>
        cases hp : k.phase with
        | running wave children =>
          cases hc : children[j]? with
          | none => exact .idle _ _ (by simp [procStep, workerStep, hp, hc])
          | some c => exact .child k j ci wave children c hp hc
        | _ => exact .idle _ _ (by simp [procStep, workerStep, hp])
    | crash => exact .crash _ rfl
    | _ => exact .idle _ _ rfl
  | compensate k =>
    cases inp with
    | saga r => exact .saga k r
    | crash => exact .crash _ rfl
    | _ => exact .idle _ _ rfl
  | decide d =>
    cases inp with
    | decision => exact .decision d
    | crash => exact .crash _ rfl
    | _ => exact .idle _ _ rfl
  | fulfil req q =>
    cases inp with
    | fulfil d => exact .fulfil req q d
    | crash => exact .crash _ rfl
    | _ => exact .idle _ _ rfl
  | create cc a q =>
    cases inp with
    | create inp => exact .create cc a q inp
    | crash => exact .crash _ rfl
    | _ => exact .idle _ _ rfl
  | stopped =>
    cases inp with
    | crash => exact .crash _ rfl
    | _ => exact .idle _ _ rfl

def Admissible (_ : Service) (e : ServiceEvent) : Prop := ∀ p, e = .spawn p → Entry p

theorem admissible_spawn {s : Service} {p : Proc} (h : Entry p) : Admissible s (.spawn p) := by
  intro q hq
  cases hq
  exact h

theorem admissible_act {s : Service} {i : ℕ} {inp : Input} : Admissible s (.act i inp) :=
  fun _ h => by cases h

/-- Whether a schedule starts calls at their entries only does not depend on the state. -/
theorem admits_entries {cfg : Config} {format : String → JsonObject → Except FormatError String} :
    ∀ (es : List ServiceEvent) (s : Service), (∀ p, .spawn p ∈ es → Entry p) →
      Admits (service cfg format) Admissible s es := by
  intro es
  induction es with
  | nil => intro s _; trivial
  | cons e es ih =>
    intro s h
    refine ⟨?_, ih _ fun p hp => h p (List.mem_cons_of_mem _ hp)⟩
    intro p hp
    exact h p (hp ▸ List.mem_cons_self)

structure Initial (s : Service) : Prop where
  procs : s.procs = []
  claims : s.shared.claims = []
  calls : s.shared.calls = []
  effects : s.shared.effects = []

def Moves (s t : TaskState) : Prop :=
  (Waiting s ∧ (t = .inProgress ∨ t = .skipped)) ∨
    (s = .inProgress ∧ (t = .done ∨ t = .failed ∨ t = .blocked ∨ t = .ready))

/-- Children that act on a row leave `pending`/`ready`, or leave `in_progress`. -/
def ChildWf (tenantId : String) : Child → Prop
  | .claim task => Waiting task.state
  | .settle a => a.tenantId = tenantId ∧ a.fromState = .inProgress ∧ Moves .inProgress a.toState
  | _ => True

def PhaseWf (tenantId : String) : Phase → Prop
  | .cascade _ todo => ∀ x ∈ todo, Waiting x.2.1
  | .running _ children => ∀ c ∈ children, ChildWf tenantId c
  | _ => True

def ProcWf : Proc → Prop
  | .execute k => PhaseWf k.tenantId k.phase
  | _ => True

inductive TaskWrite (db : Db) : Db → Prop where
  | keep {db' : Db} (h : db'.task = db.task) : TaskWrite db db'
  | transition {db' : Db} (a : TaskTransition) (legal : Moves a.fromState a.toState)
      (h : db'.task = (transitionTaskState a db).2.task) : TaskWrite db db'
  | recover {db' : Db} (tenantId ritmId : String) (minutes : ℕ)
      (h : db'.task = (recoverStuckTasks tenantId ritmId minutes db).task) : TaskWrite db db'
  | insert {db' : Db} (r : TaskRow) (hs : r.state = .pending) (hv : r.version = 1)
      (h : db.task.insert r = some db'.task) : TaskWrite db db'

def OnlyInserts (db db' : Db) : Prop :=
  db'.task = db.task ∨
    ∃ r : TaskRow, r.state = .pending ∧ r.version = 1 ∧ db.task.insert r = some db'.task

theorem write_of_inserts {db db' : Db} (h : OnlyInserts db db') : TaskWrite db db' := by
  rcases h with h | ⟨r, hs, hv, h⟩
  · exact .keep h
  · exact .insert r hs hv h

theorem lookup_of_inserts {db db' : Db} (h : OnlyInserts db db') {k : String × String} {r : TaskRow}
    (hr : db.task.lookup k = some r) : db'.task.lookup k = some r := by
  rcases h with h | ⟨q, _, _, h⟩
  · rw [h]
    exact hr
  · obtain ⟨hmem, hk⟩ := Table.lookup_eq_some.mp hr
    have hne : taskKey q ≠ k := by
      rintro rfl
      exact (Table.insert_eq_some h).2.1 (hk ▸ List.mem_map_of_mem hmem)
    rw [Table.lookup_insert h, if_neg hne]
    exact hr

theorem moves_settleResponse (tenantId : String) (task : TaskRow) (version : ℕ)
    (r : AdapterResponse) :
    ChildWf tenantId (.settle (settleResponse tenantId task version r)) := by
  unfold settleResponse ChildWf
  split_ifs with hs
  · exact ⟨rfl, rfl, .inr ⟨rfl, .inl rfl⟩⟩
  · refine ⟨rfl, rfl, .inr ⟨rfl, ?_⟩⟩
    dsimp only
    split_ifs
    · exact .inr (.inr (.inr rfl))
    · exact .inr (.inl rfl)

theorem wf_afterClaim (tenantId : String) (task : TaskRow) (version : ℕ) :
    ChildWf tenantId (afterClaim tenantId task version) := by
  unfold afterClaim
  split_ifs
  · trivial
  · exact ⟨rfl, rfl, .inr ⟨rfl, .inl rfl⟩⟩
  · exact ⟨rfl, rfl, .inr ⟨rfl, .inr (.inl rfl)⟩⟩
  · exact ⟨rfl, rfl, .inr ⟨rfl, .inl rfl⟩⟩
  · trivial

section Steps

variable {cfg : Config} {format : String → JsonObject → Except FormatError String}
  {tenantId ritmId : String} {w : World}

theorem childStep_wf {c : Child} (hc : ChildWf tenantId c) (inp : ChildInput) :
    ChildWf tenantId (childStep cfg tenantId ritmId inp w c).2 := by
  unfold childStep
  split
  · split
    · trivial
    · exact wf_afterClaim ..
  · split
    · trivial
    · exact ⟨rfl, rfl, .inr ⟨rfl, .inr (.inr (.inl rfl))⟩⟩
  · split
    · trivial
    · trivial
  · exact moves_settleResponse ..
  · exact moves_settleResponse ..
  · trivial
  · trivial
  · trivial
  · trivial
  · exact hc

/-- The two statements of a child that write task rows. -/
theorem childStep_task_cases (cfg : Config) (tenantId ritmId : String) (w : World) (c : Child)
    (inp : ChildInput) :
    (childStep cfg tenantId ritmId inp w c).1.db.task = w.db.task ∨
      (∃ task, c = .claim task ∧ (childStep cfg tenantId ritmId inp w c).1.db =
        (transitionTaskState
          (plain tenantId task.taskId task.state .inProgress task.version) w.db).2) ∨
      ∃ a hex, c = .settle a ∧ inp = .stmt hex ∧
        (childStep cfg tenantId ritmId inp w c).1.db = (transitionTaskState a w.db).2 := by
  unfold childStep
  split
  · rename_i task _
    split
    all_goals
      rename_i h
      exact .inr (.inl ⟨task, rfl, congrArg Prod.snd h.symm⟩)
  · split
    · exact .inl rfl
    · rename_i h
      obtain ⟨row, _, hrow⟩ := Option.bind_eq_some_iff.mp h
      exact .inl (insertApproval_items hrow).task
  · split <;> exact .inl rfl
  · exact .inl rfl
  · exact .inl rfl
  · exact .inl rfl
  · rename_i a hex
    exact .inr (.inr ⟨a, hex, rfl, rfl, rfl⟩)
  all_goals exact .inl rfl

theorem childStep_task {c : Child} (hc : ChildWf tenantId c) (inp : ChildInput) :
    TaskWrite w.db (childStep cfg tenantId ritmId inp w c).1.db := by
  rcases childStep_task_cases cfg tenantId ritmId w c inp with h | ⟨task, rfl, h⟩ |
    ⟨a, _, rfl, _, h⟩
  · exact .keep h
  · exact .transition (plain tenantId task.taskId task.state .inProgress task.version)
      (.inl ⟨hc, .inl rfl⟩) (congrArg Db.task h)
  · exact .transition a (by rw [hc.2.1]; exact hc.2.2) (congrArg Db.task h)

/-- The rows of one wave come from the listing the readiness was computed on. -/
theorem wf_decideWave (wave : ℕ) (t m : String) (db : Db) :
    PhaseWf tenantId (decideWave wave (listTasksForRitm t m db)) := by
  unfold decideWave
  split
  · trivial
  · split_ifs
    · trivial
    · intro c hc
      obtain ⟨task, htask, rfl⟩ := List.mem_map.mp hc
      obtain ⟨hmem, u, hu, hid, hok⟩ := mem_readyTasks.mp htask
      rw [listTasks_eq_of_taskId hu hmem hid] at hok
      exact (depsOk_iff.mp hok).1

theorem wf_blocked {tasks : List TaskRow} :
    ∀ x ∈ transitivelyBlockedTaskIds tasks, Waiting x.2.1 := by
  intro x hx
  obtain ⟨t, _, rfl, hw, _⟩ := mem_transitivelyBlocked.mp hx
  exact hw

theorem wf_report (k : Worker) (ritm : RitmRow) (o : FulfillmentOutcome) (run : Option String)
    (tasks : List TaskRow) (display : String) :
    PhaseWf tenantId (report k ritm o run tasks display) := by
  unfold report
  split <;> trivial

theorem mainStep_wf {k : Worker} (hk : PhaseWf k.tenantId k.phase) :
    PhaseWf k.tenantId (mainStep cfg w k).2 := by
  unfold mainStep
  split
  · trivial
  · split
    · trivial
    · dsimp only
      split <;> trivial
  · trivial
  · trivial
  · dsimp only
    split
    · exact wf_decideWave ..
    · exact wf_blocked
  · trivial
  · rename_i wave x todo h
    rw [h] at hk
    exact fun y hy => hk y (List.mem_cons_of_mem _ hy)
  · exact wf_decideWave ..
  · rename_i h
    rw [h] at hk
    dsimp only
    split
    · unfold nextWave
      split <;> trivial
    · exact hk
  · split
    · trivial
    · dsimp only
      split <;> trivial
  · trivial
  · trivial
  · split
    · exact wf_report ..
    · trivial
  · split
    · trivial
    · exact wf_report ..
  · trivial
  · trivial
  · trivial
  · exact wf_report ..
  · trivial
  · trivial

/-- The two statements of the wave loop that write task rows. -/
theorem mainStep_task_cases (cfg : Config) (w : World) (k : Worker) :
    (mainStep cfg w k).1.db.task = w.db.task ∨
      (k.phase = .recover ∧ (mainStep cfg w k).1.db =
        recoverStuckTasks k.tenantId k.ritmId cfg.stuckTaskRecoveryMinutes w.db) ∨
      ∃ wave x todo, k.phase = .cascade wave (x :: todo) ∧
        (mainStep cfg w k).1.db = (transitionTaskState (skipWrite k x) w.db).2 := by
  unfold mainStep
  split
  · exact .inl rfl
  · split <;> exact .inl rfl
  · exact .inl rfl
  · rename_i h
    exact .inr (.inl ⟨h, rfl⟩)
  · exact .inl rfl
  · exact .inl rfl
  · rename_i wave x todo h
    exact .inr (.inr ⟨wave, x, todo, h, rfl⟩)
  · exact .inl rfl
  · exact .inl rfl
  · split <;> exact .inl rfl
  · exact .inl rfl
  · dsimp only
    split_ifs <;> exact .inl rfl
  · split <;> exact .inl rfl
  · split
    · exact .inl rfl
    · rename_i h
      exact .inl (finaliseRun_items h).task
  · exact .inl rfl
  · exact .inl rfl
  · exact .inl rfl
  · exact .inl rfl
  · exact .inl rfl
  · exact .inl rfl

theorem mainStep_task {k : Worker} (hk : PhaseWf k.tenantId k.phase) :
    TaskWrite w.db (mainStep cfg w k).1.db := by
  rcases mainStep_task_cases cfg w k with h | ⟨_, h⟩ | ⟨wave, x, todo, hp, h⟩
  · exact .keep h
  · exact .recover k.tenantId k.ritmId cfg.stuckTaskRecoveryMinutes (congrArg Db.task h)
  · rw [hp] at hk
    exact .transition (skipWrite k x) (.inl ⟨hk x List.mem_cons_self, .inr rfl⟩)
      (congrArg Db.task h)

theorem workerStep_wf {k : Worker} (hk : PhaseWf k.tenantId k.phase) (inp : WorkerInput) :
    PhaseWf (workerStep cfg inp w k).2.tenantId (workerStep cfg inp w k).2.phase := by
  unfold workerStep
  split
  · exact mainStep_wf hk
  · rename_i i ci wave children h
    rw [h] at hk
    split
    · rw [h]; exact hk
    · rename_i c hc
      intro d hd
      rcases List.mem_or_eq_of_mem_set hd with hd | rfl
      · exact hk d hd
      · exact childStep_wf (hk c (List.mem_of_getElem? hc)) ci
  · exact hk

theorem workerStep_task {k : Worker} (hk : PhaseWf k.tenantId k.phase) (inp : WorkerInput) :
    TaskWrite w.db (workerStep cfg inp w k).1.db := by
  unfold workerStep
  split
  · exact mainStep_task hk
  · rename_i i ci wave children h
    rw [h] at hk
    split
    · exact .keep rfl
    · rename_i c hc
      exact childStep_task (hk c (List.mem_of_getElem? hc)) ci
  · exact .keep rfl

theorem sagaStep_task (r : UndoResult) (db : Db) (k : Saga) :
    (sagaStep cfg r db k).1.task = db.task := by
  unfold sagaStep
  split
  · rfl
  · rfl
  · split <;> rfl
  · split <;> rfl
  · rfl
  · rfl
  · rfl

theorem decisionTransact_task (db : Db) (d : Decision) (a : ApprovalRow) :
    (decisionTransact db d a).1.task = db.task := by
  unfold decisionTransact
  dsimp only
  split
  · rename_i h
    exact congrArg (fun x => x.2.task) h.symm
  · rename_i h
    have h₁ : _ = db.task := congrArg (fun x => x.2.task) h.symm
    dsimp only
    split <;> split <;> exact h₁

theorem decisionStep_task (db : Db) (d : Decision) : (decisionStep db d).1.task = db.task := by
  unfold decisionStep
  split
  · rfl
  · exact decisionTransact_task ..
  · rfl

theorem fulfilStep_inserts (req : FulfillmentRequest) (d : Draw) (db : Db) (p : FulfilPhase) :
    OnlyInserts db (fulfilStep format req d db p).1 := by
  unfold fulfilStep
  split
  · exact .inl rfl
  · split <;> exact .inl rfl
  · split
    · exact .inl rfl
    · split <;> exact .inl rfl
  · split <;> exact .inl rfl
  · split
    · rename_i h
      exact .inl (insertRequestItem_ok h).2.1
    · exact .inl rfl
    · exact .inl rfl
  · exact .inl rfl
  · split
    · rename_i h
      exact .inr ⟨_, rfl, rfl, (insertTask_ok h).1⟩
    · exact .inl rfl
    · exact .inl rfl
  · split
    · exact .inl rfl
    · rename_i h
      exact .inl (insertRun_items h).task
  · exact .inl rfl
  · exact .inl rfl

theorem createStep_inserts (cc : CreateConfig) (a : CreateArgs) (inp : SubmitInput) (db : Db)
    (p : CreatePhase) : OnlyInserts db (createStep format cc a inp db p).1 := by
  unfold createStep
  split
  · split
    · exact .inl rfl
    · split <;> exact .inl rfl
  · split
    · split
      · exact .inl rfl
      · rename_i h
        split <;> exact .inl (insertRequest_some h).2.1.task
    · exact .inl rfl
  · exact .inl rfl
  · exact .inl rfl
  · exact fulfilStep_inserts ..
  · split <;> exact .inl rfl
  · exact .inl rfl
  · exact .inl rfl
  · split
    · exact .inl rfl
    · rename_i h
      exact .inl (insertApprovals_items h).task
  · exact .inl rfl
  · exact .inl rfl
  · exact .inl rfl

theorem procStep_task {p : Proc} (hp : ProcWf p) (inp : Input) :
    TaskWrite w.db (procStep cfg format inp w p).1.db := by
  unfold procStep
  split
  · exact workerStep_task hp _
  · exact .keep (sagaStep_task ..)
  · exact .keep (decisionStep_task ..)
  · exact write_of_inserts (fulfilStep_inserts ..)
  · exact write_of_inserts (createStep_inserts ..)
  · exact .keep rfl
  · exact .keep rfl

theorem procStep_wf {p : Proc} (hp : ProcWf p) (inp : Input) :
    ProcWf (procStep cfg format inp w p).2 := by
  unfold procStep
  split
  · exact workerStep_wf hp _
  · trivial
  · trivial
  · trivial
  · trivial
  · trivial
  · exact hp

theorem entry_wf {p : Proc} (h : Entry p) : ProcWf p := by
  cases h <;> trivial

end Steps

end FulfillmentSystem
