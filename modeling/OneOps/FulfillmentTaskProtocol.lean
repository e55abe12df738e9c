import OneOps.FulfillmentSystem

/-! The protocol of a task row under any number of concurrent calls. Every change of a
row bumps its version by one along an edge of the state graph; a claim is a ticket that
one child holds, and only its holder issues the adapter call. -/
namespace FulfillmentTaskProtocol

open KeyedTable
open ProcessPool
open FulfillmentContracts
open FulfillmentDb
open FulfillmentPlanning
open FulfillmentInspection
open FulfillmentWorker
open FulfillmentSystem

/-- The columns that no UPDATE of the service touches. -/
structure SameTask (r r' : TaskRow) : Prop where
  tenantId : r'.tenantId = r.tenantId
  taskId : r'.taskId = r.taskId
  ritmId : r'.ritmId = r.ritmId
  templateTaskId : r'.templateTaskId = r.templateTaskId
  taskType : r'.taskType = r.taskType
  toolId : r'.toolId = r.toolId
  dependsOn : r'.dependsOn = r.dependsOn
  maxRetries : r'.maxRetries = r.maxRetries

structure Advances (r r' : TaskRow) : Prop where
  same : SameTask r r'
  version : r'.version = r.version + 1
  moves : Moves r.state r'.state

def History : TaskRow → TaskRow → Prop := Relation.ReflTransGen Advances

/-- States without an outgoing edge. `blocked` is one too: no statement leaves it. -/
def Absorbing (s : TaskState) : Prop := s = .done ∨ s = .failed ∨ s = .skipped ∨ s = .blocked

theorem not_absorbing_of_moves {s t : TaskState} (h : Moves s t) : ¬ Absorbing s := by
  unfold Moves Waiting at h
  unfold Absorbing
  rcases h with ⟨h | h, _⟩ | ⟨h, _⟩ <;> simp [h]

theorem History.version_le {r r' : TaskRow} (h : History r r') :
    r' = r ∨ r.version < r'.version := by
  induction h with
  | refl => exact .inl rfl
  | tail _ ha ih =>
    have := ha.version
    rcases ih with rfl | ih <;> right <;> omega

theorem History.absorbed {r r' : TaskRow} (h : History r r') (ha : Absorbing r.state) : r' = r := by
  induction h with
  | refl => rfl
  | tail _ hs ih => exact absurd ha (ih ▸ not_absorbing_of_moves hs.moves)

theorem transition_advances {a : TaskTransition} {r : TaskRow} (now : ℕ)
    (legal : Moves a.fromState a.toState) (h : a.matches r = true) : Advances r (a.set now r) := by
  obtain ⟨_, hs, _⟩ := TaskTransition.matches_iff.mp h
  exact ⟨⟨rfl, rfl, rfl, rfl, rfl, rfl, rfl, rfl⟩, rfl, by rw [hs]; exact legal⟩

theorem recover_advances {tenantId ritmId : String} {minutes now : ℕ} {r : TaskRow}
    (h : stuckTask tenantId ritmId minutes now r = true) : Advances r (recoverTask now r) := by
  simp only [stuckTask, decide_eq_true_eq] at h
  refine ⟨⟨rfl, rfl, rfl, rfl, rfl, rfl, rfl, rfl⟩, rfl, ?_⟩
  exact .inr ⟨h.2.2.1, .inr (.inr (.inr rfl))⟩

/-- Every statement of the service moves a row at most one edge. -/
theorem taskWrite_row {db db' : Db} (h : TaskWrite db db') {k : String × String} {r : TaskRow}
    (hr : db.task.lookup k = some r) :
    ∃ r', db'.task.lookup k = some r' ∧ (r' = r ∨ Advances r r') := by
  cases h with
  | keep h => exact ⟨r, by rw [h]; exact hr, .inl rfl⟩
  | transition a legal h =>
    rw [h, lookup_transitionTask, hr]
    refine ⟨_, rfl, ?_⟩
    dsimp only
    split
    · rename_i hm
      exact .inr (transition_advances _ legal hm)
    · exact .inl rfl
  | recover t m n h =>
    rw [h, lookup_recoverStuck, hr]
    refine ⟨_, rfl, ?_⟩
    dsimp only
    split
    · rename_i hm
      exact .inr (recover_advances hm)
    · exact .inl rfl
  | insert q hs hv h =>
    exact ⟨r, lookup_of_inserts (.inr ⟨q, hs, hv, h⟩) hr, .inl rfl⟩

section Run

variable (cfg : Config) (format : String → JsonObject → Except FormatError String)

def AllWf (s : Service) : Prop := ∀ p ∈ s.procs, ProcWf p

theorem wf_rules : RelyGuarantee (service cfg format) Admissible (fun _ => True)
    (fun w w' => TaskWrite w.db w'.db) (fun _ p => ProcWf p) where
  act := fun _ _ inp _ _ _ _ hp => ⟨procStep_task hp inp, procStep_wf hp inp⟩
  env := fun _ _ _ _ => .keep rfl
  spawn := fun _ p hg _ => entry_wf (hg p rfl)
  stable := fun _ _ _ _ h => h
  refl := fun _ => .keep rfl

theorem next_wf {s : Service} {e : ServiceEvent} (hg : Admissible s e) (hs : AllWf s) :
    AllWf (next (service cfg format) s e) := (wf_rules cfg format).next_holds hg trivial hs

theorem next_taskWrite {s : Service} {e : ServiceEvent} (hg : Admissible s e) (hs : AllWf s) :
    TaskWrite s.shared.db (next (service cfg format) s e).shared.db :=
  (wf_rules cfg format).next_rely hg trivial hs

variable {cfg} {format}

theorem run_wf {s t : Service} (h : Run (service cfg format) Admissible s t) (hs : AllWf s) :
    AllWf t := h.invariant hs fun _ _ => next_wf cfg format

theorem run_row {s t : Service} (h : Run (service cfg format) Admissible s t) (hs : AllWf s)
    {k : String × String} {r : TaskRow} (hr : s.shared.db.task.lookup k = some r) :
    ∃ r', t.shared.db.task.lookup k = some r' ∧ History r r' := by
  induction h with
  | refl => exact ⟨r, hr, .refl⟩
  | tail hrun hstep ih =>
    obtain ⟨e, hg, rfl⟩ := hstep
    obtain ⟨q, hq, hist⟩ := ih
    obtain ⟨r', hr', hadv⟩ := taskWrite_row (next_taskWrite cfg format hg (run_wf hrun hs)) hq
    refine ⟨r', hr', ?_⟩
    rcases hadv with rfl | hadv
    · exact hist
    · exact hist.tail hadv

end Run

/-- The claim a child still acts under. -/
def ticket (tenantId : String) : Child → List Claim
  | .approve task v => [⟨tenantId, task.taskId, v⟩]
  | .dispatch task v => [⟨tenantId, task.taskId, v⟩]
  | .calling task v => [⟨tenantId, task.taskId, v⟩]
  | .settle a => [⟨a.tenantId, a.taskId, a.version⟩]
  | _ => []

/-- The claim of a child that has yet to issue its call. -/
def unissued (tenantId : String) : Child → List Claim
  | .dispatch task v => [⟨tenantId, task.taskId, v⟩]
  | _ => []

def childrenOf : Phase → List Child
  | .running _ children => children
  | _ => []

def heldBy (f : String → Child → List Claim) : Proc → List Claim
  | .execute k => held (f k.tenantId) (childrenOf k.phase)
  | _ => []

def tickets (s : Service) : List Claim := held (heldBy ticket) s.procs

def unissuedTickets (s : Service) : List Claim := held (heldBy unissued) s.procs

theorem childrenOf_report (k : Worker) (ritm : RitmRow) (o : FulfillmentOutcome)
    (run : Option String) (tasks : List TaskRow) (display : String) :
    childrenOf (report k ritm o run tasks display) = [] := by
  unfold report
  split <;> rfl

theorem childrenOf_decideWave (wave : ℕ) (tasks : List TaskRow) :
    childrenOf (decideWave wave tasks) = [] ∨
      childrenOf (decideWave wave tasks) = (readyTasks tasks).map .claim := by
  unfold decideWave
  split
  · exact .inl rfl
  · split_ifs
    · exact .inl rfl
    · exact .inr rfl

section Steps

variable {tenantId : String} {w : World}

/-- A statement of the wave loop keeps the children or replaces them by unclaimed ones. -/
theorem mainStep_children (cfg : Config) (w : World) (k : Worker) :
    childrenOf (mainStep cfg w k).2 = childrenOf k.phase ∨ childrenOf (mainStep cfg w k).2 = [] ∨
      childrenOf (mainStep cfg w k).2 =
        (readyTasks (listTasksForRitm k.tenantId k.ritmId w.db)).map .claim := by
  unfold mainStep
  split
  · exact .inr (.inl rfl)
  · split
    · exact .inr (.inl rfl)
    · dsimp only
      split <;> exact .inr (.inl rfl)
  · exact .inr (.inl rfl)
  · exact .inr (.inl rfl)
  · dsimp only
    split
    · exact .inr (childrenOf_decideWave ..)
    · exact .inr (.inl rfl)
  · exact .inr (.inl rfl)
  · exact .inr (.inl rfl)
  · exact .inr (childrenOf_decideWave ..)
  · rename_i h
    dsimp only
    split
    · unfold nextWave
      split <;> exact .inr (.inl rfl)
    · exact .inl (by rw [h])
  · split
    · exact .inr (.inl rfl)
    · dsimp only
      split <;> exact .inr (.inl rfl)
  · exact .inr (.inl rfl)
  · exact .inr (.inl rfl)
  · split
    · exact .inr (.inl (childrenOf_report ..))
    · exact .inr (.inl rfl)
  · split
    · exact .inr (.inl rfl)
    · exact .inr (.inl (childrenOf_report ..))
  · exact .inr (.inl rfl)
  · exact .inr (.inl rfl)
  · exact .inr (.inl rfl)
  · exact .inr (.inl (childrenOf_report ..))
  · exact .inr (.inl rfl)
  · exact .inr (.inl rfl)

theorem count_held_claims (f : String → Child → List Claim) (hf : ∀ t, f tenantId (.claim t) = [])
    (ts : List TaskRow) (x : Claim) : (held (f tenantId) (ts.map Child.claim)).count x = 0 := by
  have : held (f tenantId) (ts.map Child.claim) = [] := by
    simp [held, List.flatMap_map, hf]
  rw [this]
  rfl

theorem mainStep_logs (cfg : Config) (w : World) (k : Worker) :
    (mainStep cfg w k).1.claims = w.claims ∧ (mainStep cfg w k).1.calls = w.calls ∧
      (mainStep cfg w k).1.effects = w.effects := by
  unfold mainStep
  split
  all_goals first
    | exact ⟨rfl, rfl, rfl⟩
    | split <;> exact ⟨rfl, rfl, rfl⟩

theorem ticket_afterClaim (task : TaskRow) (v : ℕ) :
    ticket tenantId (afterClaim tenantId task v) = [⟨tenantId, task.taskId, v⟩] := by
  unfold afterClaim
  split_ifs <;> rfl

theorem ticket_settleResponse (task : TaskRow) (v : ℕ) (r : AdapterResponse) :
    ticket tenantId (.settle (settleResponse tenantId task v r)) =
      [⟨tenantId, task.taskId, v⟩] := by
  simp [ticket]

/-- How the ghost logs move with the tickets (`t` to `t'`) and the unissued ones (`u` to
`u'`): a new ticket is a new claim, a new call uses up an unissued one. -/
structure Logs (w w' : World) (t t' u u' : List Claim) : Prop where
  tickets : ∀ x, t'.count x + w.claims.count x ≤ t.count x + w'.claims.count x
  issued : ∀ x, (w'.calls.map (·.claim)).count x + u'.count x + w.claims.count x ≤
    (w.calls.map (·.claim)).count x + u.count x + w'.claims.count x
  fresh : w'.claims = w.claims ∨ ∃ x : Claim, w'.claims = w.claims ++ [x] ∧
    (∃ r, w.db.task.lookup (x.tenantId, x.taskId) = some r ∧ r.version < x.version) ∧
    ∃ r, w'.db.task.lookup (x.tenantId, x.taskId) = some r ∧ r.version = x.version

theorem logs_of_same {w' : World} {t t' u u' : List Claim} (hc : w'.claims = w.claims)
    (hcalls : w'.calls = w.calls) (ht : ∀ x, t'.count x ≤ t.count x)
    (hu : ∀ x, u'.count x ≤ u.count x) : Logs w w' t t' u u' := by
  refine ⟨?_, ?_, .inl hc⟩
  · intro x
    have := ht x
    rw [hc]
    omega
  · intro x
    have := hu x
    rw [hc, hcalls]
    omega

/-- One holder moves, the others keep what they hold. -/
theorem Logs.widen {π : Type} {f g : π → List Claim} {w' : World} {p q : π} {ps : List π} {i : ℕ}
    (h : Logs w w' (f p) (f q) (g p) (g q)) (hi : ps[i]? = some p) :
    Logs w w' (held f ps) (held f (ps.set i q)) (held g ps) (held g (ps.set i q)) := by
  refine ⟨?_, ?_, h.fresh⟩
  · intro x
    have h₁ := h.tickets x
    have h₂ := count_held_set f x hi q
    omega
  · intro x
    have h₁ := h.issued x
    have h₂ := count_held_set g x hi q
    omega

def ChildLogs (tenantId : String) (w : World) (c : Child) (w' : World) (c' : Child) : Prop :=
  Logs w w' (ticket tenantId c) (ticket tenantId c') (unissued tenantId c) (unissued tenantId c')

theorem childLogs_of_same {c c' : Child} {w' : World} (hc : w'.claims = w.claims)
    (hcalls : w'.calls = w.calls)
    (ht : ticket tenantId c' = [] ∨ ticket tenantId c' = ticket tenantId c)
    (hu : unissued tenantId c' = [] ∨ unissued tenantId c' = unissued tenantId c) :
    ChildLogs tenantId w c w' c' := by
  refine logs_of_same hc hcalls ?_ ?_
  · intro x
    rcases ht with h | h <;> simp [h]
  · intro x
    rcases hu with h | h <;> simp [h]

theorem childLogs_claim {task : TaskRow} {v : ℕ} {db : Db}
    (h : transitionTaskState (plain tenantId task.taskId task.state .inProgress task.version) w.db =
      (some v, db)) :
    ChildLogs tenantId w (.claim task)
      { w with db := db, claims := w.claims ++ [⟨tenantId, task.taskId, v⟩] }
      (afterClaim tenantId task v) := by
  obtain ⟨hv, r, hr, hs, hver⟩ := transitionTask_some.mp (congrArg Prod.fst h)
  have hhit := lookup_transition_hit hr hs hver
  rw [h] at hhit
  refine ⟨?_, ?_, .inr ⟨_, rfl, ⟨r, hr, ?_⟩, ?_⟩⟩
  · intro x
    rw [ticket_afterClaim]
    simp [ticket, List.count_append]
    omega
  · intro x
    have hle : (unissued tenantId (afterClaim tenantId task v)).count x ≤
        ([⟨tenantId, task.taskId, v⟩] : List Claim).count x := by
      unfold afterClaim
      split_ifs <;> simp [unissued]
    have hclaim : unissued tenantId (.claim task) = [] := rfl
    simp only [List.count_append, hclaim, List.count_nil]
    omega
  · dsimp only
    rw [hver, hv]
    exact Nat.lt_succ_self _
  · exact ⟨_, hhit, by rw [hv, ← hver]; rfl⟩

theorem childStep_logs (cfg : Config) (tenantId ritmId : String) (w : World) (c : Child)
    (inp : ChildInput) :
    ChildLogs tenantId w c (childStep cfg tenantId ritmId inp w c).1
      (childStep cfg tenantId ritmId inp w c).2 := by
  unfold childStep
  split
  · split
    · exact childLogs_of_same rfl rfl (.inl rfl) (.inl rfl)
    · rename_i h
      exact childLogs_claim h
  · split
    · exact childLogs_of_same rfl rfl (.inl rfl) (.inl rfl)
    · exact childLogs_of_same rfl rfl (.inr rfl) (.inl rfl)
  · split
    · refine ⟨?_, ?_, .inl rfl⟩
      · intro x
        exact Nat.le_refl _
      · intro x
        simp only [List.map_append, List.count_append, List.map_cons, List.map_nil, unissued,
          List.count_nil]
        omega
    · exact childLogs_of_same rfl rfl (.inl rfl) (.inl rfl)
  · exact childLogs_of_same rfl rfl (.inr (ticket_settleResponse ..)) (.inl rfl)
  · exact childLogs_of_same rfl rfl (.inr (ticket_settleResponse ..)) (.inl rfl)
  · exact childLogs_of_same rfl rfl (.inl rfl) (.inl rfl)
  · exact childLogs_of_same rfl rfl (.inl rfl) (.inl rfl)
  · exact childLogs_of_same rfl rfl (.inl rfl) (.inl rfl)
  · exact childLogs_of_same rfl rfl (.inl rfl) (.inl rfl)
  · exact childLogs_of_same rfl rfl (.inr rfl) (.inr rfl)

def ProcLogs (w : World) (p : Proc) (w' : World) (p' : Proc) : Prop :=
  Logs w w' (heldBy ticket p) (heldBy ticket p') (heldBy unissued p) (heldBy unissued p')

theorem workerStep_logs (cfg : Config) (w : World) (k : Worker) (inp : WorkerInput) :
    ProcLogs w (.execute k) (workerStep cfg inp w k).1 (.execute (workerStep cfg inp w k).2) := by
  unfold workerStep
  split
  · obtain ⟨hc, hcalls, _⟩ := mainStep_logs cfg w k
    refine logs_of_same hc hcalls ?_ ?_
    all_goals
      intro x
      simp only [heldBy]
      rcases mainStep_children cfg w k with h | h | h
      · rw [h]
      · simp [h, held]
      · rw [h, count_held_claims _ (fun _ => rfl)]
        exact Nat.zero_le _
  · rename_i i ci wave children h
    split
    · exact logs_of_same rfl rfl (fun _ => Nat.le_refl _) (fun _ => Nat.le_refl _)
    · rename_i c hc
      have := (childStep_logs cfg k.tenantId k.ritmId w c ci).widen hc
      simpa only [ProcLogs, heldBy, h, childrenOf] using this
  · exact logs_of_same rfl rfl (fun _ => Nat.le_refl _) (fun _ => Nat.le_refl _)

theorem procStep_logs (cfg : Config)
    (format : String → JsonObject → Except FormatError String) (w : World) (p : Proc)
    (inp : Input) :
    ProcLogs w p (procStep cfg format inp w p).1 (procStep cfg format inp w p).2 := by
  unfold procStep
  split
  · exact workerStep_logs ..
  all_goals
    exact logs_of_same rfl rfl (fun _ => by simp [heldBy]) (fun _ => by simp [heldBy])

end Steps

structure TaskInvariant (s : Service) : Prop where
  wf : AllWf s
  claims_once : ∀ x, s.shared.claims.count x ≤ 1
  claim_row : ∀ x ∈ s.shared.claims,
    ∃ r, s.shared.db.task.lookup (x.tenantId, x.taskId) = some r ∧ x.version ≤ r.version
  tickets_claimed : ∀ x, (tickets s).count x ≤ s.shared.claims.count x
  calls_claimed : ∀ x, (s.shared.calls.map (·.claim)).count x + (unissuedTickets s).count x ≤
    s.shared.claims.count x

theorem initial_taskInvariant {s : Service} (h : Initial s) : TaskInvariant s := by
  refine ⟨?_, ?_, ?_, ?_, ?_⟩
  · simp [AllWf, h.procs]
  · simp [h.claims]
  · simp [h.claims]
  · simp [tickets, held, h.procs]
  · simp [unissuedTickets, held, h.procs, h.calls]

section Invariant

variable {cfg : Config} {format : String → JsonObject → Except FormatError String} {s t : Service}

theorem entry_holds_nothing {p : Proc} (h : Entry p) (f : String → Child → List Claim) :
    heldBy f p = [] := by
  cases h <;> rfl

/-- Rows only move forward, so a claim stays at or below the version of its row. -/
theorem claim_row_forward {db db' : Db} (h : TaskWrite db db') {x : Claim}
    (hx : ∃ r, db.task.lookup (x.tenantId, x.taskId) = some r ∧ x.version ≤ r.version) :
    ∃ r, db'.task.lookup (x.tenantId, x.taskId) = some r ∧ x.version ≤ r.version := by
  obtain ⟨r, hr, hv⟩ := hx
  obtain ⟨r', hr', hadv⟩ := taskWrite_row h hr
  refine ⟨r', hr', ?_⟩
  rcases hadv with rfl | hadv
  · exact hv
  · have := hadv.version
    omega

theorem act_taskInvariant (hs : TaskInvariant s) {i : ℕ} {p : Proc} (hp : s.procs[i]? = some p)
    (inp : Input) : TaskInvariant (next (service cfg format) s (.act i inp)) := by
  have hg : Admissible s (.act i inp) := admissible_act
  have hwf := next_wf cfg format hg hs.wf
  have hrow := next_taskWrite cfg format hg hs.wf
  rw [next_act hp] at hwf hrow ⊢
  have hlog := (procStep_logs cfg format s.shared p inp).widen hp
  -- a claim that the step adds lies above every earlier claim of its row
  have hnew : ∀ x, ((service cfg format).step inp s.shared p).1.claims.count x ≤ 1 := by
    intro x
    have hold := hs.claims_once x
    rcases hlog.fresh with h | ⟨y, h, ⟨r, hr, hlt⟩, _⟩
    · exact (congrArg (List.count x) h).trans_le hold
    · by_cases hxy : x = y
      · subst hxy
        have hnot : x ∉ s.shared.claims := by
          intro hx
          obtain ⟨q, hq, hle⟩ := hs.claim_row x hx
          rw [hr] at hq
          cases hq
          omega
        refine (congrArg (List.count x) h).trans_le ?_
        simp [List.count_append, List.count_eq_zero_of_not_mem hnot]
      · refine (congrArg (List.count x) h).trans_le ?_
        simpa [List.count_append, Ne.symm hxy] using hold
  refine ⟨hwf, hnew, ?_, ?_, ?_⟩
  · intro x hx
    rcases hlog.fresh with h | ⟨y, h, _, ⟨r, hr, hv⟩⟩
    · exact claim_row_forward hrow (hs.claim_row x (h ▸ hx))
    · rcases List.mem_append.mp (h ▸ hx) with hx | hx
      · exact claim_row_forward hrow (hs.claim_row x hx)
      · rw [List.mem_singleton.mp hx]
        exact ⟨r, hr, hv.ge⟩
  · intro x
    have h₁ := hlog.tickets x
    have h₂ := hs.tickets_claimed x
    simp only [tickets] at h₂ ⊢
    exact Nat.le_of_add_le_add_right
      (h₁.trans (by rw [Nat.add_comm]; exact Nat.add_le_add_left h₂ _))
  · intro x
    have h₁ := hlog.issued x
    have h₂ := hs.calls_claimed x
    simp only [unissuedTickets] at h₂ ⊢
    exact Nat.le_of_add_le_add_right
      (h₁.trans (by rw [Nat.add_comm]; exact Nat.add_le_add_left h₂ _))

variable (cfg) (format) in
theorem next_taskInvariant {e : ServiceEvent} (hg : Admissible s e) (hs : TaskInvariant s) :
    TaskInvariant (next (service cfg format) s e) := by
  cases e with
  | spawn p =>
    have hp := hg p rfl
    refine ⟨next_wf cfg format hg hs.wf, hs.claims_once, hs.claim_row, ?_, ?_⟩
    · intro x
      have := hs.tickets_claimed x
      simpa [next, tickets, count_held_append, entry_holds_nothing hp] using this
    · intro x
      have := hs.calls_claimed x
      simpa [next, unissuedTickets, count_held_append, entry_holds_nothing hp] using this
  | env n => exact ⟨hs.wf, hs.claims_once, hs.claim_row, hs.tickets_claimed, hs.calls_claimed⟩
  | act i inp =>
    cases h : s.procs[i]? with
    | none => rw [next_idle h]; exact hs
    | some p => exact act_taskInvariant hs h inp

theorem run_taskInvariant (h : Run (service cfg format) Admissible s t) (hs : TaskInvariant s) :
    TaskInvariant t := h.invariant hs fun _ _ => next_taskInvariant cfg format

end Invariant

def sampleRitm (state : RitmState) (total : ℕ) : RitmRow :=
  { tenantId := "t"
    ritmId := "RITM0000000001"
    requestId := "REQ1"
    catalogItemId := "laptop"
    requestedFor := "ann"
    openedBy := "ann"
    state := state
    approvalState := none
    totalTasks := total
    completedTasks := 0
    failedTasks := 0
    openedAt := 0
    approvedAt := none
    startedAt := none
    fulfilledAt := none
    closedAt := none
    updatedAt := 0
    idempotencyKey := none
    version := 1 }

def sampleTask (name : String) (type : TaskType) (tool : Option String) (deps : List String) :
    TaskRow :=
  { tenantId := "t"
    taskId := "SCTASK-" ++ name
    ritmId := "RITM0000000001"
    requestId := "REQ1"
    templateTaskId := name
    taskName := name
    taskType := type
    toolId := tool
    dependsOn := deps
    assignmentGroup := none
    state := .pending
    retryCount := 0
    maxRetries := 3
    inputPayload := []
    outputPayload := none
    errorMessage := none
    errorCode := none
    slaMinutes := some 60
    readyAt := none
    startedAt := none
    finishedAt := none
    updatedAt := 0
    version := 1 }

def sampleDb (ritm : RitmRow) (tasks : List TaskRow) (hl : ritm.ritmId.length = 14)
    (hk : (tasks.map taskKey).Nodup) (ha : (tasks.filterMap taskAlt).Nodup)
    (hf : ∀ t ∈ tasks, (t.tenantId, t.ritmId) = ritmKey ritm) : Db where
  request := ⟨[⟨ritm.tenantId, ritm.requestId, "laptop request", "requested", "request",
    ritm.catalogItemId, ritm.requestedFor, ritm.openedBy, []⟩], by simp, List.nodup_nil⟩
  requestItem := ⟨[ritm], by simp, by cases h : ritmAlt ritm <;> simp [h]⟩
  task := ⟨tasks, hk, ha⟩
  approval := .empty
  fulfillmentRun := .empty
  catalogItem := .empty
  sysUser := []
  now := 0
  ritm_length := by
    intro r hr
    rw [List.mem_singleton.mp hr]
    exact hl
  ritm_request := by
    intro r hr
    rw [List.mem_singleton.mp hr]
    simp [requestKey]
  task_ritm := by
    intro t ht
    rw [hf t ht]
    simp

def sampleConfig : Config := ⟨fun tool => tool = "order_hardware_asset", 10, "60.0"⟩

def plainFormat (s : String) (_ : JsonObject) : Except FormatError String := .ok s

def quiet (db : Db) : Service := ⟨⟨db, [], [], []⟩, []⟩

theorem quiet_initial (db : Db) : Initial (quiet db) := ⟨rfl, rfl, rfl, rfl⟩

def execute (i : ℕ) : ServiceEvent := .act i (.worker .stmt)

def child (i j : ℕ) (inp : ChildInput) : ServiceEvent := .act i (.worker (.child j inp))

theorem requestedOne_length : (sampleRitm .requested 1).ritmId.length = 14 := by decide

theorem oneTask_keys :
    ([sampleTask "a" .automated (some "order_hardware_asset") []].map taskKey).Nodup := by decide

theorem oneTask_alts :
    ([sampleTask "a" .automated (some "order_hardware_asset") []].filterMap taskAlt).Nodup := by
  decide

def oneOrder : Db :=
  sampleDb (sampleRitm .requested 1) [sampleTask "a" .automated (some "order_hardware_asset") []]
    requestedOne_length oneTask_keys oneTask_alts (by decide)

/-- Two workers race for the one task; both list it before either claims it. -/
def raceForTask : List ServiceEvent :=
  [.spawn (.execute ⟨"t", "RITM0000000001", .readRitm⟩),
    .spawn (.execute ⟨"t", "RITM0000000001", .readRitm⟩),
    execute 0, execute 0, execute 0, execute 0, execute 1, execute 1, execute 1,
    child 0 0 (.stmt ""), child 1 0 (.stmt ""), child 0 0 (.stmt "")]

theorem raceForTask_admits :
    Admits (service sampleConfig plainFormat) Admissible (quiet oneOrder) raceForTask :=
  ⟨admissible_spawn (.execute _ _), admissible_spawn (.execute _ _), admissible_act,
    admissible_act, admissible_act, admissible_act, admissible_act, admissible_act, admissible_act,
    admissible_act, admissible_act, admissible_act, trivial⟩

/-- In every run, from any reachable state on: each statement moves a row at most one edge
and then bumps its version, rows in an absorbing state never change, and for each version
of a task there is at most one claim and at most one adapter call, issued under it. -/
theorem task_row_protocol (cfg : Config)
    (format : String → JsonObject → Except FormatError String) {s₀ s t : Service}
    (h₀ : Initial s₀) (hs : Run (service cfg format) Admissible s₀ s)
    (ht : Run (service cfg format) Admissible s t) :
    (∀ k r, s.shared.db.task.lookup k = some r → ∃ r', t.shared.db.task.lookup k = some r' ∧
      History r r' ∧ (r' = r ∨ r.version < r'.version) ∧ (Absorbing r.state → r' = r)) ∧
    (∀ e, Admissible t e → ∀ k r, t.shared.db.task.lookup k = some r →
      ∃ r', (next (service cfg format) t e).shared.db.task.lookup k = some r' ∧
        (r' = r ∨ Advances r r')) ∧
    t.shared.claims.Nodup ∧ (t.shared.calls.map (·.claim)).Nodup ∧
    ∀ x ∈ t.shared.calls, x.claim ∈ t.shared.claims := by
  have inv := run_taskInvariant (hs.trans ht) (initial_taskInvariant h₀)
  have hwf : AllWf s := (run_taskInvariant hs (initial_taskInvariant h₀)).wf
  have hcalls : ∀ x, (t.shared.calls.map (·.claim)).count x ≤ t.shared.claims.count x := by
    intro x
    have := inv.calls_claimed x
    omega
  refine ⟨?_, ?_, ?_, ?_, ?_⟩
  · intro k r hr
    obtain ⟨r', hr', hist⟩ := run_row ht hwf hr
    exact ⟨r', hr', hist, hist.version_le, hist.absorbed⟩
  · intro e he k r hr
    exact taskWrite_row (next_taskWrite cfg format he inv.wf) hr
  · exact List.nodup_iff_count_le_one.mpr inv.claims_once
  · exact List.nodup_iff_count_le_one.mpr fun x => (hcalls x).trans (inv.claims_once x)
  · intro x hx
    have hpos := List.count_pos_iff.mpr (List.mem_map_of_mem (f := (·.claim)) hx)
    exact List.count_pos_iff.mp (Nat.lt_of_lt_of_le hpos (hcalls _))

theorem task_row_protocol_race :
    (play (service sampleConfig plainFormat) (quiet oneOrder) raceForTask).shared.claims.length =
      1 ∧
    (play (service sampleConfig plainFormat) (quiet oneOrder) raceForTask).shared.calls.length = 1 ∧
    (play (service sampleConfig plainFormat) (quiet oneOrder) raceForTask).shared.claims.Nodup :=
  ⟨by decide, by decide, (task_row_protocol sampleConfig plainFormat (quiet_initial oneOrder) .refl
    (run_play raceForTask raceForTask_admits)).2.2.1⟩

end FulfillmentTaskProtocol
