import Mathlib.Data.List.Perm.Subperm
import OneOps.FulfillmentTaskProtocol

/-! The retry budget of a task. Two writers count retries: the failure path, under the
version it claimed, and the bulk recovery of orphaned rows, under no guard. A child acts on
the row as the listing showed it; versions tie the two together. -/
namespace FulfillmentRetryBudget

open KeyedTable
open ProcessPool
open FulfillmentContracts
open FulfillmentDb
open FulfillmentPlanning
open FulfillmentInspection
open FulfillmentWorker
open FulfillmentSaga
open FulfillmentApproval
open FulfillmentSubmission
open FulfillmentSystem
open FulfillmentTaskProtocol

def claimsOf (claims : List Claim) (key : String × String) : ℕ :=
  claims.countP fun c => (c.tenantId, c.taskId) = key

/-- The row within its budget, after `n` claims. A waiting row has paid for each of its
claims with a retry, a running one for each but the last. -/
structure RowOk (n : ℕ) (r : TaskRow) : Prop where
  count : r.retryCount ≤ r.maxRetries
  claims : n ≤ max 1 r.maxRetries
  left : Waiting r.state ∨ r.state = .inProgress → r.retryCount < max 1 r.maxRetries
  waiting : Waiting r.state → n ≤ r.retryCount
  running : r.state = .inProgress → n ≤ r.retryCount + 1

/-- What a step may do to a row within its budget; `n` and `n'` count its claims. -/
inductive RowStep (n n' : ℕ) (r r' : TaskRow) : Prop where
  | same (hr : r' = r) (hn : n' = n)
  | claimed (hs : Waiting r.state) (hs' : r'.state = .inProgress)
      (hc : r'.retryCount = r.retryCount) (hm : r'.maxRetries = r.maxRetries) (hn : n' = n + 1)
  | reset (hs : r.state = .inProgress) (hs' : r'.state = .ready)
      (hc : r'.retryCount = r.retryCount + 1) (hm : r'.maxRetries = r.maxRetries) (hn : n' = n)
      (hleft : r.retryCount + 1 < r.maxRetries)
  | ended (hs : Waiting r.state ∨ r.state = .inProgress) (hs' : Absorbing r'.state)
      (hc : r'.retryCount = r.retryCount ∨
        (r'.retryCount = r.retryCount + 1 ∧ 0 < r.maxRetries))
      (hm : r'.maxRetries = r.maxRetries) (hn : n' = n)

theorem not_unfinished {s : TaskState} (h : Absorbing s) :
    ¬ (Waiting s ∨ s = .inProgress) := by
  unfold Absorbing at h
  unfold Waiting
  rcases h with rfl | rfl | rfl | rfl <;> simp

theorem rowOk_fresh {r : TaskRow} (hc : r.retryCount = 0) : RowOk 0 r := by
  refine ⟨by omega, by omega, fun _ => by omega, fun _ => by omega, fun _ => by omega⟩

theorem RowStep.ok {n n' : ℕ} {r r' : TaskRow} (h : RowStep n n' r r') (hr : RowOk n r) :
    RowOk n' r' := by
  cases h with
  | same hr' hn => rw [hr', hn]; exact hr
  | claimed hs hs' hc hm hn =>
    have hleft := hr.left (.inl hs)
    have hused := hr.waiting hs
    refine ⟨by rw [hc, hm]; exact hr.count, ?_, fun _ => by rw [hc, hm]; exact hleft, ?_, ?_⟩
    · rw [hm]
      omega
    · intro hw
      rw [hs'] at hw
      exact absurd hw (by decide)
    · intro _
      omega
  | reset hs hs' hc hm hn hleft =>
    have hused := hr.running hs
    refine ⟨?_, by rw [hm, hn]; exact hr.claims, ?_, ?_, ?_⟩
    · rw [hc, hm]
      omega
    · intro _
      rw [hc, hm]
      omega
    · intro _
      omega
    · intro hi
      rw [hs'] at hi
      cases hi
  | ended hs hs' hc hm hn =>
    have hleft := hr.left hs
    have hdone := not_unfinished hs'
    have hcount := hr.count
    refine ⟨?_, by rw [hm, hn]; exact hr.claims, fun h => absurd h hdone,
      fun h => absurd (.inl h) hdone, fun h => absurd (.inr h) hdone⟩
    rw [hm]
    rcases hc with hc | ⟨hc, hpos⟩
    · omega
    · omega

def Sees (db : Db) (key : String × String) (version retryCount maxRetries : ℕ) : Prop :=
  ∃ r, db.task.lookup key = some r ∧ version ≤ r.version ∧ r.maxRetries = maxRetries ∧
    (r.version = version → r.retryCount = retryCount)

structure Settles (a : TaskTransition) (retryCount maxRetries : ℕ) : Prop where
  retry : a.toState = .ready → a.retryCount = some (retryCount + 1) ∧ retryCount + 1 < maxRetries
  count : ∀ n ∈ a.retryCount, n = retryCount ∨ (n = retryCount + 1 ∧ 0 < maxRetries)

theorem settles_kept {a : TaskTransition} {rc mx : ℕ} (hs : a.toState ≠ .ready)
    (hc : a.retryCount = none ∨ a.retryCount = some rc) : Settles a rc mx := by
  refine ⟨fun h => absurd h hs, fun n hn => .inl ?_⟩
  rcases hc with hc | hc
  · rw [hc] at hn
    cases hn
  · rw [hc] at hn
    cases hn
    rfl

def Tracks (db : Db) (tenantId : String) : Child → Prop
  | .claim task =>
    Sees db (tenantId, task.taskId) task.version task.retryCount task.maxRetries
  | .approve task v => Sees db (tenantId, task.taskId) v task.retryCount task.maxRetries
  | .dispatch task v => Sees db (tenantId, task.taskId) v task.retryCount task.maxRetries
  | .calling task v => Sees db (tenantId, task.taskId) v task.retryCount task.maxRetries
  | .settle a => ∃ rc mx, Sees db (a.tenantId, a.taskId) a.version rc mx ∧ Settles a rc mx
  | _ => True

/-- Versions only grow, so a row seen at a version is unchanged while it has it. -/
theorem Sees.stable {db db' : Db} {key : String × String} {v rc mx : ℕ} (h : Sees db key v rc mx)
    (hw : TaskWrite db db') : Sees db' key v rc mx := by
  obtain ⟨r, hr, hv, hm, hc⟩ := h
  obtain ⟨r', hr', hadv⟩ := taskWrite_row hw hr
  rcases hadv with rfl | hadv
  · exact ⟨r', hr', hv, hm, hc⟩
  · have hver := hadv.version
    refine ⟨r', hr', by omega, hadv.same.maxRetries.trans hm, fun h => ?_⟩
    omega

theorem Tracks.stable {db db' : Db} {tenantId : String} {c : Child} (h : Tracks db tenantId c)
    (hw : TaskWrite db db') : Tracks db' tenantId c := by
  cases c with
  | claim task => exact Sees.stable h hw
  | approve task v => exact Sees.stable h hw
  | dispatch task v => exact Sees.stable h hw
  | calling task v => exact Sees.stable h hw
  | settle a =>
    obtain ⟨rc, mx, hs, hf⟩ := h
    exact ⟨rc, mx, hs.stable hw, hf⟩
  | finished s => trivial
  | raised => trivial

def Fails : CallResult → Prop
  | .answer r => r.success = false
  | .timeout => True
  | .raised _ => False

section Children

variable {cfg : Config} {tenantId ritmId : String} {w : World}

theorem settles_response {task : TaskRow} {v : ℕ} {r : AdapterResponse}
    (h : r.success = false → 0 < task.maxRetries) :
    Settles (settleResponse tenantId task v r) task.retryCount task.maxRetries := by
  unfold settleResponse
  split_ifs with hs
  · exact settles_kept (by simp [leave, plain]) (.inl rfl)
  · have hpos := h (by simpa using hs)
    have hbudget : retryBudget task = task.maxRetries := by
      rw [retryBudget, if_neg (Nat.pos_iff_ne_zero.mp hpos)]
    constructor
    · intro hready
      dsimp only [leave, plain] at hready
      split_ifs at hready with hretry
      exact ⟨rfl, hbudget ▸ hretry.2⟩
    · intro n hn
      cases hn
      exact .inr ⟨rfl, hpos⟩

theorem tracks_afterClaim {db : Db} {task : TaskRow} {v : ℕ}
    (h : Sees db (tenantId, task.taskId) v task.retryCount task.maxRetries) :
    Tracks db tenantId (afterClaim tenantId task v) := by
  unfold afterClaim
  split_ifs
  · exact h
  · exact ⟨_, _, h, settles_kept (by simp [leave, plain]) (.inl rfl)⟩
  · exact ⟨_, _, h, settles_kept (by simp [misconfigured, leave, plain]) (.inr rfl)⟩
  · exact ⟨_, _, h, settles_kept (by simp [leave, plain]) (.inl rfl)⟩
  · exact h

/-- A claim that goes through finds the row as the listing showed it. -/
theorem sees_claimed {task : TaskRow} {v : ℕ} {db' : Db}
    (ht : Sees w.db (tenantId, task.taskId) task.version task.retryCount task.maxRetries)
    (h : transitionTaskState (plain tenantId task.taskId task.state .inProgress task.version) w.db =
      (some v, db')) : Sees db' (tenantId, task.taskId) v task.retryCount task.maxRetries := by
  obtain ⟨hv, r, hr, hs, hver⟩ := transitionTask_some.mp (congrArg Prod.fst h)
  have hhit := lookup_transition_hit hr hs hver
  rw [h] at hhit
  obtain ⟨q, hq, _, hm, hc⟩ := ht
  change w.db.task.lookup (tenantId, task.taskId) = some r at hr
  rw [hr] at hq
  cases hq
  refine ⟨_, hhit, ?_, hm, fun _ => hc hver⟩
  simp only [TaskTransition.set]
  rw [hv, hver]

theorem childStep_tracks {c : Child} (hwf : ChildWf tenantId c) (ht : Tracks w.db tenantId c)
    {inp : ChildInput}
    (ha : ∀ task v res, c = .calling task v → inp = .result res → Fails res →
      0 < task.maxRetries) :
    Tracks (childStep cfg tenantId ritmId inp w c).1.db tenantId
      (childStep cfg tenantId ritmId inp w c).2 := by
  have hwrite : TaskWrite w.db (childStep cfg tenantId ritmId inp w c).1.db :=
    childStep_task hwf inp
  unfold childStep at hwrite ⊢
  split
  · split
    · trivial
    · rename_i h
      exact tracks_afterClaim (sees_claimed ht h)
  · split
    · trivial
    · rename_i db h
      obtain ⟨row, _, hrow⟩ := Option.bind_eq_some_iff.mp h
      refine ⟨_, _, Sees.stable ht (.keep (insertApproval_items hrow).task), ?_⟩
      exact settles_kept (by simp [leave, plain]) (.inl rfl)
  · split
    · exact ht
    · trivial
  · rename_i task v r
    refine ⟨task.retryCount, task.maxRetries, ?_, settles_response (ha task v _ rfl rfl)⟩
    simpa [Tracks] using ht
  · rename_i task v
    refine ⟨task.retryCount, task.maxRetries, ?_, settles_response fun _ => ?_⟩
    · simpa [Tracks] using ht
    · exact ha task v .timeout rfl rfl trivial
  · trivial
  · trivial
  · trivial
  · trivial
  · exact ht

end Children

def RowsStep (w w' : World) : Prop :=
  ∀ k r', w'.db.task.lookup k = some r' → ∃ r, w.db.task.lookup k = some r ∧
    RowStep (claimsOf w.claims k) (claimsOf w'.claims k) r r'

section Rows

variable {cfg : Config} {format : String → JsonObject → Except FormatError String}
  {tenantId ritmId : String} {w w' : World}

theorem rows_of_same (ht : w'.db.task = w.db.task) (hc : w'.claims = w.claims) : RowsStep w w' :=
  fun k r hr => ⟨r, by rw [← ht]; exact hr, .same rfl (by rw [hc])⟩

theorem rows_of_transition {a : TaskTransition}
    (hd : w'.db.task = (transitionTaskState a w.db).2.task)
    (hc : w'.claims = w.claims)
    (h : ∀ k r, w.db.task.lookup k = some r → a.matches r = true → ∀ n,
      RowStep n n r (a.set w.db.now r)) : RowsStep w w' := by
  intro k r' hr'
  rw [hd, lookup_transitionTask] at hr'
  obtain ⟨r, hr, rfl⟩ := Option.map_eq_some_iff.mp hr'
  refine ⟨r, hr, ?_⟩
  rw [hc]
  split
  · rename_i hm
    exact h k r hr hm _
  · exact .same rfl rfl

/-- The new claim is the claim of the row that the UPDATE matched. -/
theorem rows_of_claim {task : TaskRow} {v : ℕ} {db : Db} (hw : Waiting task.state)
    (h : transitionTaskState (plain tenantId task.taskId task.state .inProgress task.version) w.db =
      (some v, db)) :
    RowsStep w { w with db := db, claims := w.claims ++ [⟨tenantId, task.taskId, v⟩] } := by
  obtain ⟨_, q, hq, hs, hver⟩ := transitionTask_some.mp (congrArg Prod.fst h)
  change w.db.task.lookup (tenantId, task.taskId) = some q at hq
  intro k r' hr'
  have hdb : db = (transitionTaskState
      (plain tenantId task.taskId task.state .inProgress task.version) w.db).2 := by rw [h]
  dsimp only at hr' ⊢
  rw [hdb, lookup_transitionTask] at hr'
  obtain ⟨r, hr, rfl⟩ := Option.map_eq_some_iff.mp hr'
  refine ⟨r, hr, ?_⟩
  by_cases hk : (tenantId, task.taskId) = k
  · subst hk
    rw [hr, Option.some.injEq] at hq
    rw [← hq] at hs hver
    have hm : (plain tenantId task.taskId task.state .inProgress task.version).matches r = true :=
      TaskTransition.matches_iff.mpr ⟨Table.key_of_lookup hr, hs, hver⟩
    rw [if_pos hm]
    have hwait : Waiting r.state := by rw [hs]; exact hw
    exact .claimed hwait rfl rfl rfl (by simp [claimsOf, List.countP_append])
  · have hm : ¬ (plain tenantId task.taskId task.state .inProgress task.version).matches r =
        true := by
      intro hm
      exact hk ((TaskTransition.matches_iff.mp hm).1.symm.trans (Table.key_of_lookup hr))
    rw [if_neg hm]
    exact .same rfl (by simp [claimsOf, List.countP_append, hk])

theorem rowStep_settle {a : TaskTransition} (hfrom : a.fromState = .inProgress)
    (hmoves : Moves .inProgress a.toState) {rc mx : ℕ}
    (hsees : Sees w.db (a.tenantId, a.taskId) a.version rc mx) (hset : Settles a rc mx)
    {k : String × String} {r : TaskRow} (hr : w.db.task.lookup k = some r)
    (hm : a.matches r = true) (n : ℕ) : RowStep n n r (a.set w.db.now r) := by
  obtain ⟨hkey, hstate, hver⟩ := TaskTransition.matches_iff.mp hm
  rw [hfrom] at hstate
  obtain ⟨q, hq, _, hmx, hrc⟩ := hsees
  rw [← hkey, Table.key_of_lookup hr, hr] at hq
  cases hq
  have hrc := hrc hver
  by_cases hready : a.toState = .ready
  · obtain ⟨hcount, hleft⟩ := hset.retry hready
    refine .reset hstate hready ?_ rfl rfl (by rw [hrc, hmx]; exact hleft)
    simp [TaskTransition.set, hcount, hrc]
  · have habs : Absorbing a.toState := by
      unfold Moves Waiting at hmoves
      unfold Absorbing
      rcases hmoves with ⟨h | h, _⟩ | ⟨_, h | h | h | h⟩
      · cases h
      · cases h
      · exact .inl h
      · exact .inr (.inl h)
      · exact .inr (.inr (.inr h))
      · exact absurd h hready
    refine .ended (.inr hstate) habs ?_ rfl rfl
    cases hc : a.retryCount with
    | none => exact .inl (by simp [TaskTransition.set, hc])
    | some m =>
      simp only [TaskTransition.set, hc, Option.getD_some]
      rcases hset.count m hc with rfl | ⟨rfl, hpos⟩
      · exact .inl hrc.symm
      · exact .inr ⟨by rw [hrc], hmx ▸ hpos⟩

theorem childStep_rows {c : Child} (hwf : ChildWf tenantId c) (ht : Tracks w.db tenantId c)
    (inp : ChildInput) : RowsStep w (childStep cfg tenantId ritmId inp w c).1 := by
  unfold childStep
  split
  · rename_i task _
    split
    · rename_i db h
      refine rows_of_transition
        (a := plain tenantId task.taskId task.state .inProgress task.version) (by rw [h]) rfl ?_
      intro k r hr hm n
      -- the UPDATE reported no row
      have hsome := transitionTask_some.mpr ⟨rfl, r, by
        rw [← (TaskTransition.matches_iff.mp hm).1, Table.key_of_lookup hr]
        exact hr, (TaskTransition.matches_iff.mp hm).2⟩
      rw [h] at hsome
      cases hsome
    · rename_i h
      exact rows_of_claim hwf h
  · split
    · exact rows_of_same rfl rfl
    · rename_i h
      obtain ⟨row, _, hrow⟩ := Option.bind_eq_some_iff.mp h
      exact rows_of_same (insertApproval_items hrow).task rfl
  · split <;> exact rows_of_same rfl rfl
  · exact rows_of_same rfl rfl
  · exact rows_of_same rfl rfl
  · exact rows_of_same rfl rfl
  · rename_i a _
    obtain ⟨rc, mx, hsees, hset⟩ := ht
    refine rows_of_transition (a := a) rfl rfl fun k r hr hm n => ?_
    exact rowStep_settle hwf.2.1 hwf.2.2 hsees hset hr hm n
  · exact rows_of_same rfl rfl
  · exact rows_of_same rfl rfl
  · exact rows_of_same rfl rfl

theorem mainStep_rows {k : Worker} (hwf : PhaseWf k.tenantId k.phase)
    (hrec : k.phase = .recover → ∀ r ∈ w.db.task.rows,
      stuckTask k.tenantId k.ritmId cfg.stuckTaskRecoveryMinutes w.db.now r = true →
        r.retryCount + 1 < r.maxRetries) : RowsStep w (mainStep cfg w k).1 := by
  have hclaims := (mainStep_logs cfg w k).1
  rcases mainStep_task_cases cfg w k with h | ⟨hph, h⟩ | ⟨wave, x, todo, hph, h⟩
  · exact rows_of_same h hclaims
  · intro key r' hr'
    rw [h, lookup_recoverStuck] at hr'
    obtain ⟨r, hr, rfl⟩ := Option.map_eq_some_iff.mp hr'
    refine ⟨r, hr, ?_⟩
    rw [hclaims]
    split
    · rename_i hst
      have hleft := hrec hph r (Table.lookup_eq_some.mp hr).1 hst
      simp only [stuckTask, decide_eq_true_eq] at hst
      exact .reset hst.2.2.1 rfl rfl rfl rfl hleft
    · exact .same rfl rfl
  · rw [hph] at hwf
    have hwait : Waiting x.2.1 := hwf x List.mem_cons_self
    refine rows_of_transition (a := skipWrite k x) (by rw [h]) hclaims fun key r hr hm n => ?_
    have hstate : r.state = x.2.1 := (TaskTransition.matches_iff.mp hm).2.1
    have hw : Waiting r.state := by rw [hstate]; exact hwait
    exact .ended (.inl hw) (.inr (.inr (.inl rfl))) (.inl rfl) rfl rfl

def InsertsFresh (db db' : Db) : Prop :=
  db'.task = db.task ∨ ∃ r : TaskRow, r.retryCount = 0 ∧ db.task.insert r = some db'.task

theorem fulfilStep_fresh (req : FulfillmentRequest) (d : Draw) (db : Db) (p : FulfilPhase) :
    InsertsFresh db (fulfilStep format req d db p).1 := by
  unfold fulfilStep
  split
  · exact .inl rfl
  · split <;> exact .inl rfl
  · split
    · exact .inl rfl
    · split <;> exact .inl rfl
  · split <;> exact .inl rfl
  · split
    · rename_i h
      exact .inl (insertRequestItem_ok h).2.1
    · exact .inl rfl
    · exact .inl rfl
  · exact .inl rfl
  · split
    · rename_i h
      exact .inr ⟨_, rfl, (insertTask_ok h).1⟩
    · exact .inl rfl
    · exact .inl rfl
  · split
    · exact .inl rfl
    · rename_i h
      exact .inl (insertRun_items h).task
  · exact .inl rfl
  · exact .inl rfl

theorem createStep_fresh (cc : CreateConfig) (a : CreateArgs) (inp : SubmitInput) (db : Db)
    (p : CreatePhase) : InsertsFresh db (createStep format cc a inp db p).1 := by
  unfold createStep
  split
  · split
    · exact .inl rfl
    · split <;> exact .inl rfl
  · split
    · split
      · exact .inl rfl
      · rename_i h
        split <;> exact .inl (insertRequest_some h).2.1.task
    · exact .inl rfl
  · exact .inl rfl
  · exact .inl rfl
  · exact fulfilStep_fresh ..
  · split <;> exact .inl rfl
  · exact .inl rfl
  · exact .inl rfl
  · split
    · exact .inl rfl
    · rename_i h
      exact .inl (insertApprovals_items h).task
  · exact .inl rfl
  · exact .inl rfl
  · exact .inl rfl

end Rows

def ProcTracks (db : Db) : Proc → Prop
  | .execute k => ∀ c ∈ childrenOf k.phase, Tracks db k.tenantId c
  | _ => True

/-- Recovery resets only rows that have a retry left, and no failed call is reported for a
task whose `max_retries` is zero. -/
structure WithinBudget (cfg : Config) (s : Service) (e : ServiceEvent) : Prop where
  admissible : Admissible s e
  recovery : ∀ i k, e = .act i (.worker .stmt) → s.procs[i]? = some (.execute k) →
    k.phase = .recover → ∀ r ∈ s.shared.db.task.rows,
      stuckTask k.tenantId k.ritmId cfg.stuckTaskRecoveryMinutes s.shared.db.now r = true →
        r.retryCount + 1 < r.maxRetries
  answer : ∀ i j res k task v, e = .act i (.worker (.child j (.result res))) →
    s.procs[i]? = some (.execute k) → (childrenOf k.phase)[j]? = some (.calling task v) →
      Fails res → 0 < task.maxRetries

section Service

variable {cfg : Config} {format : String → JsonObject → Except FormatError String} {s : Service}

theorem mainStep_tracks {k : Worker} (hwf : PhaseWf k.tenantId k.phase)
    (ht : ProcTracks s.shared.db (.execute k)) :
    ProcTracks (mainStep cfg s.shared k).1.db
      (.execute ⟨k.tenantId, k.ritmId, (mainStep cfg s.shared k).2⟩) := by
  have hwrite : TaskWrite s.shared.db (mainStep cfg s.shared k).1.db := mainStep_task hwf
  intro c hc
  rcases mainStep_children cfg s.shared k with h | h | h
  · dsimp only at hc
    rw [h] at hc
    exact (ht c hc).stable hwrite
  · dsimp only at hc
    rw [h] at hc
    cases hc
  · dsimp only at hc
    rw [h] at hc
    obtain ⟨task, htask, rfl⟩ := List.mem_map.mp hc
    obtain ⟨hmem, hten, _⟩ := mem_listTasks.mp (mem_readyTasks.mp htask).1
    have hrow : s.shared.db.task.lookup (k.tenantId, task.taskId) = some task := by
      rw [← hten]
      exact Table.lookup_key hmem
    have hsees : Sees s.shared.db (k.tenantId, task.taskId) task.version task.retryCount
        task.maxRetries := ⟨task, hrow, Nat.le_refl _, rfl, fun _ => rfl⟩
    exact hsees.stable hwrite

theorem procStep_tracks {i : ℕ} {p : Proc} {inp : Input} (hg : WithinBudget cfg s (.act i inp))
    (hp : s.procs[i]? = some p) (hwf : ProcWf p) (ht : ProcTracks s.shared.db p) :
    ProcTracks (procStep cfg format inp s.shared p).1.db
      (procStep cfg format inp s.shared p).2 := by
  cases acts cfg format s.shared p inp with
  | main k => exact mainStep_tracks hwf ht
  | child k j ci wave children c hph hc =>
    simp only [procStep, workerStep_child hph hc]
    have hch : childrenOf k.phase = children := by rw [hph]; rfl
    have hcw : ∀ c ∈ children, ChildWf k.tenantId c := by
      rw [ProcWf, hph] at hwf
      exact hwf
    have hmem := List.mem_of_getElem? hc
    have hwrite : TaskWrite s.shared.db
        (childStep cfg k.tenantId k.ritmId ci s.shared c).1.db := childStep_task (hcw c hmem) ci
    intro d hd
    rcases List.mem_or_eq_of_mem_set hd with hd | rfl
    · exact (ht d (by rw [hch]; exact hd)).stable hwrite
    · refine childStep_tracks (hcw c hmem) (ht c (by rw [hch]; exact hmem)) ?_
      rintro task v res rfl rfl hfail
      exact hg.answer i j res k task v rfl hp (by rw [hch]; exact hc) hfail
  | saga k r => trivial
  | decision d => trivial
  | fulfil req q d => trivial
  | create cc a q inp => trivial
  | crash p h => rw [h]; trivial
  | idle p inp h => rw [h]; exact ht

theorem tracks_rules : RelyGuarantee (service cfg format) (WithinBudget cfg) (fun _ => True)
    (fun w w' => TaskWrite w.db w'.db) (fun w p => ProcWf p ∧ ProcTracks w.db p) where
  act := fun _ _ inp _ hg _ hp hl =>
    ⟨procStep_task hl.1 inp, procStep_wf hl.1 inp, procStep_tracks hg hp hl.1 hl.2⟩
  env := fun _ _ _ _ => .keep rfl
  spawn := by
    intro s p hg _
    have he := hg.admissible p rfl
    refine ⟨entry_wf he, ?_⟩
    cases he
    all_goals first
      | trivial
      | intro c hc; cases hc
  stable := by
    intro w w' p hw hl
    refine ⟨hl.1, ?_⟩
    cases p with
    | execute k => exact fun c hc => (hl.2 c hc).stable hw
    | _ => trivial
  refl := fun _ => .keep rfl

variable (format) in
/-- A step keeps every row within its budget, and adds only rows that were never tried. -/
theorem procStep_rows {i : ℕ} {p : Proc} {inp : Input} (hg : WithinBudget cfg s (.act i inp))
    (hp : s.procs[i]? = some p) (hwf : ProcWf p) (ht : ProcTracks s.shared.db p) :
    RowsStep s.shared (procStep cfg format inp s.shared p).1 ∨
      ((procStep cfg format inp s.shared p).1.claims = s.shared.claims ∧
        InsertsFresh s.shared.db (procStep cfg format inp s.shared p).1.db) := by
  cases acts cfg format s.shared p inp with
  | main k => exact .inl (mainStep_rows hwf fun hph => hg.recovery i k rfl hp hph)
  | child k j ci wave children c hph hc =>
    simp only [procStep, workerStep_child hph hc]
    have hmem := List.mem_of_getElem? hc
    rw [ProcWf, hph] at hwf
    exact .inl (childStep_rows (hwf c hmem) (ht c (by rw [hph]; exact hmem)) ci)
  | saga k r => exact .inl (rows_of_same (sagaStep_task r s.shared.db k) rfl)
  | decision d => exact .inl (rows_of_same (decisionStep_task s.shared.db d) rfl)
  | fulfil req q d => exact .inr ⟨rfl, fulfilStep_fresh req d s.shared.db q⟩
  | create cc a q inp => exact .inr ⟨rfl, createStep_fresh cc a inp s.shared.db q⟩
  | crash p h => rw [h]; exact .inl (rows_of_same rfl rfl)
  | idle p inp h => rw [h]; exact .inl (rows_of_same rfl rfl)

def Budgets (s : Service) : Prop :=
  ∀ k r, s.shared.db.task.lookup k = some r → RowOk (claimsOf s.shared.claims k) r

def CallsFit (s : Service) : Prop :=
  ∀ x ∈ s.shared.calls, x.call.tenantId = x.claim.tenantId ∧ x.call.taskId = x.claim.taskId

structure BudgetInvariant (s : Service) : Prop where
  protocol : TaskInvariant s
  tracks : Holds (fun w p => ProcWf p ∧ ProcTracks w.db p) s
  budgets : Budgets s
  fit : CallsFit s

theorem claimsOf_eq_zero (hs : TaskInvariant s) {k : String × String}
    (hk : s.shared.db.task.lookup k = none) : claimsOf s.shared.claims k = 0 := by
  refine List.countP_eq_zero.mpr fun c hc hck => ?_
  obtain ⟨r, hr, _⟩ := hs.claim_row c hc
  rw [decide_eq_true_eq] at hck
  rw [hck, hk] at hr
  cases hr

/-- The rows of the next state are old rows or fresh ones. -/
theorem act_budgets (hs : BudgetInvariant s) {i : ℕ} {inp : Input}
    (hg : WithinBudget cfg s (.act i inp)) {p : Proc} (hp : s.procs[i]? = some p) :
    Budgets (next (service cfg format) s (.act i inp)) := by
  rw [next_act hp]
  have hl := hs.tracks p (List.mem_of_getElem? hp)
  have hwrite : TaskWrite s.shared.db (procStep cfg format inp s.shared p).1.db :=
    procStep_task hl.1 inp
  intro k r' hr'
  change (procStep cfg format inp s.shared p).1.db.task.lookup k = some r' at hr'
  change RowOk (claimsOf (procStep cfg format inp s.shared p).1.claims k) r'
  rcases procStep_rows format hg hp hl.1 hl.2 with hrows | ⟨hclaims, hfresh⟩
  · obtain ⟨r, hr, hstep⟩ := hrows k r' hr'
    exact hstep.ok (hs.budgets k r hr)
  · rw [hclaims]
    rcases hfresh with hsame | ⟨q, hcount, hins⟩
    · rw [hsame] at hr'
      exact hs.budgets k r' hr'
    · rw [Table.lookup_insert hins] at hr'
      split_ifs at hr' with hk
      · cases hr'
        have hnone : s.shared.db.task.lookup k = none := by
          cases hl : s.shared.db.task.lookup k with
          | none => rfl
          | some r =>
            obtain ⟨hmem, hrk⟩ := Table.lookup_eq_some.mp hl
            exact absurd (hk ▸ hrk ▸ List.mem_map_of_mem hmem) (Table.insert_eq_some hins).2.1
        rw [claimsOf_eq_zero hs.protocol hnone]
        exact rowOk_fresh hcount
      · exact hs.budgets k r' hr'

theorem childStep_callsFit (tenantId ritmId : String) (w : World) (c : Child) (inp : ChildInput) :
    ∀ x ∈ (childStep cfg tenantId ritmId inp w c).1.calls, x ∈ w.calls ∨
      (x.call.tenantId = x.claim.tenantId ∧ x.call.taskId = x.claim.taskId) := by
  intro x hx
  unfold childStep at hx
  split at hx
  · split at hx <;> exact .inl hx
  · split at hx <;> exact .inl hx
  · split at hx
    · rcases List.mem_append.mp hx with hx | hx
      · exact .inl hx
      · rw [List.mem_singleton.mp hx]
        exact .inr ⟨rfl, rfl⟩
    · exact .inl hx
  all_goals exact .inl hx

theorem act_callsFit (hs : CallsFit s) {i : ℕ} {p : Proc} (hp : s.procs[i]? = some p)
    (inp : Input) : CallsFit (next (service cfg format) s (.act i inp)) := by
  rw [next_act hp]
  intro x hx
  change x ∈ (procStep cfg format inp s.shared p).1.calls at hx
  cases acts cfg format s.shared p inp with
  | main k =>
    change x ∈ (mainStep cfg s.shared k).1.calls at hx
    rw [(mainStep_logs cfg s.shared k).2.1] at hx
    exact hs x hx
  | child k j ci wave children c hph hc =>
    simp only [procStep, workerStep_child hph hc] at hx
    rcases childStep_callsFit k.tenantId k.ritmId s.shared c ci x hx with hx | hx
    · exact hs x hx
    · exact hx
  | saga k r => exact hs x hx
  | decision d => exact hs x hx
  | fulfil req q d => exact hs x hx
  | create cc a q inp => exact hs x hx
  | crash p h => rw [h] at hx; exact hs x hx
  | idle p inp h => rw [h] at hx; exact hs x hx

variable (format) in
theorem next_budgetInvariant {e : ServiceEvent} (hg : WithinBudget cfg s e)
    (hs : BudgetInvariant s) : BudgetInvariant (next (service cfg format) s e) := by
  refine ⟨next_taskInvariant cfg format hg.admissible hs.protocol,
    tracks_rules.next_holds hg trivial hs.tracks, ?_, ?_⟩
  · cases e with
    | spawn p => exact hs.budgets
    | env n => exact hs.budgets
    | act i inp =>
      cases hp : s.procs[i]? with
      | none => rw [next_idle hp]; exact hs.budgets
      | some p => exact act_budgets hs hg hp
  · cases e with
    | spawn p => exact hs.fit
    | env n => exact hs.fit
    | act i inp =>
      cases hp : s.procs[i]? with
      | none => rw [next_idle hp]; exact hs.fit
      | some p => exact act_callsFit hs.fit hp inp

end Service

def callsOf (calls : List IssuedCall) (key : String × String) : ℕ :=
  calls.countP fun x => (x.call.tenantId, x.call.taskId) = key

theorem callsOf_le_claimsOf {s : Service} (hs : BudgetInvariant s) (k : String × String) :
    callsOf s.shared.calls k ≤ claimsOf s.shared.claims k := by
  have hsub : (s.shared.calls.map (·.claim)).Subperm s.shared.claims := by
    refine List.subperm_iff_count.mpr fun x => ?_
    have := hs.protocol.calls_claimed x
    omega
  calc callsOf s.shared.calls k
      = (s.shared.calls.map (·.claim)).countP fun c => (c.tenantId, c.taskId) = k := by
        rw [callsOf, List.countP_map]
        refine List.countP_congr fun x hx => ?_
        obtain ⟨ht, hid⟩ := hs.fit x hx
        simp [ht, hid]
    _ ≤ claimsOf s.shared.claims k := hsub.countP_le _

/-- Rows as they stand before the run: within their budget, with a retry left unless they
are finished. -/
def StartsWithinBudget (db : Db) : Prop := ∀ r ∈ db.task.rows, RowOk 0 r

theorem initial_budgetInvariant {s : Service} (h₀ : Initial s)
    (hb : StartsWithinBudget s.shared.db) : BudgetInvariant s := by
  refine ⟨initial_taskInvariant h₀, ?_, ?_, ?_⟩
  · intro p hp
    rw [h₀.procs] at hp
    cases hp
  · intro k r hr
    rw [h₀.claims]
    exact hb r (Table.lookup_eq_some.mp hr).1
  · intro x hx
    rw [h₀.calls] at hx
    cases hx

/-- In every run whose recoveries reset only rows with a retry left, and in which no
failed call is reported for a task with `max_retries` zero, every state reached keeps each
task's retry count within its `max_retries` and its adapter calls within the budget. -/
theorem retry_budget_kept (cfg : Config)
    (format : String → JsonObject → Except FormatError String) {s₀ t : Service} (h₀ : Initial s₀)
    (hb : StartsWithinBudget s₀.shared.db)
    (hrun : Run (service cfg format) (WithinBudget cfg) s₀ t) :
    ∀ r ∈ t.shared.db.task.rows, r.retryCount ≤ r.maxRetries ∧
      callsOf t.shared.calls (r.tenantId, r.taskId) ≤ max 1 r.maxRetries := by
  have inv : BudgetInvariant t := hrun.invariant (initial_budgetInvariant h₀ hb)
    fun _ _ => next_budgetInvariant format
  intro r hr
  have hok := inv.budgets (r.tenantId, r.taskId) r (Table.lookup_key hr)
  exact ⟨hok.count, (callsOf_le_claimsOf inv _).trans hok.claims⟩

section Schedule

variable {cfg : Config} {s : Service} {i j : ℕ}

/-- What the next statement of a process may reset has a retry left. -/
def retriesLeft (cfg : Config) (db : Db) : Proc → Bool
  | .execute ⟨t, m, .recover⟩ => db.task.rows.all fun r =>
      !stuckTask t m cfg.stuckTaskRecoveryMinutes db.now r ||
        decide (r.retryCount + 1 < r.maxRetries)
  | _ => true

/-- The task that the process waits for has a retry at all. -/
def hasRetry (j : ℕ) : Proc → Bool
  | .execute k =>
    match (childrenOf k.phase)[j]? with
    | some (.calling task _) => decide (0 < task.maxRetries)
    | _ => true
  | _ => true

theorem withinBudget_spawn {p : Proc} (h : Entry p) : WithinBudget cfg s (.spawn p) := by
  refine ⟨admissible_spawn h, ?_, ?_⟩
  · intro i k he
    cases he
  · intro i j res k task v he
    cases he

theorem withinBudget_env {o : Outside} : WithinBudget cfg s (.env o) := by
  refine ⟨fun p he => (by cases he), ?_, ?_⟩
  · intro i k he
    cases he
  · intro i j res k task v he
    cases he

theorem withinBudget_crash : WithinBudget cfg s (.act i .crash) := by
  refine ⟨admissible_act, ?_, ?_⟩
  · intro i k he
    cases he
  · intro i j res k task v he
    cases he

theorem withinBudget_stmt (h : ∀ p ∈ s.procs[i]?, retriesLeft cfg s.shared.db p = true) :
    WithinBudget cfg s (execute i) := by
  refine ⟨admissible_act, ?_, ?_⟩
  · intro i' k he hp hph r hr hst
    cases he
    have hall := h _ hp
    obtain ⟨t, m, phase⟩ := k
    cases hph
    simpa [hst] using List.all_eq_true.mp hall r hr
  · intro i' j res k task v he
    cases he

theorem withinBudget_write {hex : String} : WithinBudget cfg s (child i j (.stmt hex)) := by
  refine ⟨admissible_act, ?_, ?_⟩
  · intro i' k he
    cases he
  · intro i' j' res k task v he
    cases he

theorem withinBudget_answer {res : CallResult} (h : ∀ p ∈ s.procs[i]?, hasRetry j p = true) :
    WithinBudget cfg s (child i j (.result res)) := by
  refine ⟨admissible_act, ?_, ?_⟩
  · intro i' k he
    cases he
  · intro i' j' res' k task v he hp hc _
    cases he
    have hr := h _ hp
    simp only [hasRetry, hc] at hr
    exact of_decide_eq_true hr

end Schedule

def orphanedCall (i : ℕ) (start : List ServiceEvent) : List ServiceEvent :=
  .spawn (.execute ⟨"t", "RITM0000000001", .readRitm⟩) :: start ++
    [execute i, execute i, execute i, child i 0 (.stmt ""), child i 0 (.stmt "")]

/-- The worker dies in its call. -/
def orphanedBy (i : ℕ) (start : List ServiceEvent) : List ServiceEvent :=
  orphanedCall i start ++ [.act i .crash]

/-- The first worker dies in its call and the row is recovered; the second call answers with a
transient error, the third one succeeds. -/
def retriedOrder : List ServiceEvent :=
  orphanedBy 0 [execute 0] ++ .env ⟨601, none⟩ :: orphanedCall 1 [] ++
    [child 1 0 (.result (.answer ⟨false, none, some .transient, none⟩)), child 1 0 (.stmt ""),
      execute 1, execute 1, child 1 0 (.stmt ""), child 1 0 (.stmt ""),
      child 1 0 (.result (.answer ⟨true, none, none, none⟩)), child 1 0 (.stmt "")]

theorem retriedOrder_admits : Admits (service sampleConfig plainFormat)
    (WithinBudget sampleConfig) (quiet oneOrder) retriedOrder := by
  refine ⟨withinBudget_spawn (.execute _ _), ?_, ?_, ?_, ?_, withinBudget_write, withinBudget_write,
    withinBudget_crash, withinBudget_env, withinBudget_spawn (.execute _ _), ?_, ?_, ?_,
    withinBudget_write, withinBudget_write, withinBudget_answer (by decide), withinBudget_write,
    ?_, ?_, withinBudget_write, withinBudget_write, withinBudget_answer (by decide),
    withinBudget_write, trivial⟩
  all_goals exact withinBudget_stmt (by decide)

theorem retriedOrder_within_budget :
    (play (service sampleConfig plainFormat) (quiet oneOrder) retriedOrder).shared.db.task.rows.map
      (fun r => (r.state, r.retryCount)) = [(.done, 2)] ∧
    callsOf (play (service sampleConfig plainFormat) (quiet oneOrder) retriedOrder).shared.calls
      ("t", "SCTASK-a") = 3 ∧
    ∀ r ∈ (play (service sampleConfig plainFormat) (quiet oneOrder)
        retriedOrder).shared.db.task.rows,
      r.retryCount ≤ r.maxRetries ∧
      callsOf (play (service sampleConfig plainFormat) (quiet oneOrder) retriedOrder).shared.calls
        (r.tenantId, r.taskId) ≤ max 1 r.maxRetries := by
  refine ⟨by decide, by decide, retry_budget_kept sampleConfig plainFormat (quiet_initial oneOrder)
    ?_ (run_play retriedOrder retriedOrder_admits)⟩
  intro r hr
  rw [List.mem_singleton.mp hr]
  exact rowOk_fresh rfl

def orphanedAgain : List ServiceEvent :=
  orphanedBy 0 [execute 0] ++
    .env ⟨601, none⟩ :: (orphanedBy 1 [] ++ orphanedBy 2 [] ++ orphanedBy 3 [] ++ orphanedBy 4 [])

def orphanedEnd : Service := play (service sampleConfig plainFormat) (quiet oneOrder) orphanedAgain

theorem orphan_recovery_exceeds_budget :
    Run (service sampleConfig plainFormat) Admissible (quiet oneOrder) orphanedEnd ∧
    orphanedEnd.shared.db.task.rows.map (fun r => (r.retryCount, r.maxRetries)) = [(4, 3)] ∧
    callsOf orphanedEnd.shared.calls ("t", "SCTASK-a") = 5 := by
  refine ⟨run_play orphanedAgain (admits_entries _ _ ?_), by decide, by decide⟩
  intro p hp
  simp only [orphanedAgain, orphanedBy, orphanedCall, execute, child, List.cons_append,
    List.nil_append,
    List.mem_cons, Event.spawn.injEq, reduceCtorEq, or_false, false_or, or_self,
    List.not_mem_nil] at hp
  rw [hp]
  exact .execute "t" "RITM0000000001"

end FulfillmentRetryBudget
