import Mathlib.Algebra.BigOperators.Group.List.Lemmas
import Mathlib.Algebra.GroupWithZero.Nat
import OneOps.FulfillmentDuplicateGate

/-! The status read of a request item. The writers use the seven states of the column;
the reader parses the column with an enumeration of six. -/
namespace FulfillmentStatusRead

open KeyedTable
open ProcessPool
open FulfillmentContracts
open FulfillmentDb
open FulfillmentPlanning
open FulfillmentInspection
open FulfillmentWorker
open FulfillmentSaga
open FulfillmentApproval
open FulfillmentSubmission
open FulfillmentSystem
open FulfillmentTaskProtocol
open FulfillmentLifecycle
open FulfillmentDuplicateGate

def ritmStateText : RitmState → String
  | .requested => "requested"
  | .approved => "approved"
  | .inProgress => "in_progress"
  | .fulfilled => "fulfilled"
  | .cancelled => "cancelled"
  | .rejected => "rejected"
  | .failed => "failed"

def taskStateText : TaskState → String
  | .pending => "pending"
  | .ready => "ready"
  | .inProgress => "in_progress"
  | .done => "done"
  | .failed => "failed"
  | .skipped => "skipped"
  | .blocked => "blocked"

/-- The members of the enumeration `RitmState` of the contracts. -/
inductive RitmStateMember where
  | requested | approved | inProgress | fulfilled | cancelled | rejected
  deriving DecidableEq, Repr

/-- `RitmState(text)`; `none` is its ValueError. -/
def RitmStateMember.ofText (text : String) : Option RitmStateMember :=
  if text = "requested" then some .requested
  else if text = "approved" then some .approved
  else if text = "in_progress" then some .inProgress
  else if text = "fulfilled" then some .fulfilled
  else if text = "cancelled" then some .cancelled
  else if text = "rejected" then some .rejected
  else none

structure StatusFields where
  tenantId : String
  requestId : String
  ritmId : String
  catalogItemId : String
  state : RitmStateMember
  approvalState : Option ApprovalGateState
  tasksTotal : ℕ
  tasksByState : List (String × ℕ)
  pendingApprovals : List String
  slaDue : Option ℕ
  slaBreached : Bool
  estimatedCompletion : Option ℕ
  openedAt : ℕ
  updatedAt : ℕ
  fulfilledAt : Option ℕ

structure StatusFields.Valid (s : StatusFields) : Prop where
  tenant_id : lengthBetween 1 64 s.tenantId
  request_id : lengthBetween 1 64 s.requestId
  ritm_id : lengthBetween 1 64 s.ritmId
  catalog_item_id : lengthBetween 1 64 s.catalogItemId

instance (s : StatusFields) : Decidable s.Valid :=
  decidable_of_iff
    (lengthBetween 1 64 s.tenantId ∧ lengthBetween 1 64 s.requestId ∧
      lengthBetween 1 64 s.ritmId ∧ lengthBetween 1 64 s.catalogItemId)
    ⟨fun ⟨a, b, c, d⟩ => ⟨a, b, c, d⟩, fun ⟨a, b, c, d⟩ => ⟨a, b, c, d⟩⟩

structure FulfillmentStatus extends StatusFields where
  valid : toStatusFields.Valid

def taskRowsOf (tenantId ritmId : String) (db : Db) : List TaskRow :=
  db.task.rows.filter fun r => r.tenantId = tenantId ∧ r.ritmId = ritmId

def taskBuckets (tenantId ritmId : String) (db : Db) : List (String × ℕ) :=
  let states := (taskRowsOf tenantId ritmId db).map (·.state)
  states.dedup.map fun s => (taskStateText s, states.count s)

/-- The row as the constructor of `FulfillmentStatus` receives it. No statement of the
service writes the three SLA columns, so they hold their defaults. -/
def statusFields (tenantId ritmId : String) (r : RitmRow) (state : RitmStateMember)
    (db₂ db₃ : Db) : StatusFields :=
  { tenantId := tenantId
    requestId := r.requestId
    ritmId := ritmId
    catalogItemId := r.catalogItemId
    state := state
    approvalState := r.approvalState
    tasksTotal := r.totalTasks
    tasksByState := taskBuckets tenantId ritmId db₂
    pendingApprovals := pendingApprovalIds tenantId ritmId db₃
    slaDue := none
    slaBreached := false
    estimatedCompletion := none
    openedAt := r.openedAt
    updatedAt := r.updatedAt
    fulfilledAt := r.fulfilledAt }

def getStatus (tenantId ritmId : String) (db₁ db₂ db₃ : Db) :
    Except FulfillmentError FulfillmentStatus :=
  match getRitm tenantId ritmId db₁ with
  | none => .error ⟨.requestItemNotFound,
      "ritm '" ++ ritmId ++ "' not found for tenant '" ++ tenantId ++ "'"⟩
  | some r =>
    match RitmStateMember.ofText (ritmStateText r.state) with
    | none => .error ⟨.other, "'" ++ ritmStateText r.state ++ "' is not a valid RitmState"⟩
    | some state =>
      if h : (statusFields tenantId ritmId r state db₂ db₃).Valid then
        .ok ⟨statusFields tenantId ritmId r state db₂ db₃, h⟩
      else .error ⟨.validation, "FulfillmentStatus"⟩

/-- Every existing request item can be read, whatever the later statements of the read
find, and the buckets account for the task rows that the second statement saw. -/
def Readable (db : Db) : Prop :=
  ∀ t m r, getRitm t m db = some r → ∀ db₂ db₃, ∃ st, getStatus t m db db₂ db₃ = .ok st ∧
    (st.tasksByState.map (·.2)).sum = (taskRowsOf t m db₂).length

structure IdsBounded (r : RitmRow) : Prop where
  tenant : lengthBetween 1 64 r.tenantId
  request : lengthBetween 1 64 r.requestId
  catalog : lengthBetween 1 64 r.catalogItemId

def RowsSound (db : Db) : Prop :=
  ∀ r ∈ db.requestItem.rows, r.state ≠ .failed ∧ IdsBounded r

theorem ofText_eq_none_iff (s : RitmState) :
    RitmStateMember.ofText (ritmStateText s) = none ↔ s = .failed := by
  cases s <;> decide

theorem sum_taskBuckets (tenantId ritmId : String) (db : Db) :
    ((taskBuckets tenantId ritmId db).map (·.2)).sum = (taskRowsOf tenantId ritmId db).length := by
  simp only [taskBuckets, List.map_map, Function.comp_def]
  rw [List.sum_map_count_dedup_eq_length, List.length_map]

theorem statusFields_valid_iff {t m : String} {db : Db} {r : RitmRow} (h : getRitm t m db = some r)
    (state : RitmStateMember) (db₂ db₃ : Db) :
    (statusFields t m r state db₂ db₃).Valid ↔ IdsBounded r := by
  obtain ⟨hmem, hkey⟩ := Table.lookup_eq_some.mp h
  simp only [ritmKey, Prod.mk.injEq] at hkey
  have hlen : lengthBetween 1 64 m := by
    have := db.ritm_length r hmem
    rw [hkey.2] at this
    simp [lengthBetween, this]
  constructor
  · intro hv
    exact ⟨hkey.1.symm ▸ hv.tenant_id, hv.request_id, hv.catalog_item_id⟩
  · intro hb
    exact ⟨hkey.1 ▸ hb.tenant, hb.request, hlen, hb.catalog⟩

/-- The read of an existing row returns exactly when its state is in the enumeration and
its ids pass the validators. -/
theorem getStatus_ok_iff {t m : String} {db : Db} {r : RitmRow} (h : getRitm t m db = some r)
    (db₂ db₃ : Db) :
    (∃ st, getStatus t m db db₂ db₃ = .ok st) ↔ r.state ≠ .failed ∧ IdsBounded r := by
  simp only [getStatus, h]
  cases hp : RitmStateMember.ofText (ritmStateText r.state) with
  | none =>
    have := (ofText_eq_none_iff r.state).mp hp
    simp [this]
  | some state =>
    have hne : r.state ≠ .failed := by
      intro hf
      rw [(ofText_eq_none_iff r.state).mpr hf] at hp
      cases hp
    dsimp only
    split_ifs with hv
    · have := (statusFields_valid_iff h state db₂ db₃).mp hv
      simp [hne, this]
    · have : ¬ IdsBounded r := fun hb => hv ((statusFields_valid_iff h state db₂ db₃).mpr hb)
      simp [this]

theorem tasksByState_getStatus {t m : String} {db db₂ db₃ : Db} {st : FulfillmentStatus}
    (h : getStatus t m db db₂ db₃ = .ok st) : st.tasksByState = taskBuckets t m db₂ := by
  unfold getStatus at h
  split at h
  · cases h
  · split at h
    · cases h
    · split_ifs at h
      cases h
      rfl

theorem readable_iff (db : Db) : Readable db ↔ RowsSound db := by
  constructor
  · intro h r hr
    have hget : getRitm r.tenantId r.ritmId db = some r := Table.lookup_key hr
    obtain ⟨st, hst, _⟩ := h r.tenantId r.ritmId r hget db db
    exact (getStatus_ok_iff hget db db).mp ⟨st, hst⟩
  · intro h t m r hr db₂ db₃
    obtain ⟨st, hst⟩ := (getStatus_ok_iff hr db₂ db₃).mpr (h r (Table.lookup_eq_some.mp hr).1)
    refine ⟨st, hst, ?_⟩
    rw [tasksByState_getStatus hst, sum_taskBuckets]

def WritesFailed (db : Db) (p : Proc) (inp : Input) : Prop :=
  ∃ k c ritm r, p = .execute k ∧ inp = .worker .stmt ∧ k.phase = .finalWrite c ritm ∧
    (c.outcome = .partialFailure ∨ c.outcome = .failed) ∧
    getRitm k.tenantId k.ritmId db = some r ∧ r.state = ritm.state ∧ r.version = ritm.version

def FailsRitm (s : Service) (e : ServiceEvent) : Prop :=
  ∃ i inp p, e = .act i inp ∧ s.procs[i]? = some p ∧ WritesFailed s.shared.db p inp

theorem ritmStateOf_eq_failed {o : RitmOutcome} :
    ritmStateOf o = .failed ↔ o = .partialFailure ∨ o = .failed := by
  cases o <;> simp [ritmStateOf]

theorem forward_ne_failed {s s' : RitmState} (h : Forward s s') (hs : s ≠ .failed) :
    s' ≠ .failed := by
  cases h with
  | stay => exact hs
  | start => simp
  | approve => simp
  | reject => simp
  | cancel => simp

section Steps

variable {cfg : Config} {format : String → JsonObject → Except FormatError String} {w : World}

theorem mainStep_finalWrite {k : Worker} {c : Closing} {ritm : RitmRow}
    (h : k.phase = .finalWrite c ritm) :
    (mainStep cfg w k).1.db = if ritm.state = ritmStateOf c.outcome then w.db
      else (transitionRitmState (closeWrite k c ritm) w.db).2 := by
  simp only [mainStep, h]
  split_ifs <;> rfl

variable (cfg) in
theorem getRitm_finalWrite {k : Worker} {c : Closing} {ritm r : RitmRow}
    (h : k.phase = .finalWrite c ritm) (hr : getRitm k.tenantId k.ritmId w.db = some r)
    (hs : r.state ≠ .failed) :
    (∃ r', getRitm k.tenantId k.ritmId (mainStep cfg w k).1.db = some r' ∧ r'.state = .failed) ↔
      (c.outcome = .partialFailure ∨ c.outcome = .failed) ∧ r.state = ritm.state ∧
        r.version = ritm.version := by
  rw [mainStep_finalWrite h, ← ritmStateOf_eq_failed]
  have hkey : ritmKey r = (k.tenantId, k.ritmId) := Table.key_of_lookup hr
  split_ifs with heq
  · -- the row was read in the state of the verdict, so nothing is written
    simp only [hr, Option.some.injEq, exists_eq_left', hs, false_iff, not_and]
    intro hf hst _
    exact hs (hst.trans (heq.trans hf))
  · simp only [getRitm_transitionRitm, hr, Option.map_some, Option.some.injEq, exists_eq_left']
    have hmatch : (closeWrite k c ritm).matches r = true ↔
        r.state = ritm.state ∧ r.version = ritm.version := by
      rw [RitmTransition.matches_iff]
      simp [closeWrite, hkey]
    split_ifs with hm
    · simp [RitmTransition.set, closeWrite, hmatch.mp hm]
    · simp [hs, mt hmatch.mpr hm]

/-- An old row stays readable unless the finaliser writes `failed` over it. -/
theorem procStep_old_row {p : Proc} (hp : WriterWf p) {inp : Input} (hf : ¬ WritesFailed w.db p inp)
    {r r' : RitmRow} (hr : getRitm r.tenantId r.ritmId w.db = some r)
    (hr' : getRitm r.tenantId r.ritmId (procStep cfg format inp w p).1.db = some r')
    (hs : r.state ≠ .failed) (hb : IdsBounded r) : r'.state ≠ .failed ∧ IdsBounded r' := by
  have hevolves : RitmEvolves (Finalises p inp) w.db (procStep cfg format inp w p).1.db :=
    procStep_evolves hp inp
  obtain ⟨q, hq, hsame, hmove⟩ := hevolves _ _ _ hr
  cases hr'.symm.trans hq
  refine ⟨?_, hsame.tenantId ▸ hb.tenant, hsame.requestId ▸ hb.request,
    hsame.catalogItemId ▸ hb.catalog⟩
  rcases hmove with hmove | ⟨⟨k, c, ritm, rfl, rfl, hph, ht, hm⟩, _⟩
  · exact forward_ne_failed hmove hs
  · intro hfail
    rw [← ht, ← hm] at hr hr'
    obtain ⟨ho, hst, hv⟩ := (getRitm_finalWrite cfg hph hr hs).mp ⟨r', hr', hfail⟩
    exact hf ⟨k, c, ritm, r, rfl, rfl, hph, ho, hr, hst, hv⟩

theorem newRitm_sound (req : FulfillmentRequest) (plan : FulfillmentPlan) (d : Draw) (now : ℕ) :
    (newRitm req plan d now).state ≠ .failed ∧ IdsBounded (newRitm req plan d now) :=
  ⟨by simp [newRitm], req.valid.tenant_id, req.valid.request_id, req.valid.catalog_item_id⟩

theorem procStep_sound {p : Proc} (hp : WriterWf p) {inp : Input}
    (hf : ¬ WritesFailed w.db p inp) (hs : RowsSound w.db) :
    RowsSound (procStep cfg format inp w p).1.db := by
  have old : ∀ r' ∈ (procStep cfg format inp w p).1.db.requestItem.rows,
      ritmKey r' ∈ w.db.requestItem.rows.map ritmKey → r'.state ≠ .failed ∧ IdsBounded r' := by
    intro r' hr' hk
    obtain ⟨r, hr, hkey⟩ := List.mem_map.mp hk
    simp only [ritmKey, Prod.mk.injEq] at hkey
    have hget : getRitm r.tenantId r.ritmId (procStep cfg format inp w p).1.db = some r' := by
      rw [hkey.1, hkey.2]
      exact Table.lookup_key hr'
    exact procStep_old_row hp hf (Table.lookup_key hr) hget (hs r hr).1 (hs r hr).2
  rcases procStep_ritm_cases cfg format w p inp with hk | ⟨req, q, d, _, name, plan, _, hins⟩
  · intro r' hr'
    exact old r' hr' (hk ▸ List.mem_map_of_mem hr')
  · intro r' hr'
    have hmem := hr'
    rw [(Table.insert_eq_some (insertRequestItem_ok hins).1).1, List.mem_append,
      List.mem_singleton] at hmem
    rcases hmem with hmem | rfl
    · exact old r' hr' (List.mem_map_of_mem hmem)
    · exact newRitm_sound req plan d w.db.now

end Steps

section Runs

variable (cfg : Config) (format : String → JsonObject → Except FormatError String) {s : Service}

/-- From a readable store a step leads to a readable store, unless it writes `failed`. -/
theorem next_readable_iff (hw : AllWriters s) (hs : Readable s.shared.db) (e : ServiceEvent) :
    Readable (next (service cfg format) s e).shared.db ↔ ¬ FailsRitm s e := by
  rw [readable_iff] at hs ⊢
  constructor
  · rintro h ⟨i, inp, p, rfl, hp, k, c, ritm, r, rfl, rfl, hph, ho, hr, hst, hv⟩
    have hne := (hs r (Table.lookup_eq_some.mp hr).1).1
    rw [next_act hp] at h
    obtain ⟨r', hr', hfail⟩ := (getRitm_finalWrite cfg hph hr hne).mpr ⟨ho, hst, hv⟩
    exact (h r' (Table.lookup_eq_some.mp hr').1).1 hfail
  · intro hf
    cases e with
    | spawn p => exact hs
    | env n => exact hs
    | act i inp =>
      cases hp : s.procs[i]? with
      | none => rw [next_idle hp]; exact hs
      | some p =>
        rw [next_act hp]
        refine procStep_sound (hw p (List.mem_of_getElem? hp)) ?_ hs
        exact fun h => hf ⟨i, inp, p, rfl, hp, h⟩

theorem readable_play_iff : ∀ (es : List ServiceEvent) {s : Service}, AllWriters s →
    Admits (service cfg format) Admissible s es →
    ((∀ n, Readable (play (service cfg format) s (es.take n)).shared.db) ↔
      Readable s.shared.db ∧ ∀ n e, es[n]? = some e →
        ¬ FailsRitm (play (service cfg format) s (es.take n)) e) := by
  intro es
  induction es with
  | nil =>
    intro s _ _
    simp [play]
  | cons e es ih =>
    intro s hw ha
    have ih := ih (next_writers cfg format ha.1 hw) ha.2
    constructor
    · intro h
      have h₀ : Readable s.shared.db := h 0
      have htail : ∀ n, Readable (play (service cfg format) (next (service cfg format) s e)
          (es.take n)).shared.db := fun n => h (n + 1)
      refine ⟨h₀, ?_⟩
      rintro (_ | n) x hx
      · cases hx
        exact (next_readable_iff cfg format hw h₀ e).mp (htail 0)
      · exact (ih.mp htail).2 n x hx
    · rintro ⟨h₀, hsteps⟩ (_ | n)
      · exact h₀
      · refine ih.mpr ⟨?_, fun n x hx => hsteps (n + 1) x hx⟩ n
        exact (next_readable_iff cfg format hw h₀ e).mpr (hsteps 0 e rfl)

end Runs

/-- Along every schedule of the service: the status of every request item can be read in
every state reached, with buckets that account for all its task rows, exactly when it can
in the first state and no finaliser writes a failed or partial verdict. -/
theorem status_readable_iff (cfg : Config)
    (format : String → JsonObject → Except FormatError String) {s₀ : Service} (h₀ : Initial s₀)
    {es : List ServiceEvent} (hes : Admits (service cfg format) Admissible s₀ es) :
    (∀ n, Readable (play (service cfg format) s₀ (es.take n)).shared.db) ↔
      Readable s₀.shared.db ∧ ∀ n e, es[n]? = some e →
        ¬ FailsRitm (play (service cfg format) s₀ (es.take n)) e := by
  refine readable_play_iff cfg format es ?_ hes
  intro p hp
  rw [h₀.procs] at hp
  cases hp

def oneSubmission : List ServiceEvent :=
  submit plainOrder :: List.replicate 6 (.act 0 (.fulfil drawA))

theorem oneSubmission_admits : Admits (service sampleConfig plainFormat) Admissible
    (quiet (catalogDb [manualTask "a"])) oneSubmission :=
  ⟨admissible_spawn (.fulfil _), admissible_act, admissible_act, admissible_act, admissible_act,
    admissible_act, admissible_act, trivial⟩

theorem submitted_order_readable :
    ((play (service sampleConfig plainFormat) (quiet (catalogDb [manualTask "a"]))
      oneSubmission).shared.db.requestItem.rows.map (·.ritmId)) = ["RITM00000000A1"] ∧
    ∀ n, Readable (play (service sampleConfig plainFormat) (quiet (catalogDb [manualTask "a"]))
      (oneSubmission.take n)).shared.db := by
  refine ⟨by decide, (status_readable_iff sampleConfig plainFormat (quiet_initial _)
    oneSubmission_admits).mpr ⟨?_, ?_⟩⟩
  · intro t m r hr
    cases hr
  · rintro n e he ⟨i, inp, p, rfl, _, k, c, ritm, r, _, rfl, _⟩
    have hmem := List.mem_of_getElem? he
    simp [oneSubmission, submit] at hmem

def laptopOrder : RawTemplateTask :=
  ⟨some "a", none, some "a", some "automated", none, none, some "order_hardware_asset", none, none⟩

def laptopCatalog : Service := quiet (catalogDb [laptopOrder])

/-- The submitted order is executed, its only task fails, and the finaliser writes the
verdict. -/
def failedOrder : List ServiceEvent :=
  oneSubmission ++ [.spawn (.execute ⟨"t", "RITM00000000A1", .readRitm⟩), execute 1, execute 1,
    execute 1, execute 1, child 1 0 (.stmt ""), child 1 0 (.stmt ""),
    child 1 0 (.result (.answer ⟨false, none, some .permanent, none⟩)), child 1 0 (.stmt ""),
    execute 1, execute 1, execute 1, execute 1]

def failedOrderEnd : Service := play (service sampleConfig plainFormat) laptopCatalog failedOrder

theorem failedOrder_run :
    Run (service sampleConfig plainFormat) Admissible laptopCatalog failedOrderEnd := by
  refine run_play failedOrder (admits_entries _ _ ?_)
  intro p hp
  simp only [failedOrder, oneSubmission, submit, List.cons_append, List.mem_cons, List.mem_append,
    List.mem_replicate, Event.spawn.injEq, execute, child, reduceCtorEq, and_false, false_or,
    or_false, List.not_mem_nil] at hp
  rcases hp with rfl | rfl
  · exact .fulfil plainOrder
  · exact .execute "t" "RITM00000000A1"

theorem failed_order_unreadable :
    Run (service sampleConfig plainFormat) Admissible laptopCatalog failedOrderEnd ∧
    (getRitm "t" "RITM00000000A1" failedOrderEnd.shared.db).isSome = true ∧
    getStatus "t" "RITM00000000A1" failedOrderEnd.shared.db failedOrderEnd.shared.db
      failedOrderEnd.shared.db = .error ⟨.other, "'failed' is not a valid RitmState"⟩ :=
  ⟨failedOrder_run, by decide, rfl⟩

end FulfillmentStatusRead
