import OneOps.FulfillmentAtomicity
import Mathlib.Algebra.GroupWithZero.Nat

/-! Which submissions are whole when they stop. The reads before the first INSERT, the ids
that are drawn and the unique keys of the store decide what a call has written after any
number of statements; from these alone it is said whether the call left a gap. -/
namespace FulfillmentCreation

open KeyedTable
open FulfillmentContracts
open FulfillmentDb
open FulfillmentPlanning
open FulfillmentSubmission
open FulfillmentTaskProtocol
open FulfillmentDuplicateGate
open FulfillmentAtomicity

/-- The offers that two unique columns admit, one after the other. -/
def admitted (ids templates : List String) : List (String × String) → List (String × String)
  | [] => []
  | o :: rest =>
    if o.1 ∈ ids ∨ o.2 ∈ templates then admitted ids templates rest
    else o :: admitted (ids ++ [o.1]) (templates ++ [o.2]) rest

theorem admitted_length_le (offers : List (String × String)) :
    ∀ ids templates, (admitted ids templates offers).length ≤ offers.length := by
  induction offers with
  | nil => exact fun _ _ => Nat.le_refl _
  | cons o offers ih =>
    intro ids templates
    unfold admitted
    split_ifs
    · exact (ih _ _).trans (Nat.le_succ _)
    · exact Nat.succ_le_succ (ih _ _)

theorem admitted_all_iff (offers : List (String × String)) : ∀ ids templates,
    (admitted ids templates offers).length = offers.length ↔
      ((offers.map Prod.fst).Nodup ∧ ∀ o ∈ offers, o.1 ∉ ids) ∧
        (offers.map Prod.snd).Nodup ∧ ∀ o ∈ offers, o.2 ∉ templates := by
  induction offers with
  | nil => simp [admitted]
  | cons o offers ih =>
    intro ids templates
    have hlen := admitted_length_le offers ids templates
    unfold admitted
    split_ifs with h
    · refine ⟨fun hl => ?_, fun hall => ?_⟩
      · rw [List.length_cons] at hl
        omega
      · rcases h with h | h
        · exact absurd h (hall.1.2 o List.mem_cons_self)
        · exact absurd h (hall.2.2 o List.mem_cons_self)
    · rw [not_or] at h
      rw [List.length_cons, List.length_cons, Nat.add_right_cancel_iff, ih]
      simp only [List.map_cons, List.nodup_cons, List.mem_map, List.mem_append, List.mem_cons,
        List.not_mem_nil, or_false, forall_eq_or_imp, not_or]
      constructor
      · rintro ⟨⟨hid, hids⟩, htpl, htpls⟩
        refine ⟨⟨⟨?_, hid⟩, h.1, fun p hp => (hids p hp).1⟩, ⟨?_, htpl⟩, h.2,
          fun p hp => (htpls p hp).1⟩
        · rintro ⟨p, hp, he⟩
          exact (hids p hp).2 he
        · rintro ⟨p, hp, he⟩
          exact (htpls p hp).2 he
      · rintro ⟨⟨⟨hfst, hid⟩, _, hids⟩, ⟨hsnd, htpl⟩, _, htpls⟩
        exact ⟨⟨hid, fun p hp => ⟨hids p hp, fun he => hfst ⟨p, hp, he⟩⟩⟩, htpl,
          fun p hp => ⟨htpls p hp, fun he => hsnd ⟨p, hp, he⟩⟩⟩

def taskIds (t : String) (db : Db) : List String :=
  (db.task.rows.filter (·.tenantId = t)).map (·.taskId)

def templatesOf (t m : String) (db : Db) : List String :=
  (db.task.rows.filter fun r => r.tenantId = t ∧ r.ritmId = m).map (·.templateTaskId)

def offers (todo : List TaskPlanItem) (xs : List (ℕ × Draw)) : List (String × String) :=
  (todo.zip xs).map fun p => ("SCTASK" ++ p.2.2.hex10, p.1.templateTaskId)

def clockAt (n : ℕ) (seconds : List ℕ) (db : Db) : Db := elapse (seconds.take n).sum db

section Wanted

variable (format : String → JsonObject → Except FormatError String)

def planOf (req : FulfillmentRequest) (db : Db) : Option FulfillmentPlan :=
  match findOpenDuplicate req.tenantId req.requestedFor req.catalogItemId duplicateLookbackDays
      db with
  | some _ => none
  | none =>
    match loadCatalogTemplate req.tenantId req.catalogItemId db with
    | .error _ => none
    | .ok template =>
      match materialisePlanFromTemplate format template req.requestVariables with
      | .error _ => none
      | .ok plan => some plan

end Wanted

def resumed (req : FulfillmentRequest) (db : Db) : Option String :=
  if keyGiven req then findRitmByKey req.tenantId (req.idempotencyKey.getD "") db else none

def itemAt (req : FulfillmentRequest) : ℕ := if keyGiven req then 4 else 3

def ItemFree (req : FulfillmentRequest) (d : Draw) (db : Db) : Prop :=
  (req.tenantId, ritmIdOf d) ∉ db.requestItem.rows.map ritmKey ∧
    ∀ k ∈ req.idempotencyKey, (req.tenantId, k) ∉ db.requestItem.rows.filterMap ritmAlt

instance (req : FulfillmentRequest) (d : Draw) (db : Db) : Decidable (ItemFree req d db) :=
  inferInstanceAs (Decidable (_ ∧ ∀ k ∈ req.idempotencyKey, _))

def runTaken (t : String) (d : Draw) (db : Db) : Prop :=
  (t, "RUN" ++ d.hex14) ∈ db.fulfillmentRun.rows.map runKey

instance (t : String) (d : Draw) (db : Db) : Decidable (runTaken t d db) :=
  inferInstanceAs (Decidable (_ ∈ _))

/-- The statements after the RITM insert insert every task of the plan. -/
structure TasksPlaced (t : String) (db : Db) (plan : FulfillmentPlan) (xs : List (ℕ × Draw)) :
    Prop where
  reached : plan.tasks.length ≤ xs.length
  templates : (plan.tasks.map (·.templateTaskId)).Nodup
  ids : ((xs.take plan.tasks.length).map fun x => "SCTASK" ++ x.2.hex10).Nodup
  fresh : ∀ x ∈ xs.take plan.tasks.length, "SCTASK" ++ x.2.hex10 ∉ taskIds t db

/-- Onto a request item that was already filed: no INSERT adds a row, or the tasks it has and
those that are new are as many as it counts. -/
def Resumes (t m : String) (db : Db) (plan : FulfillmentPlan) (xs : List (ℕ × Draw)) : Prop :=
  (admitted (taskIds t db) (templatesOf t m db) (offers plan.tasks xs) = [] ∧
    ∀ x, xs[plan.tasks.length + 1]? = some x → runTaken t x.2 db) ∨
  ∃ r, getRitm t m db = some r ∧ taskCount t m db +
    (admitted (taskIds t db) (templatesOf t m db) (offers plan.tasks xs)).length = r.totalTasks

section Store

variable {req : FulfillmentRequest} {m : String} {db : Db}

/-- Among ids of one length the text `ritm:template` names both. -/
theorem taskIdempotencyKey_eq {m : String} {r q : TaskRow} (hr : r.ritmId.length = m.length)
    (hq : q.ritmId = m) (h : taskIdempotencyKey r = taskIdempotencyKey q) :
    r.ritmId = m ∧ r.templateTaskId = q.templateTaskId := by
  have htext := congrArg String.toList h
  simp only [taskIdempotencyKey, hq, String.toList_append, List.append_assoc] at htext
  obtain ⟨hm, hrest⟩ := List.append_inj htext (by simpa [String.length_toList] using hr)
  exact ⟨String.toList_injective hm, String.toList_injective (by simpa using hrest)⟩

theorem mem_taskIds {t id : String} : id ∈ taskIds t db ↔ (t, id) ∈ db.task.rows.map taskKey := by
  simp only [taskIds, taskKey, List.mem_map, List.mem_filter, decide_eq_true_eq, Prod.mk.injEq]
  constructor
  · rintro ⟨r, ⟨hr, ht⟩, hid⟩
    exact ⟨r, hr, ht, hid⟩
  · rintro ⟨r, hr, ht, hid⟩
    exact ⟨r, ⟨hr, ht⟩, hid⟩

theorem ritm_length_of_mem {t : String} (hm : (t, m) ∈ db.requestItem.rows.map ritmKey) :
    m.length = 14 := by
  obtain ⟨r, hr, hk⟩ := List.mem_map.mp hm
  cases hk
  exact db.ritm_length r hr

theorem insertTask_newTask (db : Db) (hm : (req.tenantId, m) ∈ db.requestItem.rows.map ritmKey)
    (x : TaskPlanItem) (d : Draw) (now : ℕ) :
    (insertTask (newTask req m x d now) db = .uniqueViolation ∧
      ("SCTASK" ++ d.hex10 ∈ taskIds req.tenantId db ∨
        x.templateTaskId ∈ templatesOf req.tenantId m db)) ∨
    ∃ db', insertTask (newTask req m x d now) db = .ok db' ∧
      "SCTASK" ++ d.hex10 ∉ taskIds req.tenantId db ∧
      x.templateTaskId ∉ templatesOf req.tenantId m db ∧
      db'.requestItem = db.requestItem ∧ db'.fulfillmentRun = db.fulfillmentRun ∧
      taskIds req.tenantId db' = taskIds req.tenantId db ++ ["SCTASK" ++ d.hex10] ∧
      templatesOf req.tenantId m db' = templatesOf req.tenantId m db ++ [x.templateTaskId] := by
  have halt : (∃ v ∈ taskAlt (newTask req m x d now), v ∈ db.task.rows.filterMap taskAlt) ↔
      x.templateTaskId ∈ templatesOf req.tenantId m db := by
    simp only [taskAlt, Option.mem_some_iff, exists_eq_left', List.mem_filterMap, Option.some.injEq,
      Prod.mk.injEq, templatesOf, List.mem_map, List.mem_filter, decide_eq_true_eq]
    constructor
    · rintro ⟨r, hr, ht, hkey⟩
      have hlen := (ritm_length_of_mem (db.task_ritm r hr)).trans (ritm_length_of_mem hm).symm
      obtain ⟨hritm, htpl⟩ := taskIdempotencyKey_eq hlen rfl hkey
      exact ⟨r, ⟨hr, ht, hritm⟩, htpl⟩
    · rintro ⟨r, ⟨hr, ht, hritm⟩, htpl⟩
      exact ⟨r, hr, ht, by simp [taskIdempotencyKey, newTask, hritm, htpl]⟩
  cases h : insertTask (newTask req m x d now) db with
  | foreignKeyViolation => exact absurd hm (insertTask_orphan h)
  | uniqueViolation =>
    exact .inl ⟨rfl, (Table.insert_eq_none (insertTask_refused h)).imp mem_taskIds.mpr halt.mp⟩
  | ok db' =>
    obtain ⟨hins, hitem, _⟩ := insertTask_ok h
    obtain ⟨hrows, hkey, hfree⟩ := Table.insert_eq_some hins
    have hruns := insertTask_runs h
    refine .inr ⟨db', rfl, fun h => hkey (mem_taskIds.mp h), fun h => ?_, hitem, hruns, ?_, ?_⟩
    · obtain ⟨v, hv, hmem⟩ := halt.mpr h
      exact hfree v hv hmem
    · simp [taskIds, hrows, newTask]
    · simp [templatesOf, hrows, newTask]

theorem insertRitm_newRitm (db : Db)
    (hq : (req.tenantId, req.requestId) ∈ db.request.rows.map requestKey)
    (plan : FulfillmentPlan) (d : Draw) (now : ℕ) :
    (insertRequestItem (newRitm req plan d now) (ritmIdOf_length d) db = .uniqueViolation ∧
      ¬ ItemFree req d db) ∨
    ∃ db', insertRequestItem (newRitm req plan d now) (ritmIdOf_length d) db = .ok db' ∧
      ItemFree req d db ∧ db'.task = db.task ∧ db'.fulfillmentRun = db.fulfillmentRun ∧
      (req.tenantId, ritmIdOf d) ∈ db'.requestItem.rows.map ritmKey := by
  have halt : (∃ v ∈ ritmAlt (newRitm req plan d now), v ∈ db.requestItem.rows.filterMap ritmAlt) ↔
      ∃ k ∈ req.idempotencyKey, (req.tenantId, k) ∈ db.requestItem.rows.filterMap ritmAlt := by
    simp only [ritmAlt, newRitm, Option.mem_def, Option.map_eq_some_iff]
    constructor
    · rintro ⟨_, ⟨k, hk, rfl⟩, hmem⟩
      exact ⟨k, hk, hmem⟩
    · rintro ⟨k, hk, hmem⟩
      exact ⟨_, ⟨k, hk, rfl⟩, hmem⟩
  cases h : insertRequestItem (newRitm req plan d now) (ritmIdOf_length d) db with
  | foreignKeyViolation => exact absurd hq (insertRequestItem_orphan h)
  | uniqueViolation =>
    refine .inl ⟨rfl, fun hfree => ?_⟩
    rcases Table.insert_eq_none (insertRequestItem_refused h) with hk | hk
    · exact hfree.1 hk
    · obtain ⟨k, hk, hmem⟩ := halt.mp hk
      exact hfree.2 k hk hmem
  | ok db' =>
    obtain ⟨hins, htask, _⟩ := insertRequestItem_ok h
    obtain ⟨hrows, hkey, hfree⟩ := Table.insert_eq_some hins
    refine .inr ⟨db', rfl, ⟨hkey, fun k hk hmem => ?_⟩, htask, insertRequestItem_runs h, ?_⟩
    · obtain ⟨v, hv, hin⟩ := halt.mpr ⟨k, hk, hmem⟩
      exact hfree v hv hin
    · rw [hrows]
      exact List.mem_map_of_mem (List.mem_append_right _ (List.mem_singleton_self _))

end Store

def taskLog (t m : String) (db : Db) (todo : List TaskPlanItem) (xs : List (ℕ × Draw)) :
    List Commit :=
  (admitted (taskIds t db) (templatesOf t m db) (offers todo xs)).map fun o => .task o.1 m

def runLog (t m : String) (db : Db) (n : ℕ) (xs : List (ℕ × Draw)) : List Commit :=
  match xs[n + 1]? with
  | none => []
  | some x => if runTaken t x.2 db then [] else [.run ("RUN" ++ x.2.hex14) m]

section Log

variable (format : String → JsonObject → Except FormatError String) {req : FulfillmentRequest}
  {db : Db}

def Settled (q : FulfilPhase) : Prop := (∃ o, q = .returned o) ∨ ∃ e, q = .raised e

theorem settled_log (xs : List (ℕ × Draw)) : ∀ {c : Call FulfilPhase}, Settled c.phase →
    (xs.foldl (fulfilNext format req) c).log = c.log := by
  induction xs with
  | nil => exact fun _ => rfl
  | cons x xs ih =>
    rintro ⟨db, q, log⟩ hq
    rcases hq with ⟨o, rfl⟩ | ⟨e, rfl⟩
    · exact (ih (.inl ⟨o, rfl⟩)).trans (List.append_nil _)
    · exact (ih (.inr ⟨e, rfl⟩)).trans (List.append_nil _)

theorem runInsert_log (name m : String) (n : ℕ) (last : ℕ × Draw) (xs : List (ℕ × Draw)) (db : Db)
    (log : List Commit) :
    (xs.foldl (fulfilNext format req) ⟨db, .insertRun name m n, log⟩).log =
      log ++ runLog req.tenantId m db 0 (last :: xs) := by
  cases xs with
  | nil => simp [runLog]
  | cons x xs =>
    rw [List.foldl_cons, settled_log]
    · simp only [fulfilNext, fulfilCommit, runLog, List.getElem?_cons_succ, List.getElem?_cons_zero]
      cases h : insertFulfillmentRun (newRun req m x.2 (elapse x.1 db).now) (elapse x.1 db) with
      | none =>
        have htaken : runTaken req.tenantId x.2 db := by
          rw [insertFulfillmentRun, Option.map_eq_none_iff] at h
          refine (Table.insert_eq_none h).resolve_right ?_
          rintro ⟨v, hv, _⟩
          cases hv
        simp [htaken]
      | some db' =>
        have hfree : ¬ runTaken req.tenantId x.2 db := by
          obtain ⟨u, hu, _⟩ := Option.map_eq_some_iff.mp h
          exact (Table.insert_eq_some hu).2.1
        simp [hfree]
    · simp only [fulfilNext, fulfilStep]
      split
      · exact .inr ⟨_, rfl⟩
      · exact .inl ⟨_, rfl⟩

/-- What the task loop and the run insert commit, from any store that holds the RITM. -/
theorem taskInserts_log (name m : String) (todo : List TaskPlanItem) :
    ∀ (n : ℕ) (xs : List (ℕ × Draw)) (db : Db) (log : List Commit),
      (req.tenantId, m) ∈ db.requestItem.rows.map ritmKey →
      (xs.foldl (fulfilNext format req) ⟨db, .insertTasks name m todo n, log⟩).log =
        log ++ (taskLog req.tenantId m db todo xs ++ runLog req.tenantId m db todo.length xs) := by
  induction todo with
  | nil =>
    intro n xs db log _
    cases xs with
    | nil => simp [taskLog, offers, admitted, runLog]
    | cons x xs =>
      rw [List.foldl_cons]
      exact (runInsert_log format name m n x xs (elapse x.1 db) (log ++ [])).trans
        (by simp [taskLog, offers, admitted, runLog, runTaken, elapse])
  | cons t todo ih =>
    intro n xs db log hm
    cases xs with
    | nil => simp [taskLog, offers, admitted, runLog]
    | cons x xs =>
      have hoffers : offers (t :: todo) (x :: xs) =
          ("SCTASK" ++ x.2.hex10, t.templateTaskId) :: offers todo xs := rfl
      have hrun : runLog req.tenantId m db (t :: todo).length (x :: xs) =
          runLog req.tenantId m db todo.length xs := rfl
      rw [List.foldl_cons, hrun, taskLog, hoffers]
      rcases insertTask_newTask (elapse x.1 db) hm t x.2 (elapse x.1 db).now with
        ⟨h, hclash⟩ | ⟨db', h, hid, htpl, hitem, hruns, hids, htpls⟩
      · have hstep : fulfilNext format req ⟨db, .insertTasks name m (t :: todo) n, log⟩ x =
            ⟨elapse x.1 db, .insertTasks name m todo n, log⟩ := by
          simp [fulfilNext, fulfilStep, fulfilCommit, h]
        have hadm : admitted (taskIds req.tenantId db) (templatesOf req.tenantId m db)
            (("SCTASK" ++ x.2.hex10, t.templateTaskId) :: offers todo xs) = _ := if_pos hclash
        rw [hstep, hadm]
        exact ih n xs (elapse x.1 db) log hm
      · have hstep : fulfilNext format req ⟨db, .insertTasks name m (t :: todo) n, log⟩ x =
            ⟨db', .insertTasks name m todo (n + 1), log ++ [.task ("SCTASK" ++ x.2.hex10) m]⟩ := by
          simp [fulfilNext, fulfilStep, fulfilCommit, h]
        have hadm : admitted (taskIds req.tenantId db) (templatesOf req.tenantId m db)
            (("SCTASK" ++ x.2.hex10, t.templateTaskId) :: offers todo xs) = _ :=
          if_neg (not_or.mpr ⟨hid, htpl⟩)
        rw [hstep, hadm, ih _ _ _ _ (by rw [hitem]; exact hm), taskLog, hids, htpls]
        have hrun' : runLog req.tenantId m db' todo.length xs =
            runLog req.tenantId m db todo.length xs := by
          simp only [runLog, runTaken, hruns]
          rfl
        rw [hrun']
        simp only [List.map_cons, List.append_assoc, List.cons_append, List.nil_append]
        rfl

def planLog (req : FulfillmentRequest) (db : Db) (plan : FulfillmentPlan) (xs : List (ℕ × Draw)) :
    List Commit :=
  match resumed req db with
  | some m => taskLog req.tenantId m db plan.tasks (xs.drop 4) ++
      runLog req.tenantId m db plan.tasks.length (xs.drop 4)
  | none =>
    match xs[itemAt req]? with
    | none => []
    | some x =>
      if ItemFree req x.2 db then
        .item (ritmIdOf x.2) req.requestId plan.tasks.length ::
          (taskLog req.tenantId (ritmIdOf x.2) db plan.tasks (xs.drop (itemAt req + 1)) ++
            runLog req.tenantId (ritmIdOf x.2) db plan.tasks.length (xs.drop (itemAt req + 1)))
      else []

theorem itemInsert_log (db : Db)
    (hq : (req.tenantId, req.requestId) ∈ db.request.rows.map requestKey)
    (name : String) (plan : FulfillmentPlan) (xs : List (ℕ × Draw)) :
    (xs.foldl (fulfilNext format req) ⟨db, .insertRitm name plan, []⟩).log =
      match xs[0]? with
      | none => []
      | some x =>
        if ItemFree req x.2 db then
          .item (ritmIdOf x.2) req.requestId plan.tasks.length ::
            (taskLog req.tenantId (ritmIdOf x.2) db plan.tasks (xs.drop 1) ++
              runLog req.tenantId (ritmIdOf x.2) db plan.tasks.length (xs.drop 1))
        else [] := by
  cases xs with
  | nil => rfl
  | cons x xs =>
    rw [List.foldl_cons]
    simp only [List.getElem?_cons_zero, List.drop_one, List.tail_cons]
    rcases insertRitm_newRitm (elapse x.1 db) hq plan x.2 (elapse x.1 db).now with
      ⟨h, hclash⟩ | ⟨db', h, hfree, htask, hruns, hm⟩
    · have hstep : fulfilNext format req ⟨db, .insertRitm name plan, []⟩ x =
          ⟨elapse x.1 db, .raised ⟨.persistence, "failed to insert RITM (uniqueness violation)"⟩,
            []⟩ := by
        simp [fulfilNext, fulfilStep, fulfilCommit, h]
      rw [hstep, settled_log format xs (.inr ⟨_, rfl⟩)]
      exact (if_neg hclash).symm
    · have hstep : fulfilNext format req ⟨db, .insertRitm name plan, []⟩ x =
          ⟨db', .insertTasks name (ritmIdOf x.2) plan.tasks 0,
            [.item (ritmIdOf x.2) req.requestId plan.tasks.length]⟩ := by
        simp [fulfilNext, fulfilStep, fulfilCommit, h]
      have htasks : taskLog req.tenantId (ritmIdOf x.2) db' plan.tasks xs =
          taskLog req.tenantId (ritmIdOf x.2) db plan.tasks xs := by
        simp only [taskLog, taskIds, templatesOf, htask]
        rfl
      have hrun : runLog req.tenantId (ritmIdOf x.2) db' plan.tasks.length xs =
          runLog req.tenantId (ritmIdOf x.2) db plan.tasks.length xs := by
        simp only [runLog, runTaken, hruns]
        rfl
      rw [hstep, taskInserts_log format name _ _ _ _ _ _ hm, htasks, hrun]
      exact (if_pos hfree).symm

theorem elapse_elapse (a b : ℕ) (db : Db) : elapse b (elapse a db) = elapse (a + b) db := by
  simp [elapse, Nat.add_assoc]

theorem assert_passes (x : ℕ × Draw) (h : requestExists req.tenantId req.requestId db = true) :
    fulfilNext format req ⟨db, .assertRequest, []⟩ x = ⟨elapse x.1 db, .duplicateGate, []⟩ := by
  have : requestExists req.tenantId req.requestId (elapse x.1 db) = true := h
  simp [fulfilNext, fulfilStep, fulfilCommit, this]

theorem reads_plan {plan : FulfillmentPlan} (x y z : ℕ × Draw)
    (hreq : requestExists req.tenantId req.requestId db = true)
    (hplan : planOf format req (elapse (x.1 + y.1) db) = some plan) :
    ∃ name, [x, y, z].foldl (fulfilNext format req) ⟨db, .assertRequest, []⟩ =
      ⟨elapse (x.1 + y.1 + z.1) db,
        if keyGiven req then .idemLookup name plan else .insertRitm name plan, []⟩ := by
  unfold planOf at hplan
  split at hplan
  · cases hplan
  · rename_i hdup
    split at hplan
    · cases hplan
    · rename_i template hload
      split at hplan
      · cases hplan
      · rename_i plan' hmat
        cases hplan
        have hload' : loadCatalogTemplate req.tenantId req.catalogItemId
            (elapse (x.1 + y.1 + z.1) db) = .ok template := hload
        refine ⟨template.name, ?_⟩
        rw [List.foldl_cons, assert_passes format x hreq]
        simp [fulfilNext, fulfilStep, fulfilCommit, elapse_elapse, hdup, hload', hmat]

theorem reads_refuse (db : Db) (x y z : ℕ × Draw)
    (h : requestExists req.tenantId req.requestId db = false ∨
      planOf format req (elapse (x.1 + y.1) db) = none) :
    Settled ([x, y, z].foldl (fulfilNext format req) ⟨db, .assertRequest, []⟩).phase ∧
      ([x, y, z].foldl (fulfilNext format req) ⟨db, .assertRequest, []⟩).log = [] := by
  simp only [List.foldl_cons, List.foldl_nil]
  cases hreq : requestExists req.tenantId req.requestId db with
  | false =>
    have : requestExists req.tenantId req.requestId (elapse x.1 db) = false := hreq
    exact ⟨.inr ⟨_, by simp [fulfilNext, fulfilStep, this]; rfl⟩,
      by simp [fulfilNext, fulfilStep, fulfilCommit, this]⟩
  | true =>
    rw [assert_passes format x hreq]
    have hplan := h.resolve_left (by simp [hreq])
    unfold planOf at hplan
    split at hplan
    · rename_i existing hdup
      exact ⟨.inr ⟨_, by simp [fulfilNext, fulfilStep, elapse_elapse, hdup]; rfl⟩,
        by simp [fulfilNext, fulfilStep, fulfilCommit, elapse_elapse, hdup]⟩
    · rename_i hdup
      split at hplan
      · rename_i e hload
        have hload' : loadCatalogTemplate req.tenantId req.catalogItemId
            (elapse (x.1 + y.1 + z.1) db) = .error e := hload
        exact ⟨.inr ⟨e, by simp [fulfilNext, fulfilStep, elapse_elapse, hdup, hload']⟩,
          by simp [fulfilNext, fulfilStep, fulfilCommit, elapse_elapse, hdup, hload']⟩
      · rename_i template hload
        have hload' : loadCatalogTemplate req.tenantId req.catalogItemId
            (elapse (x.1 + y.1 + z.1) db) = .ok template := hload
        split at hplan
        · rename_i e hmat
          exact ⟨.inr ⟨e, by simp [fulfilNext, fulfilStep, elapse_elapse, hdup, hload', hmat]⟩,
            by simp [fulfilNext, fulfilStep, fulfilCommit, elapse_elapse, hdup, hload', hmat]⟩
        · cases hplan

theorem requestExists_mem {t q : String} (h : requestExists t q db = true) :
    (t, q) ∈ db.request.rows.map requestKey := by
  obtain ⟨r, hr⟩ := Option.isSome_iff_exists.mp h
  obtain ⟨hmem, hk⟩ := Table.lookup_eq_some.mp hr
  exact List.mem_map.mpr ⟨r, hmem, hk⟩

theorem findRitm_mem {t k m : String} (h : findRitmByKey t k db = some m) :
    (t, m) ∈ db.requestItem.rows.map ritmKey := by
  obtain ⟨r, hr, rfl⟩ := Option.map_eq_some_iff.mp h
  have hp := List.find?_some hr
  simp only [decide_eq_true_eq] at hp
  exact List.mem_map.mpr ⟨r, List.mem_of_find?_eq_some hr, by rw [ritmKey, hp.1]⟩

theorem planLog_unreached {plan : FulfillmentPlan} {xs : List (ℕ × Draw)} (h : xs.length ≤ 3) :
    planLog req db plan xs = [] := by
  unfold planLog
  split
  · simp [List.drop_eq_nil_of_le (Nat.le_succ_of_le h), taskLog, offers, admitted, runLog]
  · have hnone : xs[itemAt req]? = none := by
      rw [List.getElem?_eq_none_iff, itemAt]
      split_ifs <;> omega
    rw [hnone]

/-- What the INSERTs of a planned request commit: the rows of the item its key already opened, or
the item and its rows. -/
theorem planned_log (x y z : ℕ × Draw) (rest : List (ℕ × Draw)) (name : String)
    (plan : FulfillmentPlan)
    (hreq : (req.tenantId, req.requestId) ∈ db.request.rows.map requestKey) :
    (rest.foldl (fulfilNext format req) ⟨elapse (x.1 + y.1 + z.1) db,
        if keyGiven req then .idemLookup name plan else .insertRitm name plan, []⟩).log =
      planLog req db plan (x :: y :: z :: rest) := by
  by_cases hkey : keyGiven req = true
  · rw [if_pos hkey]
    cases rest with
    | nil => exact (planLog_unreached (by simp)).symm
    | cons w rest =>
      let read := elapse w.1 (elapse (x.1 + y.1 + z.1) db)
      have hlookup : resumed req db =
          findRitmByKey req.tenantId (req.idempotencyKey.getD "") read := if_pos hkey
      rw [List.foldl_cons, planLog, hlookup]
      cases hfind : findRitmByKey req.tenantId (req.idempotencyKey.getD "") read with
      | some m =>
        have hstep : fulfilNext format req
            ⟨elapse (x.1 + y.1 + z.1) db, .idemLookup name plan, []⟩ w =
            ⟨read, .insertTasks name m plan.tasks 0, []⟩ := by
          simp [fulfilNext, fulfilStep, fulfilCommit, read, hfind]
        rw [hstep, taskInserts_log format name m _ _ _ _ _ (findRitm_mem hfind)]
        rfl
      | none =>
        have hstep : fulfilNext format req
            ⟨elapse (x.1 + y.1 + z.1) db, .idemLookup name plan, []⟩ w =
            ⟨read, .insertRitm name plan, []⟩ := by
          simp [fulfilNext, fulfilStep, fulfilCommit, read, hfind]
        have hat : itemAt req = 4 := if_pos hkey
        rw [hstep, itemInsert_log format read hreq name plan rest, hat]
        rfl
  · have hat : itemAt req = 3 := if_neg hkey
    have hnone : resumed req db = none := if_neg hkey
    rw [if_neg hkey, itemInsert_log format (elapse (x.1 + y.1 + z.1) db) hreq name plan rest,
      planLog, hnone, hat]
    rfl

/-- What `fulfill_request` has committed after any number of statements. -/
theorem fulfilCall_log (req : FulfillmentRequest) (db : Db) (xs : List (ℕ × Draw)) :
    (fulfilCall format req db xs).log =
      if requestExists req.tenantId req.requestId db then
        match planOf format req (clockAt 2 (xs.map Prod.fst) db) with
        | some plan => planLog req db plan xs
        | none => []
      else [] := by
  have short : xs.length ≤ 3 → (fulfilCall format req db xs).log = [] →
      (fulfilCall format req db xs).log =
        if requestExists req.tenantId req.requestId db then
          match planOf format req (clockAt 2 (xs.map Prod.fst) db) with
          | some plan => planLog req db plan xs
          | none => []
        else [] := by
    intro hlen hlog
    rw [hlog]
    split
    · split
      · rw [planLog_unreached hlen]
      · rfl
    · rfl
  match xs with
  | [] => exact short (by simp) rfl
  | [_] => exact short (by simp) rfl
  | [x, y] =>
    refine short (by simp) ?_
    simp only [fulfilCall, fulfilNext, List.foldl_cons, List.foldl_nil, fulfilStep]
    split <;> rfl
  | x :: y :: z :: rest =>
    have hsplit : fulfilCall format req db (x :: y :: z :: rest) =
        rest.foldl (fulfilNext format req)
        ([x, y, z].foldl (fulfilNext format req) ⟨db, .assertRequest, []⟩) := rfl
    have hclock : clockAt 2 ((x :: y :: z :: rest).map Prod.fst) db = elapse (x.1 + y.1) db := by
      simp [clockAt]
    rw [hclock]
    split
    · rename_i hreq
      split
      · rename_i plan hplan
        obtain ⟨name, hreads⟩ := reads_plan format x y z hreq hplan
        rw [hsplit, hreads]
        exact planned_log format x y z rest name plan (requestExists_mem hreq)
      · rename_i hplan
        obtain ⟨hsettled, hlog⟩ := reads_refuse format db x y z (.inr hplan)
        rw [hsplit, settled_log format rest hsettled, hlog]
    · rename_i hreq
      obtain ⟨hsettled, hlog⟩ := reads_refuse format db x y z (.inl (by simpa using hreq))
      rw [hsplit, settled_log format rest hsettled, hlog]

end Log

section Conditions

variable {req : FulfillmentRequest} {t m : String} {db : Db}

theorem offers_ids {todo : List TaskPlanItem} : ∀ {xs : List (ℕ × Draw)}, todo.length ≤ xs.length →
    (offers todo xs).map Prod.fst = (xs.take todo.length).map fun x => "SCTASK" ++ x.2.hex10 := by
  induction todo with
  | nil => simp [offers]
  | cons a todo ih =>
    intro xs h
    cases xs with
    | nil => simp at h
    | cons x xs => exact congrArg _ (ih (Nat.le_of_succ_le_succ h))

theorem offers_templates {todo : List TaskPlanItem} : ∀ {xs : List (ℕ × Draw)},
    todo.length ≤ xs.length → (offers todo xs).map Prod.snd = todo.map (·.templateTaskId) := by
  induction todo with
  | nil => simp [offers]
  | cons a todo ih =>
    intro xs h
    cases xs with
    | nil => simp at h
    | cons x xs => exact congrArg _ (ih (Nat.le_of_succ_le_succ h))

theorem offers_length (todo : List TaskPlanItem) (xs : List (ℕ × Draw)) :
    (offers todo xs).length = min todo.length xs.length := by
  simp [offers]

theorem templatesOf_fresh (h : (t, m) ∉ db.requestItem.rows.map ritmKey) :
    templatesOf t m db = [] := by
  simp only [templatesOf, List.map_eq_nil_iff, List.filter_eq_nil_iff, decide_eq_true_eq]
  rintro r hr ⟨rfl, rfl⟩
  exact h (db.task_ritm r hr)

/-- Under a new request item the unique keys admit as many tasks as the plan has exactly when
all are placed. -/
theorem placed_iff {plan : FulfillmentPlan} {xs : List (ℕ × Draw)} :
    (admitted (taskIds t db) [] (offers plan.tasks xs)).length = plan.tasks.length ↔
      TasksPlaced t db plan xs := by
  have hle := admitted_length_le (offers plan.tasks xs) (taskIds t db) []
  have hlen := offers_length plan.tasks xs
  have hfresh : plan.tasks.length ≤ xs.length →
      ((∀ o ∈ offers plan.tasks xs, o.1 ∉ taskIds t db) ↔
        ∀ x ∈ xs.take plan.tasks.length, "SCTASK" ++ x.2.hex10 ∉ taskIds t db) := by
    intro h
    rw [← List.forall_mem_map (l := offers plan.tasks xs) (f := Prod.fst)
      (P := fun i => i ∉ taskIds t db), offers_ids h, List.forall_mem_map]
  constructor
  · intro h
    have hreached : plan.tasks.length ≤ xs.length := by omega
    obtain ⟨⟨hids, hnew⟩, htpl, _⟩ := (admitted_all_iff _ _ _).mp
      (show (admitted (taskIds t db) [] (offers plan.tasks xs)).length = _ by omega)
    rw [offers_ids hreached] at hids
    rw [offers_templates hreached] at htpl
    exact ⟨hreached, htpl, hids, (hfresh hreached).mp hnew⟩
  · rintro ⟨hreached, htpl, hids, hnew⟩
    have := (admitted_all_iff (offers plan.tasks xs) (taskIds t db) []).mpr
      ⟨⟨by rw [offers_ids hreached]; exact hids, (hfresh hreached).mpr hnew⟩,
        by rw [offers_templates hreached]; exact htpl, fun _ _ h => by cases h⟩
    omega

theorem mem_taskLog {todo : List TaskPlanItem} {xs : List (ℕ × Draw)} {x : Commit}
    (h : x ∈ taskLog t m db todo xs) : ∃ id, x = .task id m := by
  obtain ⟨o, _, rfl⟩ := List.mem_map.mp h
  exact ⟨o.1, rfl⟩

theorem mem_runLog {n : ℕ} {xs : List (ℕ × Draw)} {x : Commit} (h : x ∈ runLog t m db n xs) :
    ∃ id, x = .run id m := by
  unfold runLog at h
  split at h
  · cases h
  · split_ifs at h
    · cases h
    · exact ⟨_, List.mem_singleton.mp h⟩

/-- The commits after the RITM insert are about that request item and insert no other. -/
theorem tail_commits {todo : List TaskPlanItem} {n : ℕ} {xs : List (ℕ × Draw)} {x : Commit}
    (h : x ∈ taskLog t m db todo xs ++ runLog t m db n xs) :
    x.ritm = some m ∧ ∀ k q j, x ≠ .item k q j := by
  rcases List.mem_append.mp h with h | h
  · obtain ⟨id, rfl⟩ := mem_taskLog h
    exact ⟨rfl, fun _ _ _ h => by cases h⟩
  · obtain ⟨id, rfl⟩ := mem_runLog h
    exact ⟨rfl, fun _ _ _ h => by cases h⟩

theorem tail_tasks {todo : List TaskPlanItem} {n : ℕ} {xs : List (ℕ × Draw)} :
    (taskLog t m db todo xs ++ runLog t m db n xs).countP Commit.isTask =
      (admitted (taskIds t db) (templatesOf t m db) (offers todo xs)).length := by
  have htasks : (taskLog t m db todo xs).countP Commit.isTask =
      (admitted (taskIds t db) (templatesOf t m db) (offers todo xs)).length := by
    rw [taskLog, List.countP_map]
    exact List.countP_eq_length.mpr fun _ _ => rfl
  have hruns : (runLog t m db n xs).countP Commit.isTask = 0 := by
    rw [List.countP_eq_zero]
    intro x hx
    obtain ⟨id, rfl⟩ := mem_runLog hx
    exact Bool.false_ne_true
  rw [List.countP_append, htasks, hruns, Nat.add_zero]

theorem runLog_nil {n : ℕ} {xs : List (ℕ × Draw)} :
    runLog t m db n xs = [] ↔ ∀ x, xs[n + 1]? = some x → runTaken t x.2 db := by
  unfold runLog
  split
  · rename_i h
    simp [h]
  · rename_i x h
    simp [h]

/-- A stopped `fulfill_request` leaves no gap: once its plan is found, it either stops before
its RITM insert, or that insert is refused, or every task is placed; onto a request item it
resumes it adds nothing, or just the tasks that were missing. -/
def FulfilWhole (format : String → JsonObject → Except FormatError String)
    (req : FulfillmentRequest) (db : Db) (xs : List (ℕ × Draw)) : Prop :=
  requestExists req.tenantId req.requestId db = true →
    ∀ plan, planOf format req (clockAt 2 (xs.map Prod.fst) db) = some plan →
      match resumed req db with
      | some m => Resumes req.tenantId m db plan (xs.drop 4)
      | none => ∀ x, xs[itemAt req]? = some x → ItemFree req x.2 db →
          TasksPlaced req.tenantId db plan (xs.drop (itemAt req + 1))

theorem ownItem_whole {n : ℕ} {q : String} {plan : FulfillmentPlan} {xs : List (ℕ × Draw)}
    (hfresh : (t, m) ∉ db.requestItem.rows.map ritmKey) (log : List Commit)
    (hlog : log = .item m q plan.tasks.length ::
      (taskLog t m db plan.tasks xs ++ runLog t m db n xs)) :
    (log = [] ∨ ∃ m' n', Target t db log m' n' ∧
      taskCount t m' db + log.countP Commit.isTask = n') ↔
      TasksPlaced t db plan xs := by
  have hcount : log.countP Commit.isTask =
      (admitted (taskIds t db) [] (offers plan.tasks xs)).length := by
    rw [hlog, List.countP_cons_of_neg (by simp [Commit.isTask]), tail_tasks,
      templatesOf_fresh hfresh]
  have hitem : .item m q plan.tasks.length ∈ log := hlog ▸ List.mem_cons_self
  have hone : OneItem m log := by
    intro x hx
    rw [hlog] at hx
    rcases List.mem_cons.mp hx with rfl | hx
    · rfl
    · exact (tail_commits hx).1
  rw [← placed_iff, ← hcount]
  constructor
  · rintro (hnil | ⟨m', n', ⟨hone', r, hshape⟩, hn⟩)
    · rw [hnil] at hitem
      cases hitem
    · have hm' : m' = m := Option.some.inj (hone' _ hitem).symm
      subst hm'
      rw [taskCount_fresh hfresh, Nat.zero_add] at hn
      rcases List.mem_append.mp hshape with hold | hnew
      · obtain ⟨row, hrow, hs⟩ := List.mem_map.mp hold
        exact absurd (List.mem_map.mpr ⟨row, hrow, congrArg Prod.fst hs⟩) hfresh
      · obtain ⟨k, q', j, hmem, hs⟩ := mem_newItems.mp hnew
        rw [hlog] at hmem
        rcases List.mem_cons.mp hmem with he | hmem
        · cases he
          cases hs
          exact hn
        · exact absurd rfl ((tail_commits hmem).2 k q' j)
  · intro h
    refine .inr ⟨m, plan.tasks.length, ⟨hone, q, ?_⟩, ?_⟩
    · exact List.mem_append_right _ (mem_newItems.mpr ⟨m, q, _, hitem, rfl⟩)
    · rw [taskCount_fresh hfresh, Nat.zero_add, h]

theorem resumedItem_whole {plan : FulfillmentPlan} {xs : List (ℕ × Draw)} (log : List Commit)
    (hlog : log = taskLog t m db plan.tasks xs ++ runLog t m db plan.tasks.length xs) :
    (log = [] ∨ ∃ m' n', Target t db log m' n' ∧
      taskCount t m' db + log.countP Commit.isTask = n') ↔
      Resumes t m db plan xs := by
  have hnil : log = [] ↔ admitted (taskIds t db) (templatesOf t m db) (offers plan.tasks xs) = [] ∧
      ∀ x, xs[plan.tasks.length + 1]? = some x → runTaken t x.2 db := by
    rw [hlog, List.append_eq_nil_iff, runLog_nil, taskLog, List.map_eq_nil_iff]
  have hcount : log.countP Commit.isTask =
      (admitted (taskIds t db) (templatesOf t m db) (offers plan.tasks xs)).length := by
    rw [hlog, tail_tasks]
  have hone : OneItem m log := fun x hx => (tail_commits (hlog ▸ hx)).1
  have hnone : newItems t log = [] := by
    rw [List.eq_nil_iff_forall_not_mem]
    intro s hs
    obtain ⟨k, q, j, hmem, _⟩ := mem_newItems.mp hs
    exact (tail_commits (hlog ▸ hmem)).2 k q j rfl
  unfold Resumes
  rw [← hnil, ← hcount]
  refine or_congr_right' fun hne => ?_
  constructor
  · rintro ⟨m', n', ⟨hone', r, hshape⟩, hn⟩
    obtain ⟨x, hx⟩ := List.exists_mem_of_ne_nil log hne
    have hm' : m' = m := Option.some.inj ((hone' x hx).symm.trans (hone x hx))
    subst hm'
    rw [hnone, List.append_nil] at hshape
    obtain ⟨row, hrow, hs⟩ := List.mem_map.mp hshape
    simp only [itemShape, Prod.mk.injEq] at hs
    exact ⟨row, Table.lookup_eq_some.mpr ⟨hrow, hs.1⟩, hn.trans hs.2.2.symm⟩
  · rintro ⟨row, hrow, hn⟩
    obtain ⟨hmem, hk⟩ := Table.lookup_eq_some.mp hrow
    refine ⟨m, row.totalTasks, ⟨hone, row.requestId, ?_⟩, hn⟩
    exact List.mem_append_left _ (List.mem_map.mpr ⟨row, hmem, by rw [itemShape, hk]⟩)

theorem fulfil_whole_iff (format : String → JsonObject → Except FormatError String)
    (req : FulfillmentRequest) (db₀ : Db) (xs : List (ℕ × Draw)) :
    Atomic db₀ (fulfilCall format req db₀ xs).db ↔ FulfilWhole format req db₀ xs := by
  obtain ⟨hrows, hphase⟩ := fulfilCall_inv format req db₀ xs
  obtain ⟨m₀, hm₀⟩ := hphase.one
  rw [fulfil_atomic_iff hrows hm₀]
  have hlog := fulfilCall_log format req db₀ xs
  unfold FulfilWhole
  cases hreq : requestExists req.tenantId req.requestId db₀ with
  | false =>
    rw [hreq, if_neg Bool.false_ne_true] at hlog
    exact ⟨fun _ h => (by cases h), fun _ => .inl hlog⟩
  | true =>
    rw [hreq, if_pos rfl] at hlog
    simp only [forall_const]
    cases hplan : planOf format req (clockAt 2 (xs.map Prod.fst) db₀) with
    | none =>
      rw [hplan] at hlog
      exact ⟨fun _ plan h => (by cases h), fun _ => .inl hlog⟩
    | some plan =>
      rw [hplan] at hlog
      simp only [Option.some.injEq, forall_eq']
      cases hres : resumed req db₀ with
      | some m =>
        simp only [planLog, hres] at hlog
        exact resumedItem_whole _ hlog
      | none =>
        simp only [planLog, hres] at hlog
        dsimp only
        cases hx : xs[itemAt req]? with
        | none =>
          rw [hx] at hlog
          exact ⟨fun _ x h => (by cases h), fun _ => .inl hlog⟩
        | some x =>
          rw [hx] at hlog
          simp only [Option.some.injEq, forall_eq']
          by_cases hfree : ItemFree req x.2 db₀
          · simp only [hfree, forall_const]
            exact ownItem_whole hfree.1 _ (hlog.trans (if_pos hfree))
          · simp only [hfree, false_imp_iff, iff_true]
            exact .inl (hlog.trans (if_neg hfree))

end Conditions

def formName (a : CreateArgs) (db : Db) : Option String :=
  if a.catalogId = "" then none
  else match db.catalogItem.lookup (a.tenantId, a.catalogId) with
  | none => none
  | some row =>
    if (missingFields row.requestFields a.formFields).isEmpty then
      some (if row.name = "" then a.catalogId else row.name)
    else none

def Opens (a : CreateArgs) (d : Draw) (db : Db) : Prop :=
  ((a.tenantId, a.requestedFor) ∈ db.sysUser ∧ (a.tenantId, a.userId) ∈ db.sysUser) ∧
    (a.tenantId, "REQ" ++ d.hex10) ∉ db.request.rows.map requestKey

def drawsOf (xs : List (ℕ × SubmitInput)) : List (ℕ × Draw) := xs.map fun x => (x.1, x.2.draw)

def OwnItem (req : FulfillmentRequest) (db : Db) (plan : FulfillmentPlan) (xs : List (ℕ × Draw)) :
    Prop :=
  resumed req db = none ∧ ∃ x, xs[itemAt req]? = some x ∧ ItemFree req x.2 db ∧
    TasksPlaced req.tenantId db plan (xs.drop (itemAt req + 1))

section Create

variable (format : String → JsonObject → Except FormatError String)

/-- A stopped `create_service_request` leaves no gap: once its parent request is inserted, the
request is valid, its plan is found and its own request item is whole. -/
def CreateWhole (a : CreateArgs) (db : Db) (xs : List (ℕ × SubmitInput)) : Prop :=
  ∀ name, formName a db = some name → ∀ x, xs[1]? = some x → Opens a x.2.draw db →
    ∃ req : FulfillmentRequest,
      req.toFulfillmentRequestFields = requestOf a ("REQ" ++ x.2.draw.hex10) ∧
      ∃ plan, planOf format req (clockAt 4 (xs.map Prod.fst) db) = some plan ∧
        OwnItem req db plan (drawsOf (xs.drop 2))

def Past : CreatePhase → Prop
  | .loadForm | .insertRequest _ | .fulfil _ _ => False
  | _ => True

variable {a : CreateArgs} {req : FulfillmentRequest}

theorem createStep_past (cc : CreateConfig) (inp : SubmitInput) (db : Db) {p : CreatePhase}
    (h : Past p) : Past (createStep format cc a inp db p).2 ∧ createCommit a inp db p = [] := by
  cases p with
  | loadForm => cases h
  | insertRequest name => cases h
  | fulfil req q => cases h
  | gate o =>
    refine ⟨?_, rfl⟩
    simp only [createStep]
    split
    · trivial
    · dsimp only
      split_ifs <;> trivial
  | park o g =>
    refine ⟨?_, rfl⟩
    simp only [createStep]
    split <;> trivial
  | _ => exact ⟨trivial, rfl⟩

theorem past_log (cc : CreateConfig) (xs : List (ℕ × SubmitInput)) :
    ∀ {c : Call CreatePhase}, Past c.phase →
      (xs.foldl (createNext format cc a) c).log = c.log := by
  induction xs with
  | nil => exact fun _ => rfl
  | cons x xs ih =>
    intro c h
    obtain ⟨hpast, hnone⟩ := createStep_past format cc x.2 (elapse x.1 c.db) h
    refine (ih (show Past (createNext format cc a c x).phase from hpast)).trans ?_
    simp only [createNext, hnone, List.append_nil]

/-- Inside a tool call `fulfill_request` commits what it commits on its own. -/
theorem inner_log (cc : CreateConfig) (front : List Commit) (xs : List (ℕ × SubmitInput)) :
    ∀ (db : Db) (q : FulfilPhase) (log : List Commit),
      (xs.foldl (createNext format cc a) ⟨db, .fulfil req q, front ++ log⟩).log =
        front ++ ((drawsOf xs).foldl (fulfilNext format req) ⟨db, q, log⟩).log := by
  induction xs with
  | nil => exact fun _ _ _ => rfl
  | cons x xs ih =>
    intro db q log
    have hsettled : Settled q →
        Past (createNext format cc a ⟨db, .fulfil req q, front ++ log⟩ x).phase →
        createCommit a x.2 (elapse x.1 db) (.fulfil req q) = [] →
        ((x :: xs).foldl (createNext format cc a) ⟨db, .fulfil req q, front ++ log⟩).log =
          front ++ ((drawsOf (x :: xs)).foldl (fulfilNext format req) ⟨db, q, log⟩).log := by
      intro hq hpast hnone
      rw [settled_log format _ hq, List.foldl_cons, past_log format cc xs hpast]
      simp only [createNext, hnone, List.append_nil]
    have hinner : (createStep format cc a x.2 (elapse x.1 db) (.fulfil req q) =
        ((fulfilStep format req x.2.draw (elapse x.1 db) q).1,
          .fulfil req (fulfilStep format req x.2.draw (elapse x.1 db) q).2)) →
        ((x :: xs).foldl (createNext format cc a) ⟨db, .fulfil req q, front ++ log⟩).log =
          front ++ ((drawsOf (x :: xs)).foldl (fulfilNext format req) ⟨db, q, log⟩).log := by
      intro hstep
      have hnext : createNext format cc a ⟨db, .fulfil req q, front ++ log⟩ x =
          ⟨(fulfilStep format req x.2.draw (elapse x.1 db) q).1,
            .fulfil req (fulfilStep format req x.2.draw (elapse x.1 db) q).2,
            front ++ (log ++ fulfilCommit req x.2.draw (elapse x.1 db) q)⟩ := by
        simp only [createNext, hstep, createCommit, List.append_assoc]
      rw [List.foldl_cons, hnext]
      exact ih _ _ _
    cases q with
    | returned o =>
      refine hsettled (.inl ⟨o, rfl⟩) ?_ rfl
      simp only [createNext, createStep]
      split_ifs <;> trivial
    | raised e =>
      refine hsettled (.inr ⟨e, rfl⟩) ?_ rfl
      simp only [createNext, createStep, fulfilFailure]
      split <;> trivial
    | _ => exact hinner rfl

theorem insertRequest_shape {r : RequestRow} {db db' : Db} (h : insertRequest r db = some db') :
    requestKey r ∉ db.request.rows.map requestKey ∧ ∃ u hfk, u.rows = db.request.rows ++ [r] ∧
      db' = { db with request := u, ritm_request := hfk } := by
  unfold insertRequest at h
  split at h
  · cases h
  · rename_i u hu
    cases h
    exact ⟨(Table.insert_eq_some hu).2.1, u, _, (Table.insert_eq_some hu).1, rfl⟩

theorem insertRequest_clash {r : RequestRow} {db : Db} (h : insertRequest r db = none) :
    requestKey r ∈ db.request.rows.map requestKey := by
  unfold insertRequest at h
  split at h
  · rename_i hu
    exact (Table.insert_eq_none hu).resolve_right fun ⟨v, hv, _⟩ => by cases hv
  · cases h

/-- What `create_service_request` has committed after its first two statements. -/
inductive Opening (a : CreateArgs) (db : Db) (x y : ℕ × SubmitInput) (c : Call CreatePhase) :
    Prop where
  | closed (hlog : c.log = []) (hpast : Past c.phase)
      (h : ∀ name, formName a db = some name → ¬ Opens a y.2.draw db)
  | invalid (name : String) (hname : formName a db = some name) (ho : Opens a y.2.draw db)
      (hlog : c.log = [.request ("REQ" ++ y.2.draw.hex10)]) (hpast : Past c.phase)
      (h : ¬ (requestOf a ("REQ" ++ y.2.draw.hex10)).Valid)
  | opened (name : String) (hname : formName a db = some name) (ho : Opens a y.2.draw db)
      (req : FulfillmentRequest)
      (hreq : req.toFulfillmentRequestFields = requestOf a ("REQ" ++ y.2.draw.hex10))
      (u : Table requestKey noAlt)
      (hfk : ∀ r ∈ db.requestItem.rows, (r.tenantId, r.requestId) ∈ u.rows.map requestKey)
      (hin : (req.tenantId, req.requestId) ∈ u.rows.map requestKey)
      (hc : c = ⟨elapse y.1 (elapse x.1 { db with request := u, ritm_request := hfk }),
        .fulfil req .assertRequest, [.request req.requestId]⟩)

theorem opening (cc : CreateConfig) (db : Db) (x y : ℕ × SubmitInput) :
    Opening a db x y (createCall format cc a db [x, y]) := by
  have hload : createNext format cc a ⟨db, .loadForm, []⟩ x = ⟨elapse x.1 db,
      (createStep format cc a x.2 (elapse x.1 db) .loadForm).2, []⟩ := by
    simp only [createNext, createStep, createCommit, List.append_nil, Call.mk.injEq, and_true]
    split
    · rfl
    · split <;> rfl
  have hform : (∃ r, formName a db = none ∧
      (createStep format cc a x.2 (elapse x.1 db) .loadForm).2 = .returned r) ∨
      ∃ name, formName a db = some name ∧
        (createStep format cc a x.2 (elapse x.1 db) .loadForm).2 = .insertRequest name := by
    have hsame : (elapse x.1 db).catalogItem = db.catalogItem := rfl
    simp only [createStep, formName, hsame]
    split_ifs with hid
    · exact .inl ⟨_, rfl, rfl⟩
    · cases db.catalogItem.lookup (a.tenantId, a.catalogId) with
      | none => exact .inl ⟨_, rfl, rfl⟩
      | some row =>
        by_cases hmiss : (missingFields row.requestFields a.formFields).isEmpty = true
        · exact .inr ⟨_, if_pos hmiss, if_pos hmiss⟩
        · exact .inl ⟨_, if_neg hmiss, if_neg hmiss⟩
  unfold createCall
  rw [List.foldl_cons, List.foldl_cons, List.foldl_nil, hload]
  rcases hform with ⟨r, hnone, hphase⟩ | ⟨name, hname, hphase⟩
  · rw [hphase]
    exact .closed rfl trivial fun name h => by rw [hnone] at h; cases h
  · rw [hphase]
    by_cases husers : (a.tenantId, a.requestedFor) ∈ db.sysUser ∧
      (a.tenantId, a.userId) ∈ db.sysUser
    · have husers' : (a.tenantId, a.requestedFor) ∈ (elapse y.1 (elapse x.1 db)).sysUser ∧
          (a.tenantId, a.userId) ∈ (elapse y.1 (elapse x.1 db)).sysUser := husers
      cases hins : insertRequest (newRequest a name y.2.draw) (elapse y.1 (elapse x.1 db)) with
      | none =>
        have hclash := insertRequest_clash hins
        refine .closed ?_ ?_ fun _ _ ho => ho.2 hclash
        · simp [createNext, createCommit, hins]
        · simp [createNext, createStep, husers', hins, Past]
      | some db' =>
        obtain ⟨hfresh, u, hfk, hrows, hdb⟩ := insertRequest_shape hins
        have ho : Opens a y.2.draw db := ⟨husers, hfresh⟩
        by_cases hv : (requestOf a ("REQ" ++ y.2.draw.hex10)).Valid
        · refine .opened name hname ho
            { requestOf a ("REQ" ++ y.2.draw.hex10) with valid := hv } rfl
            u hfk ?_ ?_
          · rw [hrows]
            exact List.mem_map_of_mem (List.mem_append_right _ (List.mem_singleton_self _))
          · simp only [createNext, createStep, createCommit, if_pos husers', hins, dif_pos hv, hdb,
              List.nil_append]
            rfl
        · refine .invalid name hname ho ?_ ?_ hv
          · simp [createNext, createCommit, husers', hins]
          · simp [createNext, createStep, husers', hins, hv, Past]
    · have husers' : ¬ ((a.tenantId, a.requestedFor) ∈ (elapse y.1 (elapse x.1 db)).sysUser ∧
          (a.tenantId, a.userId) ∈ (elapse y.1 (elapse x.1 db)).sysUser) := husers
      refine .closed ?_ ?_ fun _ _ ho => husers ho.1
      · simp only [createNext, createCommit, if_neg husers', List.append_nil]
      · simp only [createNext, createStep, if_neg husers']
        trivial

theorem opened_whole {m q id : String} {n : ℕ} {plan : FulfillmentPlan} {db : Db}
    {xs : List (ℕ × Draw)} (hfresh : (req.tenantId, m) ∉ db.requestItem.rows.map ritmKey)
    (log : List Commit) (hlog : log = .request id :: .item m q plan.tasks.length ::
      (taskLog req.tenantId m db plan.tasks xs ++ runLog req.tenantId m db n xs)) :
    (log = [] ∨ ∃ m' q' n', .item m' q' n' ∈ log ∧ log.countP Commit.isTask = n') ↔
      TasksPlaced req.tenantId db plan xs := by
  have hcount : log.countP Commit.isTask =
      (admitted (taskIds req.tenantId db) [] (offers plan.tasks xs)).length := by
    rw [hlog, List.countP_cons_of_neg (by simp [Commit.isTask]),
      List.countP_cons_of_neg (by simp [Commit.isTask]), tail_tasks, templatesOf_fresh hfresh]
  rw [← placed_iff, ← hcount]
  constructor
  · rintro (hnil | ⟨m', q', n', hmem, hn⟩)
    · rw [hlog] at hnil
      cases hnil
    · rw [hlog] at hmem
      rcases List.mem_cons.mp hmem with he | hmem
      · cases he
      · rcases List.mem_cons.mp hmem with he | hmem
        · cases he
          exact hn
        · exact absurd rfl ((tail_commits hmem).2 m' q' n')
  · intro h
    exact .inr ⟨m, q, _, hlog ▸ List.mem_cons_of_mem _ List.mem_cons_self, h⟩

theorem unfiled_gap {id : String} {log : List Commit} (hlog : log.head? = some (.request id))
    (hno : ∀ m q n, .item m q n ∉ log) :
    ¬ (log = [] ∨ ∃ m q n, .item m q n ∈ log ∧ log.countP Commit.isTask = n) := by
  rintro (hnil | ⟨m, q, n, hmem, _⟩)
  · rw [hnil] at hlog
    cases hlog
  · exact hno m q n hmem

/-- An opened parent request stands with a whole request item exactly when the call goes on to
one of its own. -/
theorem inner_whole {id : String} {db : Db} {found : Option FulfillmentPlan}
    {xs : List (ℕ × Draw)} (log : List Commit)
    (hlog : log = .request id ::
      match found with
      | some plan => planLog req db plan xs
      | none => []) :
    (log = [] ∨ ∃ m q n, .item m q n ∈ log ∧ log.countP Commit.isTask = n) ↔
      ∃ plan, found = some plan ∧ OwnItem req db plan xs := by
  cases found with
  | none =>
    refine iff_of_false (unfiled_gap (by rw [hlog]; rfl) ?_) fun ⟨_, h, _⟩ => by cases h
    intro m q n hmem
    rw [hlog] at hmem
    cases List.mem_singleton.mp hmem
  | some plan =>
    simp only [Option.some.injEq, exists_eq_left']
    unfold OwnItem
    cases hres : resumed req db with
    | some m =>
      refine iff_of_false (unfiled_gap (by rw [hlog]; rfl) ?_) fun ⟨h, _⟩ => by cases h
      intro k q n hmem
      simp only [hlog, planLog, hres, List.mem_cons, reduceCtorEq, false_or] at hmem
      exact (tail_commits hmem).2 k q n rfl
    | none =>
      simp only [planLog, hres] at hlog
      cases hx : xs[itemAt req]? with
      | none =>
        rw [hx] at hlog
        refine iff_of_false (unfiled_gap (by rw [hlog]; rfl) ?_) fun ⟨_, _, h, _⟩ => by cases h
        intro m q n hmem
        rw [hlog] at hmem
        cases List.mem_singleton.mp hmem
      | some x =>
        rw [hx] at hlog
        simp only [Option.some.injEq, exists_eq_left', true_and]
        by_cases hfree : ItemFree req x.2 db
        · rw [opened_whole hfree.1 log (hlog.trans (congrArg _ (if_pos hfree)))]
          exact (and_iff_right hfree).symm
        · have hnone := hlog.trans (congrArg _ (if_neg hfree))
          refine iff_of_false (unfiled_gap (by rw [hnone]; rfl) ?_) fun h => hfree h.1
          intro m q n hmem
          rw [hnone] at hmem
          cases List.mem_singleton.mp hmem

/-- Behind its own INSERT a tool call commits what `fulfill_request` does on the old store. -/
theorem opened_log (cc : CreateConfig) {db : Db} (x y : ℕ × SubmitInput)
    (xs : List (ℕ × SubmitInput)) {u : Table requestKey noAlt}
    (hfk : ∀ r ∈ db.requestItem.rows, (r.tenantId, r.requestId) ∈ u.rows.map requestKey)
    (hin : (req.tenantId, req.requestId) ∈ u.rows.map requestKey) :
    (xs.foldl (createNext format cc a)
      ⟨elapse y.1 (elapse x.1 { db with request := u, ritm_request := hfk }),
        .fulfil req .assertRequest, [.request req.requestId]⟩).log =
      .request req.requestId ::
        match planOf format req (clockAt 4 ((x :: y :: xs).map Prod.fst) db) with
        | some plan => planLog req db plan (drawsOf xs)
        | none => [] := by
  have hreq : requestExists req.tenantId req.requestId
      (elapse y.1 (elapse x.1 { db with request := u, ritm_request := hfk })) = true := by
    rw [requestExists, Option.isSome_iff_ne_none, ne_eq, Table.lookup_eq_none, not_not]
    exact hin
  have hclock : clockAt 4 ((x :: y :: xs).map Prod.fst) db =
      clockAt 2 ((drawsOf xs).map Prod.fst) (elapse y.1 (elapse x.1 db)) := by
    simp [clockAt, elapse_elapse, drawsOf, Nat.add_assoc, Function.comp_def]
  have hinner := fulfilCall_log format req
    (elapse y.1 (elapse x.1 { db with request := u, ritm_request := hfk })) (drawsOf xs)
  rw [if_pos hreq] at hinner
  rw [hclock]
  refine (inner_log format cc [.request req.requestId] xs _ .assertRequest []).trans ?_
  exact congrArg _ hinner

theorem create_whole_iff (cc : CreateConfig) (a : CreateArgs) (db₀ : Db)
    (xs : List (ℕ × SubmitInput)) :
    (Atomic db₀ (createCall format cc a db₀ xs).db ∧
        NoOrphan db₀ (createCall format cc a db₀ xs)) ↔ CreateWhole format a db₀ xs := by
  have inv := createCall_inv format cc a db₀ xs
  have hiff := create_atomic_iff inv.rows inv.log.filed
  have hand : (Atomic db₀ (createCall format cc a db₀ xs).db ∧
      NoOrphan db₀ (createCall format cc a db₀ xs)) ↔
      ((createCall format cc a db₀ xs).log = [] ∨
        ∃ m q n, .item m q n ∈ (createCall format cc a db₀ xs).log ∧
          (createCall format cc a db₀ xs).log.countP Commit.isTask = n) :=
    ⟨fun h => hiff.mp h.1, fun h => ⟨hiff.mpr h, noOrphan_of_log format
      (h.imp_right fun ⟨m, q, n, hm, _⟩ => ⟨m, q, n, hm⟩)⟩⟩
  rw [hand]
  unfold CreateWhole
  match xs with
  | [] => exact ⟨fun _ _ _ _ h => (by cases h), fun _ => .inl rfl⟩
  | [x] =>
    refine ⟨fun _ _ _ _ h => (by cases h), fun _ => .inl ?_⟩
    rfl
  | x :: y :: rest =>
    have hsplit : createCall format cc a db₀ (x :: y :: rest) =
        rest.foldl (createNext format cc a) (createCall format cc a db₀ [x, y]) := rfl
    cases opening format cc db₀ x y with
    | closed hlog hpast h =>
      rw [hsplit, past_log format cc rest hpast]
      refine ⟨fun _ name hname z hz ho => ?_, fun _ => .inl hlog⟩
      cases hz
      exact absurd ho (h name hname)
    | invalid name hname ho hlog hpast h =>
      rw [hsplit, past_log format cc rest hpast]
      refine iff_of_false (unfiled_gap (by rw [hlog]; rfl) ?_) fun hall => ?_
      · intro m q n hmem
        rw [hlog] at hmem
        cases List.mem_singleton.mp hmem
      · obtain ⟨req, hreq, _⟩ := hall name hname y rfl ho
        exact h (hreq ▸ req.valid)
    | opened name hname ho req hreq u hfk hin hc =>
      rw [hsplit, hc]
      refine (inner_whole _ (opened_log format cc x y rest hfk hin)).trans
        ⟨fun hown name' _ z hz _ => ?_, fun hall => ?_⟩
      · cases hz
        exact ⟨req, hreq, hown⟩
      · obtain ⟨req', hreq', hown⟩ := hall name hname y rfl ho
        have he : req' = req := by
          cases req'
          cases req
          simp only at hreq' hreq
          subst hreq' hreq
          rfl
        exact he ▸ hown

end Create

def crashed : Call FulfilPhase :=
  fulfilCall plainFormat plainOrder (catalogDb [manualTask "a"]) (List.replicate 4 (0, drawA))

def orderedDb : Db :=
  (fulfilCall plainFormat plainOrder (catalogDb [manualTask "a"]) (List.replicate 8 (0, drawA))).db

def chatOrder : CreateArgs := ⟨"t", "ann", "laptop", [], "ann", 1, none⟩

def duplicateOrder : Call CreatePhase :=
  createCall plainFormat ⟨false, false⟩ chatOrder orderedDb
    (List.replicate 5 (0, ⟨drawB, none, [], false⟩))

def answerOf (c : Call CreatePhase) : Option ToolResult :=
  match c.phase with
  | .returned r => some r
  | _ => none

theorem crash_not_atomic : ¬ Atomic (catalogDb [manualTask "a"]) crashed.db := by
  intro ha
  have hrows : Rows "t" (catalogDb [manualTask "a"]) crashed.log crashed.db :=
    (fulfilCall_inv plainFormat plainOrder _ _).1
  have hlog : .item "RITM00000000A1" "REQ1" 1 ∈ crashed.log := by decide
  obtain ⟨q, hq, hs, hnew⟩ := hrows.item_row hlog
  have hw := ha.item q hq hnew
  simp only [itemShape, ritmKey, Prod.mk.injEq] at hs
  have hnone : taskCount "t" "RITM00000000A1" crashed.db = 0 := by decide
  rw [Whole, hs.1.1, hs.1.2, hs.2.2, hnone] at hw
  cases hw

end FulfillmentCreation
