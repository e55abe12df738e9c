import OneOps.ListSplit
import OneOps.FulfillmentTaskProtocol
import Mathlib.Data.String.Basic

/-! The order of compensation. `compensate_ritm` walks the completed tasks by descending
template id, whatever their dependencies; the walk undoes a task before what it was built on
only where the ids ascend along the dependencies. -/
namespace FulfillmentSagaOrder

open ListSplit
open DependencyClosure
open FulfillmentContracts
open FulfillmentDb
open FulfillmentInspection
open FulfillmentWorker
open FulfillmentSaga
open FulfillmentTaskProtocol

def sagaResults : SagaPhase → List Compensation
  | .undo _ results => results
  | .readRitm results => results
  | .write _ results => results
  | .returned results => results
  | _ => []

/-- One `compensate_ritm`: each await finds the tables as other calls have left them. -/
def sagaAfter (cfg : Config) (k : Saga) (xs : List (UndoResult × Db)) : Saga :=
  xs.foldl (fun k x => { k with phase := (sagaStep cfg x.1 x.2 k).2 }) k

/-- What has been compensated is a first part of the walk, and all of it after the loop. -/
def Walks (walk : List String) : SagaPhase → Prop
  | .list => False
  | .undo todo results => results.map (·.taskId) ++ todo.map (·.taskId) = walk
  | .raised => True
  | p => (sagaResults p).map (·.taskId) = walk

theorem compensateOneTask_taskId {cfg : Config} {t : TaskRow} {r : UndoResult} {c : Compensation}
    (h : compensateOneTask cfg t r = some c) : c.taskId = t.taskId := by
  unfold compensateOneTask at h
  split at h
  · cases h
    rfl
  · split at h
    · obtain ⟨handle, _, rfl⟩ := Option.map_eq_some_iff.mp h
      split
      · split <;> rfl
      · rfl
    · cases h
      rfl

theorem sagaStep_walks {cfg : Config} {walk : List String} {k : Saga} (h : Walks walk k.phase)
    (r : UndoResult) (db : Db) : Walks walk (sagaStep cfg r db k).2 := by
  unfold sagaStep
  split
  · rename_i hp
    rw [hp] at h
    exact h.elim
  · rename_i hp
    rw [hp] at h
    simpa [Walks, sagaResults] using h
  · rename_i t todo results hp
    rw [hp] at h
    split
    · trivial
    · rename_i c hc
      rw [Walks, List.map_append, List.append_assoc, List.map_singleton,
        compensateOneTask_taskId hc, List.singleton_append]
      exact h
  · rename_i hp
    rw [hp] at h
    split
    · exact h
    · dsimp only
      split <;> exact h
  · rename_i hp
    rw [hp] at h
    exact h
  · rename_i hp
    rw [hp] at h
    exact h
  · trivial

theorem saga_walks (cfg : Config) (tenantId ritmId : String) (db : Db) (r : UndoResult)
    (xs : List (UndoResult × Db)) :
    Walks ((completedTasks (listTasksForRitm tenantId ritmId db)).map (·.taskId))
      (sagaAfter cfg ⟨tenantId, ritmId, .list⟩ ((r, db) :: xs)).phase := by
  have hrun : ∀ (xs : List (UndoResult × Db)) (k : Saga) (walk : List String),
      Walks walk k.phase → Walks walk (sagaAfter cfg k xs).phase := by
    intro xs
    induction xs with
    | nil => intro k walk h; exact h
    | cons x xs ih =>
      intro k walk h
      exact ih _ walk (sagaStep_walks h x.1 x.2)
  exact hrun xs _ _ rfl

theorem Walks.results_initial {walk : List String} {p : SagaPhase} (h : Walks walk p) :
    (sagaResults p).map (·.taskId) <+: walk := by
  cases p with
  | list => exact h.elim
  | undo todo results => exact ⟨_, h⟩
  | raised => exact List.nil_prefix
  | readRitm results => exact h ▸ List.prefix_refl _
  | write ritm results => exact h ▸ List.prefix_refl _
  | returned results => exact h ▸ List.prefix_refl _

def walkIds (tasks : List TaskRow) : List String :=
  (completedTasks tasks).map (·.templateTaskId)

def DoneClosed (tasks : List TaskRow) : Prop :=
  ∀ t ∈ tasks, t.state = .done → ∀ dep ∈ t.dependsOn,
    ∃ u ∈ tasks, u.templateTaskId = dep ∧ u.state = .done

/-- Every completed task is walked before the completed tasks it depends on. -/
def DependentsFirst (tasks : List TaskRow) : Prop :=
  ∀ t ∈ tasks, ∀ u ∈ tasks, t.state = .done → u.state = .done →
    DependsOn (taskNodes tasks) t.templateTaskId u.templateTaskId →
      (walkIds tasks).idxOf t.templateTaskId < (walkIds tasks).idxOf u.templateTaskId

def IdsAscend (tasks : List TaskRow) : Prop :=
  ∀ t ∈ tasks, t.state = .done → ∀ dep ∈ t.dependsOn, dep < t.templateTaskId

section Order

variable {tasks : List TaskRow}

theorem mem_walkIds {t : TaskRow} (ht : t ∈ tasks) (hd : t.state = .done) :
    t.templateTaskId ∈ walkIds tasks := by
  refine List.mem_map_of_mem ((List.mem_insertionSort _).mpr (List.mem_filter.mpr ⟨ht, ?_⟩))
  simpa using hd

theorem walkIds_descending : (walkIds tasks).Pairwise fun x y => y ≤ x := by
  have : Std.Total fun a b : TaskRow => b.templateTaskId ≤ a.templateTaskId :=
    ⟨fun a b => le_total b.templateTaskId a.templateTaskId⟩
  have : IsTrans TaskRow fun a b => b.templateTaskId ≤ a.templateTaskId :=
    ⟨fun _ _ _ hab hbc => hbc.trans hab⟩
  exact List.pairwise_map.mpr (List.pairwise_insertionSort _ _)

/-- Rows of one request item have distinct template ids: the key column is UNIQUE. -/
theorem listTasks_eq_of_template {tenantId ritmId : String} {db : Db} {t u : TaskRow}
    (ht : t ∈ listTasksForRitm tenantId ritmId db) (hu : u ∈ listTasksForRitm tenantId ritmId db)
    (h : t.templateTaskId = u.templateTaskId) : t = u := by
  obtain ⟨ht, htt, htr⟩ := mem_listTasks.mp ht
  obtain ⟨hu, hut, hur⟩ := mem_listTasks.mp hu
  apply db.task.eq_of_alt ht hu rfl
  rw [taskAlt, taskIdempotencyKey, taskIdempotencyKey, h, htt, htr, hut, hur]

theorem edge_of_dep {t : TaskRow} {dep : String} (ht : t ∈ tasks) (hd : dep ∈ t.dependsOn) :
    Edge (taskNodes tasks) t.templateTaskId dep :=
  ⟨(t.templateTaskId, t.dependsOn), List.mem_map.mpr ⟨t, ht, rfl⟩, rfl, hd⟩

theorem below_of_dependsOn (hinj : ∀ t ∈ tasks, ∀ u ∈ tasks,
      t.templateTaskId = u.templateTaskId → t = u)
    (hclosed : DoneClosed tasks) (hids : IdsAscend tasks) {t : TaskRow} (ht : t ∈ tasks)
    (hd : t.state = .done) {a : String} (h : DependsOn (taskNodes tasks) t.templateTaskId a) :
    a < t.templateTaskId ∧ ∃ u ∈ tasks, u.templateTaskId = a ∧ u.state = .done := by
  have step : ∀ u ∈ tasks, u.state = .done → ∀ b, Edge (taskNodes tasks) u.templateTaskId b →
      b < u.templateTaskId ∧ ∃ v ∈ tasks, v.templateTaskId = b ∧ v.state = .done := by
    rintro u hu hdu b ⟨n, hn, hid, hb⟩
    obtain ⟨v, hv, rfl⟩ := List.mem_map.mp hn
    have hvu : v = u := hinj v hv u hu hid
    subst hvu
    exact ⟨hids v hv hdu b hb, hclosed v hv hdu b hb⟩
  induction h with
  | single he => exact step t ht hd _ he
  | tail _ he ih =>
    obtain ⟨hlt, u, hu, rfl, hdu⟩ := ih
    obtain ⟨hb, hv⟩ := step u hu hdu _ he
    exact ⟨hb.trans hlt, hv⟩

theorem dependentsFirst_iff (hinj : ∀ t ∈ tasks, ∀ u ∈ tasks,
      t.templateTaskId = u.templateTaskId → t = u)
    (hclosed : DoneClosed tasks) : DependentsFirst tasks ↔ IdsAscend tasks := by
  constructor
  · intro h t ht hd dep hdep
    obtain ⟨u, hu, rfl, hdu⟩ := hclosed t ht hd dep hdep
    apply (idxOf_lt_iff_of_descending walkIds_descending (mem_walkIds ht hd)
      (mem_walkIds hu hdu)).mp
    exact h t ht u hu hd hdu (.single (edge_of_dep ht hdep))
  · intro h t ht u hu hd hdu hdep
    apply (idxOf_lt_iff_of_descending walkIds_descending (mem_walkIds ht hd)
      (mem_walkIds hu hdu)).mpr
    exact (below_of_dependsOn hinj hclosed h ht hd hdep).1

end Order

/-- In every run the compensations follow the walk, and the walk has every completed task
before those it depends on exactly when the ids ascend along the dependencies. -/
theorem saga_order_iff (cfg : Config) (tenantId ritmId : String) (db : Db)
    (hclosed : DoneClosed (listTasksForRitm tenantId ritmId db)) :
    (∀ (r : UndoResult) (xs : List (UndoResult × Db)),
      (sagaResults
          (sagaAfter cfg ⟨tenantId, ritmId, .list⟩ ((r, db) :: xs)).phase).map (·.taskId) <+:
        (completedTasks (listTasksForRitm tenantId ritmId db)).map (·.taskId)) ∧
    (DependentsFirst (listTasksForRitm tenantId ritmId db) ↔
      IdsAscend (listTasksForRitm tenantId ritmId db)) := by
  constructor
  · intro r xs
    exact (saga_walks cfg tenantId ritmId db r xs).results_initial
  · exact dependentsFirst_iff (fun t ht u hu => listTasks_eq_of_template ht hu) hclosed

def doneTask (name : String) (deps : List String) : TaskRow :=
  { sampleTask name .automated (some "order_hardware_asset") deps with state := .done }

def accountTasks (account licence : String) : List TaskRow :=
  [doneTask account [], doneTask licence [account]]

theorem ritm_of_doneTask {account licence : String} :
    ∀ t ∈ accountTasks account licence,
      (t.tenantId, t.ritmId) = ritmKey (sampleRitm .inProgress 2) := by
  intro t ht
  simp only [accountTasks, List.mem_cons, List.not_mem_nil, or_false] at ht
  rcases ht with rfl | rfl <;> rfl

def accountOrder (account licence : String)
    (hk : ((accountTasks account licence).map taskKey).Nodup)
    (ha : ((accountTasks account licence).filterMap taskAlt).Nodup) : Db :=
  sampleDb (sampleRitm .inProgress 2) (accountTasks account licence) (by decide) hk ha
    ritm_of_doneTask

def oneDigitOrder : Db := accountOrder "t1" "t2" (by decide) (by decide)

def twoDigitOrder : Db := accountOrder "t9" "t10" (by decide) (by decide)

theorem oneDigit_closed : DoneClosed (listTasksForRitm "t" "RITM0000000001" oneDigitOrder) := by
  unfold DoneClosed
  decide

theorem oneDigit_undone_in_order :
    DependentsFirst (listTasksForRitm "t" "RITM0000000001" oneDigitOrder) := by
  apply (saga_order_iff sampleConfig "t" "RITM0000000001" oneDigitOrder oneDigit_closed).2.mpr
  unfold IdsAscend
  decide

/-- The account `t9` is compensated before the licence `t10` that was assigned on it. -/
theorem account_undone_first :
    DoneClosed (listTasksForRitm "t" "RITM0000000001" twoDigitOrder) ∧
      (∀ a, ¬ DependsOn (taskNodes (listTasksForRitm "t" "RITM0000000001" twoDigitOrder)) a a) ∧
      walkIds (listTasksForRitm "t" "RITM0000000001" twoDigitOrder) = ["t9", "t10"] ∧
      ¬ DependentsFirst (listTasksForRitm "t" "RITM0000000001" twoDigitOrder) := by
  have hnodes : taskNodes (listTasksForRitm "t" "RITM0000000001" twoDigitOrder) =
      [("t9", []), ("t10", ["t9"])] := by
    decide
  have hedge : ∀ x y, Edge [("t9", []), ("t10", ["t9"])] x y → x = "t10" ∧ y = "t9" := by
    rintro x y ⟨n, hn, rfl, hy⟩
    simp only [List.mem_cons, List.not_mem_nil, or_false] at hn
    rcases hn with rfl | rfl
    · cases hy
    · exact ⟨rfl, List.mem_singleton.mp hy⟩
  refine ⟨by unfold DoneClosed; decide, ?_, by decide, ?_⟩
  · intro a h
    rw [hnodes] at h
    obtain ⟨b, hab, _⟩ := Relation.TransGen.head'_iff.mp h
    obtain ⟨c, _, hca⟩ := Relation.TransGen.tail'_iff.mp h
    have : ("t10" : String) = "t9" := (hedge a b hab).1.symm.trans (hedge c a hca).2
    exact absurd this (by decide)
  · intro h
    have hlicence : doneTask "t10" ["t9"] ∈ listTasksForRitm "t" "RITM0000000001" twoDigitOrder :=
      mem_listTasks.mpr ⟨List.mem_cons_of_mem _ (List.mem_singleton_self _), rfl, rfl⟩
    have haccount : doneTask "t9" [] ∈ listTasksForRitm "t" "RITM0000000001" twoDigitOrder :=
      mem_listTasks.mpr ⟨List.mem_cons_self, rfl, rfl⟩
    have hlt := h _ hlicence _ haccount rfl rfl
      (.single (edge_of_dep hlicence (List.mem_singleton_self _)))
    exact absurd hlt (by decide)

end FulfillmentSagaOrder
