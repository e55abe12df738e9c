import OneOps.FulfillmentAtomicity
import OneOps.FulfillmentCompletion

/-! `fulfill_request` persists the plan that `execute_plan` is started on: a call that created
its request item and inserted as many tasks as the template has leaves the template's tasks
as pending rows. -/
namespace FulfillmentPersistence

open KeyedTable
open FulfillmentContracts
open FulfillmentDb
open FulfillmentPlanning
open FulfillmentSubmission
open FulfillmentAtomicity
open FulfillmentCompletion

def itemSpec (i : TaskPlanItem) : TaskSpec := ⟨i.templateTaskId, i.taskType, i.toolId, i.dependsOn⟩

/-- The insert loop on a new item: `n` rows stand, `todo` is left, the skipped tasks are gone. -/
structure Writing (template : CatalogTemplate) (t m : String) (todo : List TaskPlanItem) (n : ℕ)
    (db : Db) : Prop where
  item : ∃ r, getRitm t m db = some r ∧ r.state = .requested ∧
    r.totalTasks = template.tasks.length
  pending : ∀ r ∈ listTasksForRitm t m db, r.state = .pending
  rows : ∃ written : List TaskPlanItem,
    ((listTasksForRitm t m db).map rowSpec).Perm (written.map itemSpec) ∧ written.length = n ∧
      ((written ++ todo).map itemSpec).Sublist (template.tasks.map specOf)

theorem Writing.persisted {template : CatalogTemplate} {t m : String} {db : Db}
    (h : Writing template t m [] template.tasks.length db) : Persisted template t m db := by
  obtain ⟨written, hperm, hlen, hsub⟩ := h.rows
  rw [List.append_nil] at hsub
  have heq : written.map itemSpec = template.tasks.map specOf :=
    hsub.eq_of_length (by rw [List.length_map, List.length_map, hlen])
  exact ⟨h.item, heq ▸ hperm, h.pending⟩

def PersistOk (req : FulfillmentRequest) (template : CatalogTemplate) (db₀ db : Db) :
    FulfilPhase → Prop
  | .assertRequest | .duplicateGate | .loadTemplate =>
    db.requestItem = db₀.requestItem ∧ db.catalogItem = db₀.catalogItem
  | .idemLookup _ plan | .insertRitm _ plan =>
    db.requestItem = db₀.requestItem ∧ plan.tasks.map itemSpec = template.tasks.map specOf
  | .insertTasks _ m todo n =>
    getRitm req.tenantId m db₀ = none → Writing template req.tenantId m todo n db
  | .insertRun _ m n =>
    getRitm req.tenantId m db₀ = none → Writing template req.tenantId m [] n db
  | .returned o =>
    getRitm req.tenantId o.ritmId db₀ = none → o.tasksTotal = template.tasks.length →
      Persisted template req.tenantId o.ritmId db
  | .raised _ => True

section Steps

variable {req : FulfillmentRequest} {template : CatalogTemplate} {db₀ db db' : Db}
  {t m : String}

theorem PersistOk.of_plan {format : String → JsonObject → Except FormatError String}
    {vars : JsonObject} {plan : FulfillmentPlan}
    (h : materialisePlanFromTemplate format template vars = .ok plan) :
    plan.tasks.map itemSpec = template.tasks.map specOf := by
  have hbind := h
  rw [materialisePlanFromTemplate] at hbind
  obtain ⟨items, hitems, _⟩ := ExceptLoops.bind_eq_ok.mp hbind
  obtain ⟨plan', hplan, htasks⟩ := materialise_tasks format hitems
  rw [h] at hplan
  cases hplan
  rw [htasks]
  exact planItems_map format hitems specOf itemSpec fun _ _ => rfl

/-- A new item has no rows: the foreign key of the task table. -/
theorem listTasks_new (h : getRitm t m db = none) : listTasksForRitm t m db = [] := by
  refine List.eq_nil_iff_forall_not_mem.mpr fun r hr => ?_
  obtain ⟨hmem, rfl, rfl⟩ := mem_listTasks.mp hr
  exact Table.lookup_eq_none.mp h (db.task_ritm r hmem)

theorem writing_insertRitm {plan : FulfillmentPlan} {d : Draw}
    (hplan : plan.tasks.map itemSpec = template.tasks.map specOf)
    (h : insertRequestItem (newRitm req plan d db.now) (ritmIdOf_length d) db = .ok db') :
    Writing template req.tenantId (ritmIdOf d) plan.tasks 0 db' := by
  obtain ⟨hins, htask, _⟩ := insertRequestItem_ok h
  have hnew : getRitm req.tenantId (ritmIdOf d) db = none :=
    Table.lookup_eq_none.mpr (Table.insert_eq_some hins).2.1
  have hempty : listTasksForRitm req.tenantId (ritmIdOf d) db' = [] := by
    rw [FulfillmentWaves.listTasks_congr htask, listTasks_new hnew]
  refine ⟨⟨newRitm req plan d db.now, ?_, rfl, ?_⟩, ?_, [], ?_, rfl, ?_⟩
  · rw [getRitm, Table.lookup_insert hins]
    exact if_pos rfl
  · simpa [newRitm] using congrArg List.length hplan
  · rw [hempty]
    exact fun _ hr => by cases hr
  · rw [hempty]
    exact .refl _
  · rw [List.nil_append, hplan]

theorem Writing.insert {i : TaskPlanItem} {todo : List TaskPlanItem} {n : ℕ} {d : Draw}
    (h : Writing template req.tenantId m (i :: todo) n db)
    (hins : insertTask (newTask req m i d db.now) db = .ok db') :
    Writing template req.tenantId m todo (n + 1) db' := by
  obtain ⟨hrow, hitem, _⟩ := insertTask_ok hins
  have hrows : db'.task.rows = db.task.rows ++ [newTask req m i d db.now] :=
    (Table.insert_eq_some hrow).1
  have hlist : (listTasksForRitm req.tenantId m db').Perm
      (listTasksForRitm req.tenantId m db ++ [newTask req m i d db.now]) := by
    refine listTasks_perm.trans ?_
    rw [hrows, List.filter_append]
    refine List.Perm.append listTasks_perm.symm ?_
    simp [newTask]
  obtain ⟨written, hperm, hlen, hsub⟩ := h.rows
  refine ⟨?_, ?_, written ++ [i], ?_, ?_, ?_⟩
  · simp only [getRitm, hitem]
    exact h.item
  · intro r hr
    rcases List.mem_append.mp (hlist.mem_iff.mp hr) with hr | hr
    · exact h.pending r hr
    · rw [List.mem_singleton.mp hr]
      rfl
  · rw [List.map_append]
    refine (hlist.map rowSpec).trans ?_
    rw [List.map_append]
    exact hperm.append (.refl _)
  · rw [List.length_append, hlen]
    rfl
  · rw [List.append_assoc]
    exact hsub

theorem Writing.skip {i : TaskPlanItem} {todo : List TaskPlanItem} {n : ℕ}
    (h : Writing template t m (i :: todo) n db) : Writing template t m todo n db := by
  obtain ⟨written, hperm, hlen, hsub⟩ := h.rows
  refine ⟨h.item, h.pending, written, hperm, hlen, .trans ?_ hsub⟩
  exact ((List.sublist_cons_self i todo).append_left written).map itemSpec

theorem Writing.same {todo : List TaskPlanItem} {n : ℕ} (h : Writing template t m todo n db)
    (hs : SameItems db db') : Writing template t m todo n db' := by
  have hlist : listTasksForRitm t m db' = listTasksForRitm t m db :=
    FulfillmentWaves.listTasks_congr hs.task
  refine ⟨?_, ?_, ?_⟩
  · simp only [getRitm, hs.requestItem]
    exact h.item
  · rw [hlist]
    exact h.pending
  · rw [hlist]
    exact h.rows

theorem PersistOk.elapse {q : FulfilPhase} (h : PersistOk req template db₀ db q) (seconds : ℕ) :
    PersistOk req template db₀ (elapse seconds db) q := by
  cases q with
  | insertTasks name m todo n =>
    exact fun hnone => ⟨(h hnone).item, (h hnone).pending, (h hnone).rows⟩
  | insertRun name m n => exact fun hnone => ⟨(h hnone).item, (h hnone).pending, (h hnone).rows⟩
  | returned o =>
    exact fun hnone ht => ⟨(h hnone ht).item, (h hnone ht).rows, (h hnone ht).pending⟩
  | _ => exact h

theorem ritm_of_key {key m' : String} (h : findRitmByKey t key db = some m') :
    getRitm t m' db ≠ none := by
  obtain ⟨r, hr, rfl⟩ := Option.map_eq_some_iff.mp h
  have hmatch := List.find?_some hr
  simp only [decide_eq_true_eq] at hmatch
  intro hnone
  refine Table.lookup_eq_none.mp hnone ?_
  rw [← hmatch.1]
  exact List.mem_map_of_mem (List.mem_of_find?_eq_some hr)

theorem fulfilStep_persist {format : String → JsonObject → Except FormatError String}
    (htemplate : loadCatalogTemplate req.tenantId req.catalogItemId db₀ = .ok template) (d : Draw)
    {q : FulfilPhase} (h : PersistOk req template db₀ db q) :
    PersistOk req template db₀ (fulfilStep format req d db q).1
      (fulfilStep format req d db q).2 := by
  cases q with
  | assertRequest =>
    simp only [fulfilStep]
    split_ifs
    · exact h
    · trivial
  | duplicateGate =>
    simp only [fulfilStep]
    split
    · exact h
    · trivial
  | loadTemplate =>
    obtain ⟨hitem, hcat⟩ := h
    have hload : loadCatalogTemplate req.tenantId req.catalogItemId db = .ok template := by
      rw [← htemplate]
      simp only [loadCatalogTemplate, hcat]
    simp only [fulfilStep, hload]
    split
    · trivial
    · rename_i plan hplan
      split_ifs
      · exact ⟨hitem, PersistOk.of_plan hplan⟩
      · exact ⟨hitem, PersistOk.of_plan hplan⟩
  | idemLookup name plan =>
    simp only [fulfilStep]
    split
    · rename_i existing he
      intro hnone
      refine absurd ?_ (ritm_of_key he)
      simp only [getRitm, h.1]
      exact hnone
    · exact h
  | insertRitm name plan =>
    simp only [fulfilStep]
    split
    · rename_i hok
      exact fun _ => writing_insertRitm h.2 hok
    · trivial
    · trivial
  | insertTasks name m todo n =>
    cases todo with
    | nil => exact h
    | cons i todo =>
      simp only [fulfilStep]
      split
      · rename_i hok
        exact fun hnone => (h hnone).insert hok
      · exact fun hnone => (h hnone).skip
      · trivial
  | insertRun name m n =>
    simp only [fulfilStep]
    split
    · trivial
    · rename_i db' hrun
      intro hnone htotal
      have hn : n = template.tasks.length := htotal
      subst hn
      exact ((h hnone).same (insertRun_items hrun)).persisted
  | returned o => exact h
  | raised e => trivial

end Steps

/-- A call that created its item and counted all tasks of the template has persisted them. -/
theorem persisted_of_fulfil (format : String → JsonObject → Except FormatError String)
    {req : FulfillmentRequest} {template : CatalogTemplate} {db₀ : Db}
    (htemplate : loadCatalogTemplate req.tenantId req.catalogItemId db₀ = .ok template)
    (xs : List (ℕ × Draw)) {o : Outcome} (ho : (fulfilCall format req db₀ xs).phase = .returned o)
    (hnew : getRitm req.tenantId o.ritmId db₀ = none)
    (htotal : o.tasksTotal = template.tasks.length) :
    Persisted template req.tenantId o.ritmId (fulfilCall format req db₀ xs).db := by
  have hrun : ∀ (xs : List (ℕ × Draw)) (c : Call FulfilPhase),
      PersistOk req template db₀ c.db c.phase →
      PersistOk req template db₀ (xs.foldl (fulfilNext format req) c).db
        (xs.foldl (fulfilNext format req) c).phase := by
    intro xs
    induction xs with
    | nil => exact fun c h => h
    | cons x xs ih =>
      intro c h
      exact ih _ (fulfilStep_persist htemplate x.2 (h.elapse x.1))
  have hend := hrun xs ⟨db₀, .assertRequest, []⟩ ⟨rfl, rfl⟩
  change PersistOk req template db₀ _ (fulfilCall format req db₀ xs).phase at hend
  rw [ho] at hend
  exact hend hnew htotal

end FulfillmentPersistence
