import OneOps.FulfillmentLifecycle

/-! The wave loop of one `execute_plan` call that has the service to itself. A task starts
only when all it depends on is done, and a skipped task depends on a failed one. A skipped
dependency counts as satisfied, so this rests on the cascade: before readiness is computed
no waiting task depends on a failure. -/
namespace FulfillmentWaves

open KeyedTable
open DependencyClosure
open FulfillmentContracts
open FulfillmentDb
open FulfillmentInspection
open FulfillmentWorker
open FulfillmentSystem
open FulfillmentTaskProtocol
open FulfillmentLifecycle

def Solo (cfg : Config) (x y : World × Worker) : Prop :=
  ∃ n inp, y = workerStep cfg inp (tick n x.1) x.2

def SoloRun (cfg : Config) : World × Worker → World × Worker → Prop :=
  Relation.ReflTransGen (Solo cfg)

def rowsOf (x : World × Worker) : List TaskRow :=
  listTasksForRitm x.2.tenantId x.2.ritmId x.1.db

theorem SoloRun.invariant {cfg : Config} {Inv : World × Worker → Prop}
    (hstep : ∀ x y, Inv x → Solo cfg x y → Inv y) {x y : World × Worker} (h : SoloRun cfg x y)
    (hx : Inv x) : Inv y := by
  induction h with
  | refl => exact hx
  | tail _ hs ih => exact hstep _ _ ih hs

inductive WorkerActs (w : World) (k : Worker) (cfg : Config) : WorkerInput → Prop where
  | main : WorkerActs w k cfg .stmt
  | child (j : ℕ) (ci : ChildInput) (wave : ℕ) (children : List Child) (c : Child)
      (hp : k.phase = .running wave children) (hc : children[j]? = some c) :
      WorkerActs w k cfg (.child j ci)
  | idle (inp : WorkerInput) (h : workerStep cfg inp w k = (w, k)) : WorkerActs w k cfg inp

theorem workerActs (cfg : Config) (w : World) (k : Worker) (inp : WorkerInput) :
    WorkerActs w k cfg inp := by
  cases inp with
  | stmt => exact .main
  | child j ci =>
    cases hp : k.phase with
    | running wave children =>
      cases hc : children[j]? with
      | none => exact .idle _ (by simp [workerStep, hp, hc])
      | some c => exact .child j ci wave children c hp hc
    | _ => exact .idle _ (by simp [workerStep, hp])

theorem workerStep_ids (cfg : Config) (inp : WorkerInput) (w : World) (k : Worker) :
    (workerStep cfg inp w k).2.tenantId = k.tenantId ∧
      (workerStep cfg inp w k).2.ritmId = k.ritmId := by
  cases workerActs cfg w k inp with
  | main => exact ⟨rfl, rfl⟩
  | child j ci wave children c hp hc =>
    rw [workerStep_child hp hc]
    exact ⟨rfl, rfl⟩
  | idle inp h => rw [h]; exact ⟨rfl, rfl⟩

section Listing

variable {t m : String} {db : Db}

theorem listTasks_congr {db' : Db} (h : db'.task = db.task) :
    listTasksForRitm t m db' = listTasksForRitm t m db := by
  unfold listTasksForRitm
  rw [h]

theorem mem_list_updateTasks (p : TaskRow → Bool) (f : TaskRow → TaskRow) (hk hr ht)
    {r' : TaskRow} :
    r' ∈ listTasksForRitm t m (updateTasks p f hk hr ht db) ↔
      ∃ r ∈ listTasksForRitm t m db, r' = if p r then f r else r := by
  have hten : ∀ r, (if p r then f r else r).tenantId = r.tenantId := by
    intro r
    split
    · exact congrArg Prod.fst (hk r)
    · rfl
  have hrit : ∀ r, (if p r then f r else r).ritmId = r.ritmId := by
    intro r
    split
    · exact hr r
    · rfl
  rw [mem_listTasks]
  constructor
  · rintro ⟨h, ht, hm⟩
    obtain ⟨r, hr, rfl⟩ := List.mem_map.mp h
    exact ⟨r, mem_listTasks.mpr ⟨hr, hten r ▸ ht, hrit r ▸ hm⟩, rfl⟩
  · rintro ⟨r, hr, rfl⟩
    obtain ⟨hmem, ht, hm⟩ := mem_listTasks.mp hr
    exact ⟨List.mem_map.mpr ⟨r, hmem, rfl⟩, (hten r).trans ht, (hrit r).trans hm⟩

theorem mem_list_transition {a : TaskTransition} {r' : TaskRow} :
    r' ∈ listTasksForRitm t m (transitionTaskState a db).2 ↔
      ∃ r ∈ listTasksForRitm t m db, r' = if a.matches r then a.set db.now r else r :=
  mem_list_updateTasks a.matches (a.set db.now) (fun _ => rfl) (fun _ => rfl) (fun _ => rfl)

theorem mem_list_recover {minutes : ℕ} {t' m' : String} {r' : TaskRow} :
    r' ∈ listTasksForRitm t m (recoverStuckTasks t' m' minutes db) ↔
      ∃ r ∈ listTasksForRitm t m db,
        r' = if stuckTask t' m' minutes db.now r then recoverTask db.now r else r :=
  mem_list_updateTasks (stuckTask t' m' minutes db.now) (recoverTask db.now) (fun _ => rfl)
    (fun _ => rfl) (fun _ => rfl)

/-- The UNIQUE key of the task table makes template ids unique within a request item. -/
theorem list_eq_of_template {r q : TaskRow} (hr : r ∈ listTasksForRitm t m db)
    (hq : q ∈ listTasksForRitm t m db) (h : r.templateTaskId = q.templateTaskId) : r = q := by
  obtain ⟨hr, hrt, hrm⟩ := mem_listTasks.mp hr
  obtain ⟨hq, hqt, hqm⟩ := mem_listTasks.mp hq
  refine db.task.eq_of_alt hr hq (v := (t, m ++ ":" ++ q.templateTaskId)) ?_ ?_
  · simp [taskAlt, taskIdempotencyKey, hrt, hrm, h]
  · simp [taskAlt, taskIdempotencyKey, hqt, hqm]

theorem byTmpl_of_mem {r : TaskRow} (hr : r ∈ listTasksForRitm t m db) :
    byTmpl (listTasksForRitm t m db) r.templateTaskId = some r := by
  cases h : byTmpl (listTasksForRitm t m db) r.templateTaskId with
  | none =>
    have := List.find?_eq_none.mp h r (List.mem_reverse.mpr hr)
    simp at this
  | some q =>
    obtain ⟨hq, he⟩ := byTmpl_eq_some h
    rw [list_eq_of_template hq hr he]

end Listing

/-- Every row is kept or moved one edge, and no row comes or goes. -/
structure Evolved (T T' : List TaskRow) : Prop where
  fwd : ∀ r ∈ T, ∃ r' ∈ T', r' = r ∨ Advances r r'
  bwd : ∀ r' ∈ T', ∃ r ∈ T, r' = r ∨ Advances r r'

theorem evolved_of_write {db db' : Db} (hw : TaskWrite db db')
    (hkeys : db'.task.rows.map taskKey = db.task.rows.map taskKey) (t m : String) :
    Evolved (listTasksForRitm t m db) (listTasksForRitm t m db') := by
  constructor
  · intro r hr
    obtain ⟨hmem, ht, hm⟩ := mem_listTasks.mp hr
    obtain ⟨r', hr', hadv⟩ := taskWrite_row hw (Table.lookup_key hmem)
    obtain ⟨hmem', _⟩ := Table.lookup_eq_some.mp hr'
    refine ⟨r', mem_listTasks.mpr ⟨hmem', ?_, ?_⟩, hadv⟩
    · rcases hadv with rfl | hadv
      · exact ht
      · rw [hadv.same.tenantId, ht]
    · rcases hadv with rfl | hadv
      · exact hm
      · rw [hadv.same.ritmId, hm]
  · intro r' hr'
    obtain ⟨hmem', ht, hm⟩ := mem_listTasks.mp hr'
    have hin : taskKey r' ∈ db.task.rows.map taskKey := hkeys ▸ List.mem_map_of_mem hmem'
    obtain ⟨r, hmem, hkey⟩ := List.mem_map.mp hin
    obtain ⟨q, hq, hadv⟩ := taskWrite_row hw (Table.lookup_key hmem)
    rw [hkey, Table.lookup_key hmem'] at hq
    cases hq
    refine ⟨r, mem_listTasks.mpr ⟨hmem, ?_, ?_⟩, hadv⟩
    · rcases hadv with rfl | hadv
      · exact ht
      · rw [← hadv.same.tenantId, ht]
    · rcases hadv with rfl | hadv
      · exact hm
      · rw [← hadv.same.ritmId, hm]

theorem workerStep_keys (cfg : Config) (inp : WorkerInput) (w : World) (k : Worker) :
    (workerStep cfg inp w k).1.db.task.rows.map taskKey = w.db.task.rows.map taskKey := by
  cases workerActs cfg w k inp with
  | main => exact mainStep_keys cfg w k
  | child j ci wave children c hp hc =>
    rw [workerStep_child hp hc]
    exact childStep_keys ..
  | idle inp h => rw [h]

theorem workerStep_evolved (cfg : Config) {w : World} {k : Worker}
    (hk : PhaseWf k.tenantId k.phase) (inp : WorkerInput) :
    Evolved (rowsOf (w, k)) (rowsOf (workerStep cfg inp w k)) := by
  obtain ⟨ht, hm⟩ := workerStep_ids cfg inp w k
  simp only [rowsOf, ht, hm]
  exact evolved_of_write (workerStep_task hk inp) (workerStep_keys cfg inp w k) _ _

section Evolved

variable {T T' : List TaskRow}

theorem Evolved.edge_eq (h : Evolved T T') : Edge (taskNodes T') = Edge (taskNodes T) := by
  have same : ∀ {r r' : TaskRow}, r' = r ∨ Advances r r' →
      r'.templateTaskId = r.templateTaskId ∧ r'.dependsOn = r.dependsOn := by
    rintro r r' (rfl | hadv)
    · exact ⟨rfl, rfl⟩
    · exact ⟨hadv.same.templateTaskId, hadv.same.dependsOn⟩
  funext a b
  simp only [Edge, taskNodes, List.mem_map, eq_iff_iff]
  constructor
  · rintro ⟨n, ⟨r', hr', rfl⟩, ha, hb⟩
    obtain ⟨r, hr, hstep⟩ := h.bwd r' hr'
    obtain ⟨htmpl, hdep⟩ := same hstep
    exact ⟨_, ⟨r, hr, rfl⟩, by rw [← ha, htmpl], by rw [← hdep]; exact hb⟩
  · rintro ⟨n, ⟨r, hr, rfl⟩, ha, hb⟩
    obtain ⟨r', hr', hstep⟩ := h.fwd r hr
    obtain ⟨htmpl, hdep⟩ := same hstep
    exact ⟨_, ⟨r', hr', rfl⟩, by rw [← ha, htmpl], by rw [hdep]; exact hb⟩

theorem Evolved.dependsOn_eq (h : Evolved T T') :
    DependsOn (taskNodes T') = DependsOn (taskNodes T) := by
  simp only [DependencyClosure.DependsOn, h.edge_eq]

theorem Evolved.reaches_eq (h : Evolved T T') :
    Reaches (taskNodes T') = Reaches (taskNodes T) := by
  simp only [Reaches, h.edge_eq]

theorem Evolved.absorbed (h : Evolved T T') {r : TaskRow} (hr : r ∈ T)
    (ha : Absorbing r.state) : r ∈ T' := by
  obtain ⟨r', hr', rfl | hadv⟩ := h.fwd r hr
  · exact hr'
  · exact absurd ha (not_absorbing_of_moves hadv.moves)

def DepsDone (T : List TaskRow) (deps : List String) : Prop :=
  ∀ dep ∈ deps, ∃ d ∈ T, d.templateTaskId = dep ∧ d.state = .done

theorem DepsDone.evolved {deps : List String} (hd : DepsDone T deps) (h : Evolved T T') :
    DepsDone T' deps := by
  intro dep hdep
  obtain ⟨d, hdT, htmpl, hdone⟩ := hd dep hdep
  exact ⟨d, h.absorbed hdT (.inl hdone), htmpl, hdone⟩

end Evolved

/-- The states that a row can only have after a claim. -/
def Started (s : TaskState) : Prop := s = .inProgress ∨ s = .done ∨ s = .failed ∨ s = .blocked

def Poisoned (T : List TaskRow) (r : TaskRow) : Prop :=
  ∃ f ∈ T, f.state = .failed ∧ Reaches (taskNodes T) r.templateTaskId f.templateTaskId

def taskOf : Child → Option TaskRow
  | .claim task => some task
  | .approve task _ => some task
  | .dispatch task _ => some task
  | .calling task _ => some task
  | _ => none

def ChildOk (T : List TaskRow) (c : Child) : Prop :=
  ∀ task, taskOf c = some task → DepsDone T task.dependsOn ∧
    ∃ r ∈ T, r.taskId = task.taskId ∧ r.dependsOn = task.dependsOn

/-- What the phase of the worker says about the rows: the cascade still has all poisoned
waiting rows before it, nobody waits behind a failure once it is through, and children
work on rows whose dependencies are done. -/
def PhaseOk (T : List TaskRow) : Phase → Prop
  | .cascade _ todo => ∀ r ∈ T,
      (r.taskId, r.state, r.version) ∈ todo ↔ Waiting r.state ∧ Poisoned T r
  | .relist _ => ∀ r ∈ T, Waiting r.state → ¬ Poisoned T r
  | .running _ children => ∀ c ∈ children, ChildOk T c
  | .finalRead c => c.failureReason = none → ∀ r ∈ T, ¬ InFlight r.state
  | _ => True

structure WaveInvariant (x : World × Worker) : Prop where
  wf : PhaseWf x.2.tenantId x.2.phase
  started : ∀ r ∈ rowsOf x, Started r.state → DepsDone (rowsOf x) r.dependsOn
  skipped : ∀ r ∈ rowsOf x, r.state = .skipped → ∃ f ∈ rowsOf x, f.state = .failed ∧
    DependsOn (taskNodes (rowsOf x)) r.templateTaskId f.templateTaskId
  phase : PhaseOk (rowsOf x) x.2.phase
  calls : ∀ y ∈ x.1.calls, ∃ r ∈ rowsOf x, r.taskId = y.call.taskId ∧
    DepsDone (rowsOf x) r.dependsOn

section Step

variable {cfg : Config} {w : World} {k : Worker}

/-- What a step must bring along for the invariant, beside moving rows along their edges. -/
theorem waveInvariant_step {x y : World × Worker} (hx : WaveInvariant x)
    (h : Evolved (rowsOf x) (rowsOf y)) (hwf : PhaseWf y.2.tenantId y.2.phase)
    (hstart : ∀ r ∈ rowsOf x, ∀ r' ∈ rowsOf y, Advances r r' → r'.state = .inProgress →
      DepsDone (rowsOf x) r.dependsOn)
    (hskip : ∀ r ∈ rowsOf x, ∀ r' ∈ rowsOf y, Advances r r' → r'.state = .skipped →
      Waiting r.state ∧ Poisoned (rowsOf x) r)
    (hphase : PhaseOk (rowsOf y) y.2.phase)
    (hcalls : ∀ z ∈ y.1.calls, z ∈ x.1.calls ∨ ∃ r ∈ rowsOf x, r.taskId = z.call.taskId ∧
      DepsDone (rowsOf x) r.dependsOn) : WaveInvariant y := by
  refine ⟨hwf, ?_, ?_, hphase, ?_⟩
  · intro r' hr' hs'
    obtain ⟨r, hr, rfl | hadv⟩ := h.bwd r' hr'
    · exact (hx.started r' hr hs').evolved h
    · rw [hadv.same.dependsOn]
      refine DepsDone.evolved ?_ h
      rcases hs' with hs | hs
      · exact hstart r hr r' hr' hadv hs
      · refine hx.started r hr (.inl ?_)
        rcases hadv.moves with ⟨_, hm | hm⟩ | ⟨hm, _⟩
        · rw [hm] at hs
          simp at hs
        · rw [hm] at hs
          simp at hs
        · exact hm
  · intro r' hr' hs'
    obtain ⟨r, hr, rfl | hadv⟩ := h.bwd r' hr'
    · obtain ⟨f, hf, hfail, hdep⟩ := hx.skipped r' hr hs'
      exact ⟨f, h.absorbed hf (.inr (.inl hfail)), hfail, by rw [h.dependsOn_eq]; exact hdep⟩
    · obtain ⟨hw, f, hf, hfail, hreach⟩ := hskip r hr r' hr' hadv hs'
      refine ⟨f, h.absorbed hf (.inr (.inl hfail)), hfail, ?_⟩
      rw [h.dependsOn_eq, hadv.same.templateTaskId]
      rcases Relation.reflTransGen_iff_eq_or_transGen.mp hreach with he | hdep
      · have hrf : r = f := list_eq_of_template hr hf he.symm
        rw [hrf, hfail] at hw
        simp [Waiting] at hw
      · exact hdep
  · intro z hz
    have hold : ∃ r ∈ rowsOf x, r.taskId = z.call.taskId ∧ DepsDone (rowsOf x) r.dependsOn := by
      rcases hcalls z hz with hz | hz
      · exact hx.calls z hz
      · exact hz
    obtain ⟨r, hr, hid, hd⟩ := hold
    obtain ⟨r', hr', rfl | hadv⟩ := h.fwd r hr
    · exact ⟨r', hr', hid, hd.evolved h⟩
    · refine ⟨r', hr', hadv.same.taskId.trans hid, ?_⟩
      rw [hadv.same.dependsOn]
      exact hd.evolved h

/-- Steps that leave the task table alone. -/
theorem waveInvariant_keep {x y : World × Worker} (hx : WaveInvariant x)
    (hrows : rowsOf y = rowsOf x) (hwf : PhaseWf y.2.tenantId y.2.phase)
    (hphase : PhaseOk (rowsOf x) y.2.phase)
    (hcalls : ∀ z ∈ y.1.calls, z ∈ x.1.calls ∨ ∃ r ∈ rowsOf x, r.taskId = z.call.taskId ∧
      DepsDone (rowsOf x) r.dependsOn) : WaveInvariant y := by
  refine ⟨hwf, ?_, ?_, ?_, ?_⟩
  · rw [hrows]; exact hx.started
  · rw [hrows]; exact hx.skipped
  · rw [hrows]; exact hphase
  · rw [hrows]
    intro z hz
    rcases hcalls z hz with hz | hz
    · exact hx.calls z hz
    · exact hz

theorem ChildOk.evolved {T T' : List TaskRow} (h : Evolved T T') {c : Child} (hc : ChildOk T c) :
    ChildOk T' c := by
  intro task ht
  obtain ⟨hd, r, hr, hid, hdeps⟩ := hc task ht
  refine ⟨hd.evolved h, ?_⟩
  obtain ⟨r', hr', rfl | hadv⟩ := h.fwd r hr
  · exact ⟨r', hr', hid, hdeps⟩
  · exact ⟨r', hr', hadv.same.taskId.trans hid, hadv.same.dependsOn.trans hdeps⟩

theorem taskOf_afterClaim {tenantId : String} {task task' : TaskRow} {v : ℕ}
    (h : taskOf (afterClaim tenantId task v) = some task') : task = task' := by
  unfold afterClaim at h
  split_ifs at h <;> cases h <;> rfl

theorem childStep_taskOf {tenantId ritmId : String} {c : Child} {inp : ChildInput} {task : TaskRow}
    (h : taskOf (childStep cfg tenantId ritmId inp w c).2 = some task) : taskOf c = some task := by
  unfold childStep at h
  split at h
  · split at h
    · cases h
    · exact congrArg some (taskOf_afterClaim h)
  · split at h <;> cases h
  · split at h
    · exact h
    · cases h
  · cases h
  · cases h
  · cases h
  · cases h
  · cases h
  · cases h
  · exact h

theorem childStep_newCall {tenantId ritmId : String} {c : Child} {inp : ChildInput} {z : IssuedCall}
    (h : z ∈ (childStep cfg tenantId ritmId inp w c).1.calls) :
    z ∈ w.calls ∨ ∃ task, taskOf c = some task ∧ z.call.taskId = task.taskId := by
  unfold childStep at h
  split at h
  · split at h <;> exact .inl h
  · split at h <;> exact .inl h
  · rename_i task v _
    split at h
    · rcases List.mem_append.mp h with h | h
      · exact .inl h
      · rw [List.mem_singleton.mp h]
        exact .inr ⟨task, rfl, rfl⟩
    · exact .inl h
  all_goals exact .inl h

theorem poisoned_waiting_iff {T : List TaskRow} {r : TaskRow}
    (hone : ∀ u ∈ T, u.taskId = r.taskId → u = r) (hr : r ∈ T) :
    (r.taskId, r.state, r.version) ∈ transitivelyBlockedTaskIds T ↔
      Waiting r.state ∧ Poisoned T r := by
  rw [mem_transitivelyBlocked]
  constructor
  · rintro ⟨t, ht, he, hw, hp⟩
    rw [hone t ht (congrArg Prod.fst he).symm] at hw hp
    exact ⟨hw, hp⟩
  · rintro ⟨hw, hp⟩
    exact ⟨r, hr, rfl, hw, hp⟩

/-- Readiness over a listing in which nobody waits behind a failure: a dependency that
counts as satisfied is done, as a skipped one would put its dependent behind a failure. -/
theorem ready_depsDone {x : World × Worker} (hx : WaveInvariant x)
    (hclear : ∀ r ∈ rowsOf x, Waiting r.state → ¬ Poisoned (rowsOf x) r) {task : TaskRow}
    (h : task ∈ readyTasks (rowsOf x)) :
    task ∈ rowsOf x ∧ DepsDone (rowsOf x) task.dependsOn := by
  obtain ⟨hmem, u, hu, hid, hok⟩ := mem_readyTasks.mp h
  rw [listTasks_eq_of_taskId hu hmem hid] at hok
  obtain ⟨hw, hdeps⟩ := depsOk_iff.mp hok
  refine ⟨hmem, fun dep hdep => ?_⟩
  obtain ⟨d, hd, hs⟩ := depOk_iff.mp (hdeps dep hdep)
  obtain ⟨hdT, htmpl⟩ := byTmpl_eq_some hd
  refine ⟨d, hdT, htmpl, hs.resolve_right fun hskip => ?_⟩
  obtain ⟨f, hf, hfail, hreach⟩ := hx.skipped d hdT hskip
  have hedge : Edge (taskNodes (rowsOf x)) task.templateTaskId d.templateTaskId :=
    ⟨_, List.mem_map_of_mem hmem, rfl, htmpl ▸ hdep⟩
  exact hclear task hmem hw ⟨f, hf, hfail, .head hedge hreach.to_reflTransGen⟩

theorem phaseOk_decideWave {x : World × Worker} (hx : WaveInvariant x)
    (hclear : ∀ r ∈ rowsOf x, Waiting r.state → ¬ Poisoned (rowsOf x) r) (wave : ℕ) :
    PhaseOk (rowsOf x) (decideWave wave (rowsOf x)) := by
  unfold decideWave
  split
  · rename_i outcome h
    intro _ r hr hf
    have hnone := isTerminal_eq_none.mpr ⟨r, hr, hf⟩
    rw [h] at hnone
    cases hnone
  · split_ifs
    · trivial
    · intro c hc task ht
      obtain ⟨u, hu, rfl⟩ := List.mem_map.mp hc
      cases ht
      obtain ⟨hmem, hd⟩ := ready_depsDone hx hclear hu
      exact ⟨hd, task, hmem, rfl, rfl⟩

theorem phaseOk_report {T : List TaskRow} (ritm : RitmRow) (o : FulfillmentOutcome)
    (run : Option String) (tasks : List TaskRow) (display : String) :
    PhaseOk T (report k ritm o run tasks display) := by
  unfold report
  split <;> trivial

/-- The statements of the wave loop that do not write task rows. -/
theorem mainStep_phaseOk (hx : WaveInvariant (w, k)) (hr : k.phase ≠ .recover)
    (hc : ∀ wave x todo, k.phase ≠ .cascade wave (x :: todo)) :
    PhaseOk (rowsOf (w, k)) (mainStep cfg w k).2 := by
  have hphase := hx.phase
  have hone : ∀ r ∈ rowsOf (w, k), ∀ u ∈ rowsOf (w, k), u.taskId = r.taskId → u = r :=
    fun r hr u hu => listTasks_eq_of_taskId hu hr
  unfold mainStep
  split
  · trivial
  · split
    · trivial
    · dsimp only
      split <;> trivial
  · trivial
  · rename_i h
    exact absurd h hr
  · dsimp only
    split
    · rename_i hnil
      refine phaseOk_decideWave hx (fun r hr hw hp => ?_) _
      have hmem := (poisoned_waiting_iff (hone r hr) hr).mpr ⟨hw, hp⟩
      have hnil' : transitivelyBlockedTaskIds (rowsOf (w, k)) = [] := List.isEmpty_iff.mp hnil
      rw [hnil'] at hmem
      cases hmem
    · exact fun r hr => poisoned_waiting_iff (hone r hr) hr
  · rename_i h
    rw [h] at hphase
    intro r hr hw hp
    cases (hphase r hr).mpr ⟨hw, hp⟩
  · rename_i wave x todo h
    exact absurd h (hc wave x todo)
  · rename_i h
    rw [h] at hphase
    exact phaseOk_decideWave hx hphase _
  · rename_i h
    rw [h] at hphase
    dsimp only
    split
    · unfold nextWave
      split
      · trivial
      · intro hn
        cases hn
    · exact hphase
  · split
    · trivial
    · dsimp only
      split <;> trivial
  · trivial
  · trivial
  · split
    · exact phaseOk_report ..
    · trivial
  · split
    · trivial
    · exact phaseOk_report ..
  · trivial
  · trivial
  · trivial
  · exact phaseOk_report ..
  · trivial
  · trivial

theorem state_transition {a : TaskTransition} {r r' : TaskRow} {now : ℕ} (hadv : Advances r r')
    (h : r' = if a.matches r then a.set now r else r) :
    a.matches r = true ∧ r'.state = a.toState := by
  split at h
  · rename_i hm
    exact ⟨hm, by rw [h]; rfl⟩
  · have := hadv.version
    rw [h] at this
    omega

theorem list_transition_moved {a : TaskTransition} {db : Db} {t m : String} {r r' : TaskRow}
    (hr : r ∈ listTasksForRitm t m db)
    (hr' : r' ∈ listTasksForRitm t m (transitionTaskState a db).2) (hadv : Advances r r') :
    a.matches r = true ∧ r'.state = a.toState := by
  obtain ⟨q, hq, he⟩ := mem_list_transition.mp hr'
  have hid : q.taskId = r.taskId := by
    rw [← hadv.same.taskId, he]
    split <;> rfl
  rw [listTasks_eq_of_taskId hq hr hid] at he
  exact state_transition hadv he

/-- A row that the step of a child moves is the task it claims, or it takes the state the
child settles on, which no row waits in. -/
theorem childStep_moved {cfg : Config} {tenantId ritmId t m : String} {w : World} {c : Child}
    {ci : ChildInput} {r r' : TaskRow} (hwf : ChildWf tenantId c)
    (hr : r ∈ listTasksForRitm t m w.db)
    (hr' : r' ∈ listTasksForRitm t m (childStep cfg tenantId ritmId ci w c).1.db)
    (hadv : Advances r r') :
    (∃ task, c = .claim task ∧ r.taskId = task.taskId ∧ r'.state = .inProgress) ∨
      ∃ a, c = .settle a ∧ r.taskId = a.taskId ∧ r'.state = a.toState ∧
        r'.state ≠ .inProgress ∧ r'.state ≠ .skipped := by
  rcases childStep_task_cases cfg tenantId ritmId w c ci with he | ⟨task, rfl, he⟩ |
    ⟨a, _, rfl, _, he⟩
  · rw [listTasks_congr he] at hr'
    have hv := hadv.version
    rw [listTasks_eq_of_taskId hr' hr hadv.same.taskId] at hv
    omega
  · rw [he] at hr'
    obtain ⟨hm, hto⟩ := list_transition_moved hr hr' hadv
    exact .inl ⟨task, rfl, congrArg Prod.snd (TaskTransition.matches_iff.mp hm).1, hto⟩
  · rw [he] at hr'
    obtain ⟨hm, hto⟩ := list_transition_moved hr hr' hadv
    have hmoves : Moves .inProgress r'.state := by
      rw [hto]
      exact hwf.2.2
    refine .inr ⟨a, rfl, congrArg Prod.snd (TaskTransition.matches_iff.mp hm).1, hto, ?_, ?_⟩
    all_goals
      intro hs
      rw [hs] at hmoves
      simp [Moves, Waiting] at hmoves

theorem list_recover_moved {minutes : ℕ} {db : Db} {t m t' m' : String} {r r' : TaskRow}
    (hr : r ∈ listTasksForRitm t m db)
    (hr' : r' ∈ listTasksForRitm t m (recoverStuckTasks t' m' minutes db)) (hadv : Advances r r') :
    r'.state = .ready := by
  obtain ⟨q, hq, he⟩ := mem_list_recover.mp hr'
  split at he
  · rw [he]
    rfl
  · have hid : q.taskId = r.taskId := by rw [← hadv.same.taskId, he]
    have hqr := listTasks_eq_of_taskId hq hr hid
    have := hadv.version
    rw [he, hqr] at this
    omega

theorem recover_inv (hx : WaveInvariant (w, k)) (hp : k.phase = .recover)
    (hwf : PhaseWf k.tenantId (workerStep cfg .stmt w k).2.phase)
    (h : Evolved (rowsOf (w, k)) (rowsOf (workerStep cfg .stmt w k))) :
    WaveInvariant (workerStep cfg .stmt w k) := by
  let db := recoverStuckTasks k.tenantId k.ritmId cfg.stuckTaskRecoveryMinutes w.db
  have hstep : workerStep cfg .stmt w k = ({ w with db := db }, { k with phase := .list 0 }) := by
    simp [workerStep, mainStep, hp, db]
  rw [hstep] at h hwf ⊢
  have hready : ∀ r ∈ rowsOf (w, k),
      ∀ r' ∈ rowsOf (({ w with db := db } : World), ({ k with phase := .list 0 } : Worker)),
      Advances r r' → r'.state = .ready := fun r hr r' hr' => list_recover_moved hr hr'
  refine waveInvariant_step hx h hwf ?_ ?_ trivial fun z hz => .inl hz
  · intro r hr r' hr' hadv hs
    rw [hready r hr r' hr' hadv] at hs
    cases hs
  · intro r hr r' hr' hadv hs
    rw [hready r hr r' hr' hadv] at hs
    cases hs

theorem poisoned_evolved {T T' : List TaskRow} (h : Evolved T T')
    (hfail : ∀ f ∈ T', f.state = .failed → f ∈ T) {r r' : TaskRow}
    (ht : r'.templateTaskId = r.templateTaskId) : Poisoned T' r' ↔ Poisoned T r := by
  unfold Poisoned
  rw [h.reaches_eq, ht]
  constructor
  · rintro ⟨f, hf, hs, hreach⟩
    exact ⟨f, hfail f hf hs, hs, hreach⟩
  · rintro ⟨f, hf, hs, hreach⟩
    exact ⟨f, h.absorbed hf (.inr (.inl hs)), hs, hreach⟩

/-- One skip of the cascade: the row at its head leaves the waiting states. -/
theorem cascade_inv (hx : WaveInvariant (w, k)) {wave : ℕ} {x : String × TaskState × ℕ}
    {todo : List (String × TaskState × ℕ)} (hp : k.phase = .cascade wave (x :: todo))
    (hwf : PhaseWf k.tenantId (workerStep cfg .stmt w k).2.phase)
    (h : Evolved (rowsOf (w, k)) (rowsOf (workerStep cfg .stmt w k))) :
    WaveInvariant (workerStep cfg .stmt w k) := by
  let db := (transitionTaskState (skipWrite k x) w.db).2
  have hstep : workerStep cfg .stmt w k =
      ({ w with db := db }, { k with phase := .cascade wave todo }) := by
    simp [workerStep, mainStep, hp, db]
  rw [hstep] at h hwf ⊢
  have hphase := hx.phase
  rw [hp] at hphase
  have hmatch : ∀ r ∈ rowsOf (w, k), (skipWrite k x).matches r = true ↔
      (r.taskId, r.state, r.version) = x := by
    intro r hr
    obtain ⟨_, ht, _⟩ := mem_listTasks.mp hr
    rw [TaskTransition.matches_iff]
    simp [skipWrite, plain, taskKey, show r.tenantId = k.tenantId from ht, Prod.ext_iff]
  refine waveInvariant_step hx h hwf ?_ ?_ ?_ fun z hz => .inl hz
  · intro r hr r' hr' hadv hs
    rw [(list_transition_moved hr hr' hadv).2] at hs
    cases hs
  · intro r hr r' hr' hadv _
    have hm := (hmatch r hr).mp (list_transition_moved hr hr' hadv).1
    exact (hphase r hr).mp (hm ▸ List.mem_cons_self)
  · have hfail : ∀ f ∈ rowsOf (({ w with db := db } : World),
        ({ k with phase := .cascade wave todo } : Worker)), f.state = .failed →
        f ∈ rowsOf (w, k) := by
      intro f hf hs
      obtain ⟨q, hq, rfl⟩ := mem_list_transition.mp hf
      split at hs
      · cases hs
      · rename_i hm
        rw [if_neg hm]
        exact hq
    intro r' hr'
    obtain ⟨r, hr, he⟩ := mem_list_transition.mp hr'
    by_cases hm : (skipWrite k x).matches r = true
    · rw [if_pos hm] at he
      have hs : r'.state = .skipped := by rw [he]; rfl
      constructor
      · intro hin
        have hwait := hx.wf
        simp only [hp] at hwait
        have := hwait _ (List.mem_cons_of_mem x hin)
        rw [hs] at this
        simp [Waiting] at this
      · rintro ⟨hw, _⟩
        rw [hs] at hw
        simp [Waiting] at hw
    · rw [if_neg hm] at he
      subst he
      rw [poisoned_evolved h hfail rfl, ← hphase r' hr, List.mem_cons]
      have hne : (r'.taskId, r'.state, r'.version) ≠ x := fun he => hm ((hmatch r' hr).mpr he)
      simp [hne]

theorem child_inv (hx : WaveInvariant (w, k)) {wave j : ℕ} {children : List Child} {c : Child}
    {ci : ChildInput} (hp : k.phase = .running wave children) (hc : children[j]? = some c)
    (hwf : PhaseWf k.tenantId (workerStep cfg (.child j ci) w k).2.phase)
    (h : Evolved (rowsOf (w, k)) (rowsOf (workerStep cfg (.child j ci) w k))) :
    WaveInvariant (workerStep cfg (.child j ci) w k) := by
  have hchildren : ∀ d ∈ children, ChildOk (rowsOf (w, k)) d := by
    have := hx.phase
    rw [hp] at this
    exact this
  have hok := hchildren c (List.mem_of_getElem? hc)
  have hcwf : ChildWf k.tenantId c := by
    have := hx.wf
    simp only [hp] at this
    exact this c (List.mem_of_getElem? hc)
  rw [workerStep_child hp hc] at h hwf ⊢
  refine waveInvariant_step hx h hwf ?_ ?_ ?_ ?_
  · intro r hr r' hr' hadv hs
    rcases childStep_moved hcwf hr hr' hadv with ⟨task, rfl, hid, _⟩ | ⟨_, _, _, _, hne, _⟩
    · obtain ⟨hd, q, hq, hqid, hdeps⟩ := hok task rfl
      rw [listTasks_eq_of_taskId hr hq (hid.trans hqid.symm), hdeps]
      exact hd
    · exact absurd hs hne
  · intro r hr r' hr' hadv hs
    rcases childStep_moved hcwf hr hr' hadv with ⟨_, _, _, hto⟩ | ⟨_, _, _, _, _, hne⟩
    · rw [hto] at hs
      cases hs
    · exact absurd hs hne
  · intro d hd
    rcases List.mem_or_eq_of_mem_set hd with hd | rfl
    · exact (hchildren d hd).evolved h
    · intro task ht
      exact (hok.evolved h) task (childStep_taskOf ht)
  · intro z hz
    rcases childStep_newCall hz with hz | ⟨task, ht, hid⟩
    · exact .inl hz
    · obtain ⟨hd, r, hr, hrid, hdeps⟩ := hok task ht
      exact .inr ⟨r, hr, hrid.trans hid.symm, hdeps ▸ hd⟩

theorem workerStep_inv (hx : WaveInvariant (w, k)) (inp : WorkerInput) :
    WaveInvariant (workerStep cfg inp w k) := by
  have h : Evolved (rowsOf (w, k)) (rowsOf (workerStep cfg inp w k)) :=
    workerStep_evolved cfg hx.wf inp
  have hwf : PhaseWf (workerStep cfg inp w k).2.tenantId (workerStep cfg inp w k).2.phase :=
    workerStep_wf hx.wf inp
  rw [(workerStep_ids cfg inp w k).1] at hwf
  cases workerActs cfg w k inp with
  | main =>
    by_cases hr : k.phase = .recover
    · exact recover_inv hx hr hwf h
    · by_cases hc : ∃ wave x todo, k.phase = .cascade wave (x :: todo)
      · obtain ⟨wave, x, todo, hp⟩ := hc
        exact cascade_inv hx hp hwf h
      · have hc' : ∀ wave x todo, k.phase ≠ .cascade wave (x :: todo) :=
          fun wave x todo hp => hc ⟨wave, x, todo, hp⟩
        have htask : (mainStep cfg w k).1.db.task = w.db.task := by
          rcases mainStep_task_cases cfg w k with he | ⟨he, _⟩ | ⟨wave, x, todo, he, _⟩
          · exact he
          · exact absurd he hr
          · exact absurd he (hc' wave x todo)
        have hrows : rowsOf (workerStep cfg .stmt w k) = rowsOf (w, k) := listTasks_congr htask
        refine waveInvariant_keep hx hrows hwf (mainStep_phaseOk hx hr hc') fun z hz => .inl ?_
        have hlog : (mainStep cfg w k).1.calls = w.calls := (mainStep_logs cfg w k).2.1
        exact hlog ▸ hz
  | child j ci wave children c hp hc => exact child_inv hx hp hc hwf h
  | idle inp he => rw [he]; exact hx

theorem solo_inv {x y : World × Worker} (hx : WaveInvariant x) (h : Solo cfg x y) :
    WaveInvariant y := by
  obtain ⟨n, inp, rfl⟩ := h
  have hx' : WaveInvariant (tick n x.1, x.2) :=
    ⟨hx.wf, hx.started, hx.skipped, hx.phase, hx.calls⟩
  exact workerStep_inv hx' inp

end Step

/-- Everything a started row depends on, directly or not, is done. -/
theorem depends_done {x : World × Worker} (hx : WaveInvariant x) {r : TaskRow} (hr : r ∈ rowsOf x)
    (hd : DepsDone (rowsOf x) r.dependsOn) {b : String}
    (h : DependsOn (taskNodes (rowsOf x)) r.templateTaskId b) :
    ∃ d ∈ rowsOf x, d.templateTaskId = b ∧ d.state = .done := by
  have hstep : ∀ {q : TaskRow}, q ∈ rowsOf x → DepsDone (rowsOf x) q.dependsOn → ∀ {c : String},
      Edge (taskNodes (rowsOf x)) q.templateTaskId c →
      ∃ d ∈ rowsOf x, d.templateTaskId = c ∧ d.state = .done := by
    rintro q hq hqd c ⟨n, hn, he, hc⟩
    obtain ⟨u, hu, rfl⟩ := List.mem_map.mp hn
    rw [list_eq_of_template hu hq he] at hc
    exact hqd c hc
  have hclosed : ∀ a c, (∃ d ∈ rowsOf x, d.templateTaskId = a ∧ d.state = .done) →
      Edge (taskNodes (rowsOf x)) a c → ∃ d ∈ rowsOf x, d.templateTaskId = c ∧ d.state = .done := by
    rintro a c ⟨d, hdT, rfl, hdone⟩ he
    exact hstep hdT (hx.started d hdT (.inr (.inl hdone))) he
  rcases Relation.TransGen.head'_iff.mp h with ⟨a, he, hrest⟩
  have ha := hstep hr hd he
  rcases Relation.reflTransGen_iff_eq_or_transGen.mp hrest with rfl | hrest
  · exact ha
  · exact dependsOn_closed hclosed ha hrest

def closing : Phase → Bool
  | .finalRead _ | .finalList _ _ | .finalWrite _ _ | .finalRun _ _ | .finalStamp _ _ _
  | .returned _ | .raised _ => true
  | _ => false

theorem closing_report (k : Worker) (ritm : RitmRow) (o : FulfillmentOutcome) (run : Option String)
    (tasks : List TaskRow) (display : String) :
    closing (report k ritm o run tasks display) = true := by
  unfold report
  split <;> rfl

theorem mainStep_closing (cfg : Config) (w : World) (k : Worker) (h : closing k.phase = true) :
    (mainStep cfg w k).1.db.task = w.db.task ∧ closing (mainStep cfg w k).2 = true := by
  refine ⟨?_, ?_⟩
  · rcases mainStep_task_cases cfg w k with he | ⟨he, _⟩ | ⟨wave, x, todo, he, _⟩
    · exact he
    · rw [he] at h
      cases h
    · rw [he] at h
      cases h
  · unfold mainStep
    split
    all_goals try (rename_i hp; rw [hp] at h; cases h; done)
    · split
      · rfl
      · dsimp only
        split <;> rfl
    · rfl
    · rfl
    · split
      · exact closing_report ..
      · rfl
    · split
      · rfl
      · exact closing_report ..
    · rfl
    · rfl

theorem closing_frozen {cfg : Config} {x y : World × Worker} (h : SoloRun cfg x y)
    (hx : closing x.2.phase = true) : rowsOf y = rowsOf x := by
  have main : rowsOf y = rowsOf x ∧ closing y.2.phase = true := by
    induction h with
    | refl => exact ⟨rfl, hx⟩
    | @tail y z _ hs ih =>
      obtain ⟨n, inp, rfl⟩ := hs
      cases workerActs cfg (tick n y.1) y.2 inp with
      | main =>
        obtain ⟨ht, hc⟩ := mainStep_closing cfg (tick n y.1) y.2 ih.2
        exact ⟨(listTasks_congr ht).trans ih.1, hc⟩
      | child j ci wave children c hp hc =>
        rw [hp] at ih
        cases ih.2
      | idle inp he => rw [he]; exact ih
  exact main.1

def freshCall (w : World) (t m : String) : World × Worker := (w, ⟨t, m, .readRitm⟩)

theorem freshCall_inv {w : World} {t m : String}
    (hp : ∀ r ∈ listTasksForRitm t m w.db, r.state = .pending) (hc : w.calls = []) :
    WaveInvariant (freshCall w t m) := by
  refine ⟨trivial, ?_, ?_, trivial, ?_⟩
  · intro r hr hs
    rw [hp r hr] at hs
    simp [Started] at hs
  · intro r hr hs
    rw [hp r hr] at hs
    cases hs
  · intro y hy
    rw [freshCall, hc] at hy
    cases hy

theorem run_inv {cfg : Config} {x y : World × Worker} (h : SoloRun cfg x y)
    (hx : WaveInvariant x) : WaveInvariant y :=
  SoloRun.invariant (fun _ _ => solo_inv) h hx

/-- No adapter call is issued for a task that depends on a failed one, and when the terminal
check ends a run with no task blocked, the skipped tasks are those that did not fail but
depend on a failure, and all other tasks that did not fail are done. -/
theorem failure_isolation (cfg : Config) {w : World} {t m : String}
    (hpending : ∀ r ∈ listTasksForRitm t m w.db, r.state = .pending) (hcalls : w.calls = []) :
    (∀ y, SoloRun cfg (freshCall w t m) y → ∀ z ∈ y.1.calls, ∃ r ∈ rowsOf y,
      r.taskId = z.call.taskId ∧ ∀ f ∈ rowsOf y, f.state = .failed →
        ¬ DependsOn (taskNodes (rowsOf y)) r.templateTaskId f.templateTaskId) ∧
    ∀ y z c, SoloRun cfg (freshCall w t m) y → y.2.phase = .finalRead c →
      c.failureReason = none → SoloRun cfg y z → (∀ r ∈ rowsOf z, r.state ≠ .blocked) →
      ∀ r ∈ rowsOf z,
        (r.state = .skipped ↔ r.state ≠ .failed ∧ ∃ f ∈ rowsOf z, f.state = .failed ∧
          DependsOn (taskNodes (rowsOf z)) r.templateTaskId f.templateTaskId) ∧
        (r.state ≠ .failed → r.state ≠ .skipped → r.state = .done) := by
  have start := freshCall_inv hpending hcalls
  have apart : ∀ {x : World × Worker}, WaveInvariant x → ∀ {r : TaskRow}, r ∈ rowsOf x →
      DepsDone (rowsOf x) r.dependsOn → ∀ f ∈ rowsOf x, f.state = .failed →
      ¬ DependsOn (taskNodes (rowsOf x)) r.templateTaskId f.templateTaskId := by
    intro x hx r hr hd f hf hfail hdep
    obtain ⟨d, hdT, htmpl, hdone⟩ := depends_done hx hr hd hdep
    rw [list_eq_of_template hdT hf htmpl, hfail] at hdone
    cases hdone
  constructor
  · intro y hy z hz
    have inv := run_inv hy start
    obtain ⟨r, hr, hid, hd⟩ := inv.calls z hz
    exact ⟨r, hr, hid, apart inv hr hd⟩
  · intro y z c hy hphase hnone hyz hblocked r hr
    have inv := run_inv hy start
    have hquiet := inv.phase
    rw [hphase] at hquiet
    rw [closing_frozen hyz (by rw [hphase]; rfl)] at hblocked hr ⊢
    have hstate : r.state = .done ∨ r.state = .failed ∨ r.state = .skipped := by
      have h₁ := hquiet hnone r hr
      have h₂ := hblocked r hr
      cases hs : r.state <;> simp_all [InFlight]
    refine ⟨⟨fun hs => ⟨by simp [hs], inv.skipped r hr hs⟩, ?_⟩, ?_⟩
    · rintro ⟨hne, f, hf, hfail, hdep⟩
      rcases hstate with hs | hs | hs
      · exact absurd hdep (apart inv hr (inv.started r hr (.inr (.inl hs))) f hf hfail)
      · exact absurd hs hne
      · exact hs
    · intro h₁ h₂
      rcases hstate with hs | hs | hs
      · exact hs
      · exact absurd hs h₁
      · exact absurd hs h₂

def soloPlay (cfg : Config) (x : World × Worker) (inps : List WorkerInput) : World × Worker :=
  inps.foldl (fun x inp => workerStep cfg inp x.1 x.2) x

theorem soloRun_play (cfg : Config) :
    ∀ (inps : List WorkerInput) (x : World × Worker), SoloRun cfg x (soloPlay cfg x inps) := by
  intro inps
  induction inps with
  | nil => exact fun x => .refl
  | cons inp inps ih => exact fun x => .head ⟨0, inp, rfl⟩ (ih _)

theorem requestedTwo_length : (sampleRitm .requested 2).ritmId.length = 14 := by decide

def twoTasks : Db :=
  sampleDb (sampleRitm .requested 2)
    [sampleTask "a" .automated (some "order_hardware_asset") [], sampleTask "b" .manual none ["a"]]
    requestedTwo_length (by decide) (by decide) (by decide)

def twoTasksCall : World × Worker := freshCall ⟨twoTasks, [], [], []⟩ "t" "RITM0000000001"

/-- The call of `a` fails, the second wave skips `b` and finds nothing in flight. -/
def failedWave : List WorkerInput :=
  [.stmt, .stmt, .stmt, .stmt, .child 0 (.stmt ""), .child 0 (.stmt ""),
    .child 0 (.result (.answer ⟨false, none, some .permanent, none⟩)), .child 0 (.stmt ""),
    .stmt, .stmt, .stmt, .stmt, .stmt]

def failedWaveEnd : World × Worker := soloPlay sampleConfig twoTasksCall failedWave

theorem failure_isolation_failedWave :
    (rowsOf failedWaveEnd).map (fun r => (r.templateTaskId, r.state)) =
      [("a", .failed), ("b", .skipped)] ∧
    ∀ r ∈ rowsOf failedWaveEnd, r.state = .skipped ↔ r.state ≠ .failed ∧
      ∃ f ∈ rowsOf failedWaveEnd, f.state = .failed ∧
        DependsOn (taskNodes (rowsOf failedWaveEnd)) r.templateTaskId f.templateTaskId := by
  refine ⟨by decide, fun r hr => ?_⟩
  have hphase : failedWaveEnd.2.phase = .finalRead ⟨.failed, rowsOf failedWaveEnd, none⟩ := rfl
  exact ((failure_isolation sampleConfig (w := ⟨twoTasks, [], [], []⟩) (by decide) rfl).2 _ _ _
    (soloRun_play sampleConfig failedWave twoTasksCall) hphase rfl .refl (by decide) r hr).1

end FulfillmentWaves
