import OneOps.FulfillmentVerdict

/-! A call of `execute_plan` on a freshly persisted plan whose adapter calls all succeed. After
`n` waves the tasks that are resolved after `n` rounds are done and all others are pending,
so the wave budget bounds the depth of the plans a single call can finish. -/
namespace FulfillmentCompletion

open KeyedTable
open DependencyClosure
open FairExecution
open FulfillmentContracts
open FulfillmentDb
open FulfillmentInspection
open FulfillmentWorker
open FulfillmentSystem
open FulfillmentTaskProtocol
open FulfillmentLifecycle
open FulfillmentWaves
open FulfillmentTermination
open FulfillmentVerdict

structure TaskSpec where
  id : String
  type : TaskType
  toolId : Option String
  dependsOn : List String

def specOf (x : CatalogTemplateTask) : TaskSpec := ⟨x.taskId, x.type, x.toolId, x.dependsOn⟩

def rowSpec (r : TaskRow) : TaskSpec := ⟨r.templateTaskId, r.taskType, r.toolId, r.dependsOn⟩

/-- The rows `fulfill_request` leaves for a template. -/
structure Persisted (template : CatalogTemplate) (t m : String) (db : Db) : Prop where
  item : ∃ r, getRitm t m db = some r ∧ r.state = .requested ∧
    r.totalTasks = template.tasks.length
  rows : ((listTasksForRitm t m db).map rowSpec).Perm (template.tasks.map specOf)
  pending : ∀ r ∈ listTasksForRitm t m db, r.state = .pending

def Bound (cfg : Config) (s : TaskSpec) : Prop :=
  s.type = .manual ∨ ∃ tool, s.toolId = some tool ∧ tool ≠ "" ∧ cfg.hasMethod tool = true

def NoApproval (s : TaskSpec) : Prop := s.toolId ≠ some "request_human_approval"

/-- Inputs of a run in which no statement raises and every adapter call succeeds. -/
def Succeeds : WorkerInput → Prop
  | .child _ .fault => False
  | .child _ (.result (.answer r)) => r.success = true
  | .child _ (.result _) => False
  | _ => True

def SmoothSolo (cfg : Config) (x y : World × Worker) : Prop :=
  ∃ n inp, Succeeds inp ∧ y = workerStep cfg inp (tick n x.1) x.2

theorem SmoothSolo.solo {cfg : Config} {x y : World × Worker} (h : SmoothSolo cfg x y) :
    Solo cfg x y := by
  obtain ⟨n, inp, _, he⟩ := h
  exact ⟨n, inp, he⟩

section Specs

variable {t m : String} {db : Db}

/-- Sorting aside, a listing is the filtered table. -/
theorem listTasks_perm : (listTasksForRitm t m db).Perm
    (db.task.rows.filter fun r => r.tenantId = t ∧ r.ritmId = m) :=
  List.perm_insertionSort _ _

theorem specs_updateTasks (p : TaskRow → Bool) (f : TaskRow → TaskRow) (hk hr ht)
    (hs : ∀ r, rowSpec (f r) = rowSpec r) :
    ((listTasksForRitm t m (updateTasks p f hk hr ht db)).map rowSpec).Perm
      ((listTasksForRitm t m db).map rowSpec) := by
  refine (listTasks_perm.map rowSpec).trans (.trans (.of_eq ?_) (listTasks_perm.map rowSpec).symm)
  have htenant : ∀ r, (f r).tenantId = r.tenantId := fun r => congrArg Prod.fst (hk r)
  have hrow : ∀ r : TaskRow, rowSpec (if p r then f r else r) = rowSpec r := by
    intro r
    split
    · exact hs r
    · rfl
  have hmine : ∀ r : TaskRow, ((if p r then f r else r).tenantId = t ∧
      (if p r then f r else r).ritmId = m) ↔ (r.tenantId = t ∧ r.ritmId = m) := by
    intro r
    split
    · rw [htenant, hr]
    · exact Iff.rfl
  simp only [updateTasks, Table.update, updateWhere, List.filter_map, List.map_map,
    Function.comp_def, hrow, hmine]

theorem specs_transition (a : TaskTransition) :
    ((listTasksForRitm t m (transitionTaskState a db).2).map rowSpec).Perm
      ((listTasksForRitm t m db).map rowSpec) :=
  specs_updateTasks a.matches (a.set db.now) (fun _ => rfl) (fun _ => rfl) (fun _ => rfl)
    fun _ => rfl

theorem specs_recover (t' m' : String) (minutes : ℕ) :
    ((listTasksForRitm t m (recoverStuckTasks t' m' minutes db)).map rowSpec).Perm
      ((listTasksForRitm t m db).map rowSpec) :=
  specs_updateTasks (stuckTask t' m' minutes db.now) (recoverTask db.now) (fun _ => rfl)
    (fun _ => rfl) (fun _ => rfl) fun _ => rfl

theorem specs_of_same {db' : Db} (h : db'.task = db.task) :
    ((listTasksForRitm t m db').map rowSpec).Perm ((listTasksForRitm t m db).map rowSpec) := by
  rw [listTasks_congr h]

end Specs

/-- A run adds no task, drops none and leaves what they are about alone. -/
theorem solo_specs {cfg : Config} {x y : World × Worker} (h : Solo cfg x y) :
    ((rowsOf y).map rowSpec).Perm ((rowsOf x).map rowSpec) := by
  obtain ⟨n, inp, rfl⟩ := h
  obtain ⟨ht, hm⟩ := workerStep_ids cfg inp (tick n x.1) x.2
  simp only [rowsOf, ht, hm]
  cases workerActs cfg (tick n x.1) x.2 inp with
  | main =>
    rcases mainStep_task_cases cfg (tick n x.1) x.2 with he | ⟨_, he⟩ | ⟨wave, z, todo, _, he⟩
    · exact specs_of_same he
    · exact he ▸ specs_recover ..
    · exact he ▸ specs_transition _
  | child j ci wave children c hp hc =>
    rw [workerStep_child hp hc]
    rcases childStep_task_cases cfg x.2.tenantId x.2.ritmId (tick n x.1) c ci with
      he | ⟨task, _, he⟩ |
      ⟨a, _, _, _, he⟩
    · exact specs_of_same he
    · exact he ▸ specs_transition _
    · exact he ▸ specs_transition _
  | idle inp h =>
    rw [h]
    exact .refl _

def nodesOf (S : List TaskSpec) : List (String × List String) := S.map fun s => (s.id, s.dependsOn)

/-- The rows of `x` are those of the plan `S`. -/
def Fits (S : List TaskSpec) (x : World × Worker) : Prop := ((rowsOf x).map rowSpec).Perm S

def DepsKnown (S : List TaskSpec) : Prop := ∀ s ∈ S, ∀ dep ∈ s.dependsOn, ∃ d ∈ S, d.id = dep

/-- After `n` waves the tasks resolved in `n` rounds are done and the others are untouched. -/
def Level (S : List TaskSpec) (n : ℕ) (T : List TaskRow) : Prop :=
  ∀ r ∈ T, Resolved (nodesOf S) n r.templateTaskId ∧ r.state = .done ∨
    ¬ Resolved (nodesOf S) n r.templateTaskId ∧ r.state = .pending

section Levels

variable {S : List TaskSpec} {x : World × Worker} {n : ℕ} {r : TaskRow}

theorem Fits.spec (h : Fits S x) (hr : r ∈ rowsOf x) : rowSpec r ∈ S :=
  h.mem_iff.mp (List.mem_map_of_mem hr)

theorem Fits.row (h : Fits S x) {s : TaskSpec} (hs : s ∈ S) : ∃ r ∈ rowsOf x, rowSpec r = s :=
  List.mem_map.mp (h.mem_iff.mpr hs)

theorem Fits.edge_iff (h : Fits S x) (hr : r ∈ rowsOf x) {b : String} :
    Edge (nodesOf S) r.templateTaskId b ↔ b ∈ r.dependsOn := by
  constructor
  · rintro ⟨node, hn, hid, hb⟩
    obtain ⟨s, hs, rfl⟩ := List.mem_map.mp hn
    obtain ⟨q, hq, rfl⟩ := h.row hs
    rw [list_eq_of_template hq hr hid] at hb
    exact hb
  · intro hb
    exact ⟨_, List.mem_map_of_mem (h.spec hr), rfl, hb⟩

theorem Fits.resolved_succ (h : Fits S x) (hr : r ∈ rowsOf x) :
    Resolved (nodesOf S) (n + 1) r.templateTaskId ↔
      ∀ dep ∈ r.dependsOn, Resolved (nodesOf S) n dep := by
  simp only [Resolved, h.edge_iff hr]

theorem Fits.dep_row (h : Fits S x) (hS : DepsKnown S) (hr : r ∈ rowsOf x) {dep : String}
    (hd : dep ∈ r.dependsOn) : ∃ d ∈ rowsOf x, d.templateTaskId = dep := by
  obtain ⟨s, hs, rfl⟩ := hS _ (h.spec hr) dep hd
  obtain ⟨d, hdT, rfl⟩ := h.row hs
  exact ⟨d, hdT, rfl⟩

theorem depsOk_level (h : Fits S x) (hS : DepsKnown S) (hL : Level S n (rowsOf x))
    (hr : r ∈ rowsOf x) : depsOk (rowsOf x) r = true ↔
      ¬ Resolved (nodesOf S) n r.templateTaskId ∧
        Resolved (nodesOf S) (n + 1) r.templateTaskId := by
  have hdep : ∀ dep ∈ r.dependsOn, depOk (rowsOf x) dep = true ↔ Resolved (nodesOf S) n dep := by
    intro dep hd
    obtain ⟨d, hdT, rfl⟩ := h.dep_row hS hr hd
    have hfind : byTmpl (rowsOf x) d.templateTaskId = some d := byTmpl_of_mem hdT
    rw [depOk_iff, hfind]
    rcases hL d hdT with ⟨hres, hs⟩ | ⟨hres, hs⟩
    · simp [hres, hs, Satisfied]
    · simp [hres, hs, Satisfied]
  rw [depsOk_iff, h.resolved_succ hr]
  rcases hL r hr with ⟨hres, hs⟩ | ⟨hres, hs⟩
  · simp [hres, hs, Waiting]
  · simp only [hs, Waiting, true_or, true_and, hres, not_false_eq_true]
    exact forall₂_congr hdep

theorem mem_ready_level (h : Fits S x) (hS : DepsKnown S) (hL : Level S n (rowsOf x)) :
    r ∈ readyTasks (rowsOf x) ↔ r ∈ rowsOf x ∧ ¬ Resolved (nodesOf S) n r.templateTaskId ∧
      Resolved (nodesOf S) (n + 1) r.templateTaskId := by
  rw [mem_readyTasks]
  constructor
  · rintro ⟨hr, u, hu, hid, hok⟩
    rw [listTasks_eq_of_taskId hu hr hid] at hok
    exact ⟨hr, (depsOk_level h hS hL hr).mp hok⟩
  · rintro ⟨hr, hlevel⟩
    exact ⟨hr, r, hr, rfl, (depsOk_level h hS hL hr).mpr hlevel⟩

/-- While the plan is not through, the terminal check goes on and some task is ready. -/
theorem level_ready (h : Fits S x) (hS : DepsKnown S) (hL : Level S n (rowsOf x)) {k : ℕ}
    (hk : ChainsBounded (nodesOf S) k) (hr : r ∈ rowsOf x)
    (hn : ¬ Resolved (nodesOf S) n r.templateTaskId) :
    isTerminal (rowsOf x) = none ∧ (readyTaskIds (rowsOf x)).isEmpty = false := by
  constructor
  · refine isTerminal_eq_none.mpr ⟨r, hr, .inl ?_⟩
    exact ((hL r hr).resolve_left fun hd => hn hd.1).2
  · have hclosed : ∀ a b, (∃ q ∈ rowsOf x, q.templateTaskId = a) → Edge (nodesOf S) a b →
        ∃ q ∈ rowsOf x, q.templateTaskId = b := by
      rintro a b ⟨q, hq, rfl⟩ he
      exact h.dep_row hS hq ((h.edge_iff hq).mp he)
    obtain ⟨b, ⟨q, hq, rfl⟩, hnext, hnot⟩ :=
      exists_next_level hclosed ⟨r, hr, rfl⟩ (resolved_of_bounded hk _) hn
    have hok := (depsOk_level h hS hL hq).mpr ⟨hnot, hnext⟩
    have hmem : q.taskId ∈ readyTaskIds (rowsOf x) :=
      List.mem_map_of_mem (List.mem_filter.mpr ⟨hq, hok⟩)
    exact Bool.eq_false_iff.mpr fun he => by simp [List.isEmpty_iff.mp he] at hmem

end Levels

def OnTrack (cfg : Config) (t : String) (r task : TaskRow) : Child → Prop
  | .claim task' => task' = task ∧ r = task ∧ r.state = .pending
  | .dispatch task' v => task' = task ∧ r.state = .inProgress ∧ r.version = v ∧
      cfg.hasMethod (task.toolId.getD "") = true
  | .calling task' v => task' = task ∧ r.state = .inProgress ∧ r.version = v
  | .settle a => a.tenantId = t ∧ a.taskId = task.taskId ∧ a.fromState = .inProgress ∧
      a.toState = .done ∧ r.state = .inProgress ∧ r.version = a.version
  | .finished _ => r.state = .done
  | .approve _ _ | .raised => False

def Tracks (cfg : Config) (t : String) (T : List TaskRow) (task : TaskRow) (c : Child) : Prop :=
  ∃ r ∈ T, r.taskId = task.taskId ∧ r.templateTaskId = task.templateTaskId ∧ OnTrack cfg t r task c

section Wave

variable {cfg : Config} {t m : String} {db : Db} {a : TaskTransition}

theorem list_transition_other {q : TaskRow} (h : q.taskId ≠ a.taskId) :
    q ∈ listTasksForRitm t m (transitionTaskState a db).2 ↔ q ∈ listTasksForRitm t m db := by
  have hmiss : ∀ u : TaskRow, u.taskId = q.taskId → a.matches u ≠ true := by
    intro u hu hm
    exact h (hu ▸ congrArg Prod.snd (TaskTransition.matches_iff.mp hm).1)
  rw [mem_list_transition]
  constructor
  · rintro ⟨u, hu, he⟩
    have hid : u.taskId = q.taskId := by
      rw [he]
      split <;> rfl
    rw [if_neg (hmiss u hid)] at he
    exact he ▸ hu
  · intro hq
    exact ⟨q, hq, by rw [if_neg (hmiss q rfl)]⟩

theorem list_transition_hit {r : TaskRow} (hr : r ∈ listTasksForRitm t m db)
    (ht : a.tenantId = t) (hid : a.taskId = r.taskId) (hs : r.state = a.fromState)
    (hv : r.version = a.version) :
    a.set db.now r ∈ listTasksForRitm t m (transitionTaskState a db).2 := by
  have hten : r.tenantId = t := (mem_listTasks.mp hr).2.1
  have hm : a.matches r = true :=
    TaskTransition.matches_iff.mpr ⟨by simp [taskKey, hten, ht, hid], hs, hv⟩
  exact mem_list_transition.mpr ⟨r, hr, by rw [if_pos hm]⟩

theorem listTasks_nodup : ((listTasksForRitm t m db).map (·.taskId)).Nodup := by
  have hrows : (listTasksForRitm t m db).Nodup :=
    (listTasks_perm.nodup_iff).mpr ((List.Nodup.of_map _ db.task.key_unique).filter _)
  exact hrows.map_on fun r hr q hq he => listTasks_eq_of_taskId hr hq he

theorem claim_hits {r : TaskRow} (hr : r ∈ listTasksForRitm t m db) :
    transitionTaskState (plain t r.taskId r.state .inProgress r.version) db =
      (some (r.version + 1),
        (transitionTaskState (plain t r.taskId r.state .inProgress r.version) db).2) := by
  obtain ⟨hmem, ht, _⟩ := mem_listTasks.mp hr
  refine Prod.ext (transitionTask_some.mpr ⟨rfl, r, ?_, rfl, rfl⟩) rfl
  rw [← ht]
  exact Table.lookup_key hmem

theorem onTrack_afterClaim {r task : TaskRow} {v : ℕ} (hb : Bound cfg (rowSpec task))
    (hn : NoApproval (rowSpec task)) (hs : r.state = .inProgress) (hv : r.version = v) :
    OnTrack cfg t r task (afterClaim t task v) := by
  have hsettle : ∀ out : Option Json,
      OnTrack cfg t r task (.settle { leave t task .done v with outputPayload := out }) :=
    fun _ => ⟨rfl, rfl, rfl, rfl, hs, hv⟩
  unfold afterClaim
  split_ifs with h₁ h₂ h₃ h₄
  · exact absurd h₁ hn
  · exact hsettle _
  · rcases hb with hb | ⟨tool, htool, hne, _⟩
    · exact absurd hb h₃
    · have htool : task.toolId = some tool := htool
      simp [htool, hne] at h₂
  · exact hsettle _
  · rcases hb with hb | ⟨tool, htool, _, hmethod⟩
    · exact absurd hb h₄
    · have htool : task.toolId = some tool := htool
      exact ⟨rfl, hs, hv, by rw [htool]; exact hmethod⟩

/-- One step of a coroutine whose task can be done, on an input that succeeds. -/
theorem childStep_track {w : World} {task : TaskRow} {c : Child} {ci : ChildInput} {j : ℕ}
    (hb : Bound cfg (rowSpec task)) (hn : NoApproval (rowSpec task))
    (hi : Succeeds (.child j ci)) (h : Tracks cfg t (listTasksForRitm t m w.db) task c) :
    Tracks cfg t (listTasksForRitm t m (childStep cfg t m ci w c).1.db) task
        (childStep cfg t m ci w c).2 ∧
      ∀ q : TaskRow, q.taskId ≠ task.taskId →
        (q ∈ listTasksForRitm t m (childStep cfg t m ci w c).1.db ↔
          q ∈ listTasksForRitm t m w.db) := by
  obtain ⟨r, hr, hid, htmpl, hon⟩ := h
  have stay : ∀ {d : Child}, OnTrack cfg t r task d →
      Tracks cfg t (listTasksForRitm t m w.db) task d ∧ ∀ q : TaskRow, q.taskId ≠ task.taskId →
        (q ∈ listTasksForRitm t m w.db ↔ q ∈ listTasksForRitm t m w.db) :=
    fun hc => ⟨⟨r, hr, hid, htmpl, hc⟩, fun _ _ => Iff.rfl⟩
  cases c with
  | claim task' =>
    obtain ⟨rfl, rfl, hs⟩ := hon
    cases ci with
    | stmt hex =>
      have hclaim := claim_hits hr
      simp only [childStep]
      rw [hclaim]
      refine ⟨⟨_, list_transition_hit hr rfl rfl rfl rfl, rfl, rfl, ?_⟩,
        fun q hq => list_transition_other hq⟩
      exact onTrack_afterClaim hb hn rfl rfl
    | fault => exact hi.elim
    | result res => exact stay ⟨rfl, rfl, hs⟩
  | approve task' v => exact hon.elim
  | dispatch task' v =>
    obtain ⟨rfl, hs, hv, hmethod⟩ := hon
    cases ci with
    | stmt hex =>
      unfold childStep
      dsimp only
      rw [if_pos hmethod]
      exact stay (d := .calling task' v) ⟨rfl, hs, hv⟩
    | fault => exact hi.elim
    | result res => exact stay ⟨rfl, hs, hv, hmethod⟩
  | calling task' v =>
    obtain ⟨rfl, hs, hv⟩ := hon
    cases ci with
    | stmt hex => exact stay ⟨rfl, hs, hv⟩
    | fault => exact hi.elim
    | result res =>
      cases res with
      | answer resp =>
        have hok : resp.success = true := hi
        refine stay (d := .settle (settleResponse t task' v resp)) ?_
        simp only [settleResponse, hok, if_true]
        exact ⟨rfl, rfl, rfl, rfl, hs, hv⟩
      | timeout => exact hi.elim
      | raised e => exact hi.elim
  | settle a =>
    obtain ⟨ht, ha, hf, hto, hs, hv⟩ := hon
    cases ci with
    | stmt hex =>
      have hhit := list_transition_hit hr ht (ha.trans hid.symm) (hs.trans hf.symm) hv
      refine ⟨⟨_, hhit, hid, htmpl, hto⟩, fun q hq => list_transition_other ?_⟩
      rw [ha]
      exact hq
    | fault => exact hi.elim
    | result res => exact stay ⟨ht, ha, hf, hto, hs, hv⟩
  | finished s =>
    cases ci with
    | fault => exact hi.elim
    | _ => exact stay hon
  | raised => exact hon.elim

end Wave

/-- The wave `n` under way: `wave` are the tasks of round `n + 1`, each with its coroutine, and
all other rows are where level `n` left them. -/
structure WaveOk (cfg : Config) (S : List TaskSpec) (n : ℕ) (t : String) (T wave : List TaskRow)
    (children : List Child) : Prop where
  length : wave.length = children.length
  nodup : (wave.map (·.taskId)).Nodup
  round : ∀ task ∈ wave, Resolved (nodesOf S) (n + 1) task.templateTaskId
  doable : ∀ task ∈ wave, Bound cfg (rowSpec task) ∧ NoApproval (rowSpec task)
  track : ∀ (i : ℕ) (task : TaskRow) (c : Child), wave[i]? = some task → children[i]? = some c →
    Tracks cfg t T task c
  outside : ∀ r ∈ T, (∃ task ∈ wave, task.taskId = r.taskId) ∨
    Resolved (nodesOf S) n r.templateTaskId ∧ r.state = .done ∨
    ¬ Resolved (nodesOf S) (n + 1) r.templateTaskId ∧ r.state = .pending

section WaveSteps

variable {cfg : Config} {S : List TaskSpec} {n : ℕ} {w : World} {k : Worker}

theorem waveOk_start (hS : DepsKnown S) (hb : ∀ s ∈ S, Bound cfg s ∧ NoApproval s)
    (hfit : Fits S (w, k)) (hL : Level S n (rowsOf (w, k))) :
    WaveOk cfg S n k.tenantId (rowsOf (w, k)) (readyTasks (rowsOf (w, k)))
      ((readyTasks (rowsOf (w, k))).map .claim) := by
  have hmem := fun r => mem_ready_level (r := r) hfit hS hL
  refine ⟨(List.length_map _).symm, ?_, ?_, ?_, ?_, ?_⟩
  · exact listTasks_nodup.sublist (List.filter_sublist.map _)
  · exact fun task ht => ((hmem task).mp ht).2.2
  · exact fun task ht => hb _ (hfit.spec ((hmem task).mp ht).1)
  · intro i task c hi hc
    rw [List.getElem?_map, hi] at hc
    cases hc
    obtain ⟨hr, hnot, _⟩ := (hmem task).mp (List.mem_of_getElem? hi)
    exact ⟨task, hr, rfl, rfl, rfl, rfl, ((hL task hr).resolve_left fun h => hnot h.1).2⟩
  · intro r hr
    by_cases hnext : Resolved (nodesOf S) (n + 1) r.templateTaskId
    · by_cases hn : Resolved (nodesOf S) n r.templateTaskId
      · exact .inr (.inl ⟨hn, ((hL r hr).resolve_right fun h => h.1 hn).2⟩)
      · exact .inl ⟨r, (hmem r).mpr ⟨hr, hn, hnext⟩, rfl⟩
    · have hn : ¬ Resolved (nodesOf S) n r.templateTaskId := fun h => hnext (resolved_mono n _ h)
      exact .inr (.inr ⟨hnext, ((hL r hr).resolve_left fun h => hn h.1).2⟩)

theorem waveOk_child {wave : List TaskRow} {children : List Child} {j : ℕ} {c : Child}
    {ci : ChildInput} (hw : WaveOk cfg S n k.tenantId (rowsOf (w, k)) wave children)
    (hp : k.phase = .running n children) (hc : children[j]? = some c)
    (hi : Succeeds (.child j ci)) :
    WaveOk cfg S n k.tenantId (rowsOf (workerStep cfg (.child j ci) w k)) wave
      (children.set j (childStep cfg k.tenantId k.ritmId ci w c).2) := by
  have hj : j < children.length := (List.getElem?_eq_some_iff.mp hc).1
  obtain ⟨task, htask⟩ : ∃ task, wave[j]? = some task :=
    ⟨_, List.getElem?_eq_getElem (hw.length ▸ hj)⟩
  obtain ⟨hb, hn⟩ := hw.doable task (List.mem_of_getElem? htask)
  obtain ⟨htrack, hother⟩ := childStep_track hb hn hi (hw.track j task c htask hc)
  rw [workerStep_child hp hc]
  refine ⟨by rw [List.length_set]; exact hw.length, hw.nodup, hw.round, hw.doable, ?_, ?_⟩
  · intro i task' c' hi' hc'
    rw [List.getElem?_set] at hc'
    split_ifs at hc' with hij
    · subst hij
      rw [htask] at hi'
      cases hi'
      cases hc'
      exact htrack
    · have hne : task'.taskId ≠ task.taskId := by
        intro he
        have hlt : i < (wave.map (·.taskId)).length := by
          rw [List.length_map]
          exact (List.getElem?_eq_some_iff.mp hi').1
        exact hij ((List.getElem?_inj hlt hw.nodup).mp (by simp [hi', htask, he])).symm
      obtain ⟨r, hr, hid, hrest⟩ := hw.track i task' c' hi' hc'
      exact ⟨r, (hother r (hid ▸ hne)).mpr hr, hid, hrest⟩
  · intro r hr
    by_cases hid : r.taskId = task.taskId
    · exact .inl ⟨task, List.mem_of_getElem? htask, hid.symm⟩
    · exact hw.outside r ((hother r hid).mp hr)

/-- A wave whose coroutines have all ended has reached the next level. -/
theorem waveOk_end {wave : List TaskRow} {children : List Child}
    (hw : WaveOk cfg S n k.tenantId (rowsOf (w, k)) wave children)
    (hend : children.all Child.ended = true) :
    Level S (n + 1) (rowsOf (w, k)) := by
  intro r hr
  rcases hw.outside r hr with ⟨task, ht, hid⟩ | ⟨hres, hs⟩ | hpend
  · left
    obtain ⟨i, hi⟩ := List.getElem?_of_mem ht
    have hlt : i < children.length := hw.length ▸ (List.getElem?_eq_some_iff.mp hi).1
    obtain ⟨q, hq, hqid, htmpl, hon⟩ := hw.track i task _ hi (List.getElem?_eq_getElem hlt)
    have hqr : q = r := listTasks_eq_of_taskId hq hr (hqid.trans hid)
    subst hqr
    have hround : Resolved (nodesOf S) (n + 1) q.templateTaskId := by
      rw [htmpl]
      exact hw.round task ht
    have hdone := List.all_eq_true.mp hend _ (List.getElem_mem hlt)
    cases hchild : children[i] with
    | finished s =>
      rw [hchild] at hon
      exact ⟨hround, hon⟩
    | raised =>
      rw [hchild] at hon
      exact hon.elim
    | _ =>
      rw [hchild] at hdone
      cases hdone
  · exact .inl ⟨resolved_mono n _ hres, hs⟩
  · exact .inr hpend

end WaveSteps

def depthBudget : ℕ := maxWaves - 1

def LevelOk (cfg : Config) (S : List TaskSpec) (x : World × Worker) : Prop :=
  match x.2.phase with
  | .readRitm | .startRitm _ | .recover => ∀ r ∈ rowsOf x, r.state = .pending
  | .list n => Level S n (rowsOf x)
  | .running n children =>
    n < depthBudget ∧ ∃ wave, WaveOk cfg S n x.2.tenantId (rowsOf x) wave children
  | .finalRead c => c.failureReason = none ∧ ∀ r ∈ rowsOf x, r.state = .done
  | .finalList _ _ | .finalWrite _ _ | .finalRun _ _ | .finalStamp _ _ _ | .returned _ =>
    ∀ r ∈ rowsOf x, r.state = .done
  | .raised _ => True
  | _ => False

section Call

variable {cfg : Config} {S : List TaskSpec} {w : World} {k : Worker}

theorem level_zero {T : List TaskRow} (h : ∀ r ∈ T, r.state = .pending) : Level S 0 T :=
  fun r hr => .inr ⟨id, h r hr⟩

theorem no_cascade {T : List TaskRow} (h : ∀ r ∈ T, r.state ≠ .failed) :
    (transitivelyBlockedTaskIds T).isEmpty = true := by
  rw [List.isEmpty_iff, List.eq_nil_iff_forall_not_mem]
  intro y hy
  obtain ⟨_, _, _, _, f, hf, hfail, _⟩ := mem_transitivelyBlocked.mp hy
  exact h f hf hfail

/-- The check at a level: the plan is through, or a wave starts within the budget. -/
theorem level_check {n : ℕ} (hS : DepsKnown S) (hb : ∀ s ∈ S, Bound cfg s ∧ NoApproval s)
    (hk : ChainsBounded (nodesOf S) depthBudget) (hfit : Fits S (w, k))
    (hL : Level S n (rowsOf (w, k))) :
    LevelOk cfg S (w, ⟨k.tenantId, k.ritmId, decideWave n (rowsOf (w, k))⟩) := by
  by_cases hall : ∀ r ∈ rowsOf (w, k), Resolved (nodesOf S) n r.templateTaskId
  · have hdone : ∀ r ∈ rowsOf (w, k), r.state = .done :=
      fun r hr => ((hL r hr).resolve_right fun h => h.1 (hall r hr)).2
    have hterm : isTerminal (rowsOf (w, k)) = some .fulfilled :=
      isTerminal_fulfilled.mpr fun r hr => .inl (hdone r hr)
    simp only [decideWave, hterm]
    exact ⟨rfl, hdone⟩
  · push Not at hall
    obtain ⟨r, hr, hn⟩ := hall
    obtain ⟨hterm, hready⟩ := level_ready hfit hS hL hk hr hn
    have hlt : n < depthBudget := by
      by_contra hge
      exact hn (resolved_of_le (Nat.le_of_not_lt hge) (resolved_of_bounded hk _))
    simp only [decideWave, hterm, hready, Bool.false_eq_true, if_false]
    exact ⟨hlt, _, waveOk_start hS hb hfit hL⟩

theorem levelOk_report {w' : World}
    (hrows : listTasksForRitm k.tenantId k.ritmId w'.db = rowsOf (w, k))
    (h : ∀ r ∈ rowsOf (w, k), r.state = .done) (ritm : RitmRow) (o : FulfillmentOutcome)
    (run : Option String) (tasks : List TaskRow) (display : String) :
    LevelOk cfg S (w', ⟨k.tenantId, k.ritmId, report k ritm o run tasks display⟩) := by
  unfold report
  split
  · intro r hr
    exact h r (hrows ▸ hr)
  · trivial

theorem mainStep_level (hS : DepsKnown S) (hb : ∀ s ∈ S, Bound cfg s ∧ NoApproval s)
    (hk : ChainsBounded (nodesOf S) depthBudget) (hfit : Fits S (w, k))
    (h : LevelOk cfg S (w, k)) : LevelOk cfg S (workerStep cfg .stmt w k) := by
  cases hp : k.phase with
  | readRitm =>
    simp only [LevelOk, hp] at h
    simp only [workerStep, mainStep, hp]
    split
    · trivial
    · split_ifs
      · exact h
      · exact h
  | startRitm version =>
    simp only [LevelOk, hp] at h
    simp only [workerStep, mainStep, hp]
    exact h
  | recover =>
    simp only [LevelOk, hp] at h
    simp only [workerStep, mainStep, hp]
    refine level_zero fun r' hr' => ?_
    obtain ⟨r, hr, rfl⟩ := mem_list_recover.mp hr'
    have hpend : r.state = .pending := h r hr
    rw [if_neg (by simp [stuckTask, hpend])]
    exact hpend
  | list n =>
    simp only [LevelOk, hp] at h
    have hclear : (transitivelyBlockedTaskIds
        (listTasksForRitm k.tenantId k.ritmId w.db)).isEmpty = true := by
      refine no_cascade fun r hr hfail => ?_
      rcases h r hr with ⟨_, hs⟩ | ⟨_, hs⟩
      · rw [hs] at hfail
        cases hfail
      · rw [hs] at hfail
        cases hfail
    simp only [workerStep, mainStep, hp, hclear, if_true]
    exact level_check hS hb hk hfit h
  | running n children =>
    simp only [LevelOk, hp] at h
    obtain ⟨hn, wave, hw⟩ := h
    simp only [workerStep, mainStep, hp]
    split_ifs with hend
    · have hnext : nextWave n = .list (n + 1) := by
        unfold nextWave depthBudget at *
        rw [if_pos (by omega)]
      simp only [hnext]
      exact waveOk_end hw hend
    · exact ⟨hn, wave, hw⟩
  | finalRead c =>
    simp only [LevelOk, hp] at h
    simp only [workerStep, mainStep, hp]
    split
    · trivial
    · split_ifs
      · exact h.2
      · exact h.2
  | finalList c r =>
    simp only [LevelOk, hp] at h
    simp only [workerStep, mainStep, hp]
    exact h
  | finalWrite c r =>
    simp only [LevelOk, hp] at h
    simp only [workerStep, mainStep, hp]
    split_ifs
    · exact h
    · exact h
  | finalRun c r =>
    simp only [LevelOk, hp] at h
    simp only [workerStep, mainStep, hp]
    split
    · exact levelOk_report rfl h _ _ _ _ _
    · exact h
  | finalStamp c r runId =>
    simp only [LevelOk, hp] at h
    simp only [workerStep, mainStep, hp]
    split
    · trivial
    · rename_i db hdb
      exact levelOk_report (listTasks_congr (finaliseRun_items hdb).task) h _ _ _ _ _
  | returned o =>
    simp only [LevelOk, hp] at h
    simp only [workerStep, mainStep, hp]
    exact h
  | raised e =>
    simp only [workerStep, mainStep, hp]
    trivial
  | _ => simp only [LevelOk, hp] at h

theorem smooth_level (hS : DepsKnown S) (hb : ∀ s ∈ S, Bound cfg s ∧ NoApproval s)
    (hk : ChainsBounded (nodesOf S) depthBudget) {x y : World × Worker} (hfit : Fits S x)
    (h : LevelOk cfg S x) (hs : SmoothSolo cfg x y) : LevelOk cfg S y := by
  obtain ⟨n, inp, hi, rfl⟩ := hs
  have h' : LevelOk cfg S (tick n x.1, x.2) := h
  cases workerActs cfg (tick n x.1) x.2 inp with
  | main => exact mainStep_level hS hb hk hfit h'
  | child j ci wave children c hp hc =>
    simp only [LevelOk, hp] at h'
    obtain ⟨hn, tasks, hw⟩ := h'
    have hstep := waveOk_child hw hp hc hi
    rw [workerStep_child hp hc] at hstep ⊢
    exact ⟨hn, tasks, hstep⟩
  | idle inp he => rw [he]; exact h'

end Call

/-- Started rows lie within `l` rounds, and done rows are such that the executor can do them. -/
def Grounded (cfg : Config) (S : List TaskSpec) (l : ℕ) (T : List TaskRow) : Prop :=
  ∀ r ∈ T, (Started r.state → Resolved (nodesOf S) l r.templateTaskId) ∧
    (r.state = .done → Bound cfg (rowSpec r))

def Supported (cfg : Config) (S : List TaskSpec) (n : ℕ) (T : List TaskRow) : Child → Prop
  | .claim task => ∀ r ∈ T, r.taskId = task.taskId →
      rowSpec r = rowSpec task ∧ Resolved (nodesOf S) (n + 1) r.templateTaskId
  | .dispatch task _ => ∀ r ∈ T, r.taskId = task.taskId →
      rowSpec r = rowSpec task ∧ task.toolId ≠ none ∧ task.toolId ≠ some ""
  | .calling task _ => ∀ r ∈ T, r.taskId = task.taskId → Bound cfg (rowSpec r)
  | .settle a => a.toState = .done → ∀ r ∈ T, r.taskId = a.taskId → Bound cfg (rowSpec r)
  | _ => True

section Ground

variable {cfg : Config} {S : List TaskSpec} {n : ℕ} {T T' : List TaskRow}

theorem evolved_specs (h : Evolved T T') :
    ∀ r' ∈ T', ∃ r ∈ T, r.taskId = r'.taskId ∧ rowSpec r = rowSpec r' := by
  intro r' hr'
  obtain ⟨r, hr, rfl | hadv⟩ := h.bwd r' hr'
  · exact ⟨r', hr, rfl, rfl⟩
  · refine ⟨r, hr, hadv.same.taskId.symm, ?_⟩
    simp [rowSpec, hadv.same.templateTaskId, hadv.same.taskType, hadv.same.toolId,
      hadv.same.dependsOn]

theorem Supported.evolved (h : Evolved T T') {c : Child} (hc : Supported cfg S n T c) :
    Supported cfg S n T' c := by
  have back := evolved_specs h
  cases c with
  | claim task =>
    intro r' hr' hid
    obtain ⟨r, hr, hrid, hspec⟩ := back r' hr'
    obtain ⟨hs, hres⟩ := hc r hr (hrid.trans hid)
    have htmpl : r.templateTaskId = r'.templateTaskId := congrArg TaskSpec.id hspec
    exact ⟨hspec ▸ hs, htmpl ▸ hres⟩
  | dispatch task v =>
    intro r' hr' hid
    obtain ⟨r, hr, hrid, hspec⟩ := back r' hr'
    exact hspec ▸ hc r hr (hrid.trans hid)
  | calling task v =>
    intro r' hr' hid
    obtain ⟨r, hr, hrid, hspec⟩ := back r' hr'
    exact hspec ▸ hc r hr (hrid.trans hid)
  | settle a =>
    intro hto r' hr' hid
    obtain ⟨r, hr, hrid, hspec⟩ := back r' hr'
    exact hspec ▸ hc hto r hr (hrid.trans hid)
  | _ => trivial

theorem supported_afterClaim {t : String} {task : TaskRow} {v : ℕ}
    (h : Supported cfg S n T (.claim task)) : Supported cfg S n T (afterClaim t task v) := by
  have hmanual : task.taskType = .manual → ∀ r ∈ T, r.taskId = task.taskId →
      Bound cfg (rowSpec r) := by
    intro hm r hr hid
    rw [(h r hr hid).1]
    exact .inl hm
  unfold afterClaim
  split_ifs with h₁ h₂ h₃ h₄
  · trivial
  · exact fun _ => hmanual h₃
  · intro hto
    cases hto
  · exact fun _ => hmanual h₄
  · push Not at h₂
    exact fun r hr hid => ⟨(h r hr hid).1, h₂⟩

theorem childStep_supported {t m : String} {w : World} {c : Child} {ci : ChildInput}
    (h : Supported cfg S n T c) : Supported cfg S n T (childStep cfg t m ci w c).2 := by
  unfold childStep
  split
  · split
    · trivial
    · exact supported_afterClaim h
  · split
    · trivial
    · intro hto
      cases hto
  · rename_i task v _
    split
    · rename_i hmethod
      intro r hr hid
      obtain ⟨hs, hne, hnempty⟩ := h r hr hid
      obtain ⟨tool, htool⟩ := Option.ne_none_iff_exists'.mp hne
      rw [htool] at hnempty hmethod
      rw [hs]
      exact .inr ⟨tool, htool, by simpa using hnempty, hmethod⟩
    · trivial
  · exact fun _ r hr hid => h r hr (hid.trans (settleResponse_taskId ..))
  · exact fun _ r hr hid => h r hr (hid.trans (settleResponse_taskId ..))
  · trivial
  · trivial
  · trivial
  · trivial
  · exact h

theorem Grounded.mono {l l' : ℕ} (hle : l ≤ l') (h : Grounded cfg S l T) : Grounded cfg S l' T :=
  fun r hr => ⟨fun hs => resolved_of_le hle ((h r hr).1 hs), (h r hr).2⟩

/-- Only a claim starts a row and only a settled child makes one done. -/
theorem Grounded.evolved {l : ℕ} (h : Grounded cfg S l T) (he : Evolved T T')
    (hstart : ∀ r ∈ T, ∀ r' ∈ T', Advances r r' → r'.state = .inProgress →
      Resolved (nodesOf S) l r.templateTaskId)
    (hdone : ∀ r ∈ T, ∀ r' ∈ T', Advances r r' → r'.state = .done → Bound cfg (rowSpec r)) :
    Grounded cfg S l T' := by
  intro r' hr'
  obtain ⟨r, hr, rfl | hadv⟩ := he.bwd r' hr'
  · exact h r' hr
  · have hspec : rowSpec r' = rowSpec r := by
      simp [rowSpec, hadv.same.templateTaskId, hadv.same.taskType, hadv.same.toolId,
        hadv.same.dependsOn]
    refine ⟨fun hs => ?_, fun hs => hspec ▸ hdone r hr r' hr' hadv hs⟩
    rw [hadv.same.templateTaskId]
    rcases hs with hs | hs
    · exact hstart r hr r' hr' hadv hs
    · refine (h r hr).1 (.inl ?_)
      rcases hadv.moves with ⟨_, hm | hm⟩ | ⟨hm, _⟩
      · rw [hm] at hs
        simp at hs
      · rw [hm] at hs
        simp at hs
      · exact hm

end Ground

def GroundOk (cfg : Config) (S : List TaskSpec) (x : World × Worker) : Prop :=
  match x.2.phase with
  | .readRitm | .startRitm _ | .recover => Grounded cfg S 0 (rowsOf x)
  | .list n | .cascade n _ | .relist n => n ≤ depthBudget ∧ Grounded cfg S n (rowsOf x)
  | .running n children => n ≤ depthBudget ∧ Grounded cfg S (n + 1) (rowsOf x) ∧
      ∀ c ∈ children, Supported cfg S n (rowsOf x) c
  | .finalRead c | .finalList c _ | .finalWrite c _ | .finalRun c _ | .finalStamp c _ _ =>
    c.outcome = .fulfilled → Grounded cfg S depthBudget (rowsOf x)
  | .returned o => o.outcome = .fulfilled → Grounded cfg S depthBudget (rowsOf x)
  | _ => True

section GroundSteps

variable {cfg : Config} {S : List TaskSpec} {w : World} {k : Worker}

/-- The tasks a wave claims depend on done tasks only, which lie one round lower. -/
theorem groundOk_decideWave {n : ℕ} (hfit : Fits S (w, k)) (hn : n ≤ depthBudget)
    (hg : Grounded cfg S n (rowsOf (w, k)))
    (hok : PhaseOk (rowsOf (w, k)) (decideWave n (rowsOf (w, k)))) :
    GroundOk cfg S (w, ⟨k.tenantId, k.ritmId, decideWave n (rowsOf (w, k))⟩) := by
  unfold decideWave at hok ⊢
  split at hok
  · exact fun _ => hg.mono hn
  · split_ifs at hok ⊢
    · trivial
    · refine ⟨hn, hg.mono (Nat.le_succ n), fun c hc => ?_⟩
      obtain ⟨task, htask, rfl⟩ := List.mem_map.mp hc
      obtain ⟨hdeps, _⟩ := hok _ hc task rfl
      have htaskT : task ∈ rowsOf (w, k) := (mem_readyTasks.mp htask).1
      intro r hr hid
      have he : r = task := listTasks_eq_of_taskId hr htaskT hid
      subst he
      refine ⟨rfl, (hfit.resolved_succ hr).mpr fun dep hdep => ?_⟩
      obtain ⟨d, hd, rfl, hdone⟩ := hdeps dep hdep
      exact (hg d hd).1 (.inr (.inl hdone))

theorem groundOk_report {w' : World} {o : FulfillmentOutcome} (h : o = .fulfilled →
    Grounded cfg S depthBudget (listTasksForRitm k.tenantId k.ritmId w'.db)) (ritm : RitmRow)
    (run : Option String) (tasks : List TaskRow) (display : String) :
    GroundOk cfg S (w', ⟨k.tenantId, k.ritmId, report k ritm o run tasks display⟩) := by
  unfold report
  split
  · exact h
  · trivial

theorem outcomeOf_fulfilled {v : RitmOutcome} : outcomeOf v = .fulfilled ↔ v = .fulfilled := by
  cases v <;> simp [outcomeOf]

theorem mainStep_ground (hfit : Fits S (w, k)) (hw : WaveInvariant (w, k))
    (h : GroundOk cfg S (w, k)) : GroundOk cfg S (workerStep cfg .stmt w k) := by
  have hev : Evolved (rowsOf (w, k)) (rowsOf (workerStep cfg .stmt w k)) :=
    workerStep_evolved cfg hw.wf .stmt
  have hnext : WaveInvariant (workerStep cfg .stmt w k) := workerStep_inv hw .stmt
  cases hp : k.phase with
  | readRitm =>
    simp only [GroundOk, hp] at h
    simp only [workerStep, mainStep, hp]
    split
    · trivial
    · split_ifs
      · exact h
      · exact h
  | startRitm version =>
    simp only [GroundOk, hp] at h
    simp only [workerStep, mainStep, hp]
    exact h
  | recover =>
    simp only [GroundOk, hp] at h
    simp only [workerStep, mainStep, hp] at hev ⊢
    refine ⟨Nat.zero_le _, h.evolved hev ?_ ?_⟩
    · intro r hr r' hr' hadv hs
      rw [list_recover_moved hr hr' hadv] at hs
      cases hs
    · intro r hr r' hr' hadv hs
      rw [list_recover_moved hr hr' hadv] at hs
      cases hs
  | list n =>
    simp only [GroundOk, hp] at h
    have hphase := hnext.phase
    simp only [workerStep, mainStep, hp] at hphase ⊢
    split_ifs at hphase ⊢
    · exact groundOk_decideWave hfit h.1 h.2 hphase
    · exact h
  | cascade n todo =>
    simp only [GroundOk, hp] at h
    cases todo with
    | nil => simp only [workerStep, mainStep, hp]; exact h
    | cons y todo =>
      simp only [workerStep, mainStep, hp] at hev ⊢
      refine ⟨h.1, h.2.evolved hev ?_ ?_⟩
      · intro r hr r' hr' hadv hs
        rw [(list_transition_moved hr hr' hadv).2] at hs
        cases hs
      · intro r hr r' hr' hadv hs
        rw [(list_transition_moved hr hr' hadv).2] at hs
        cases hs
  | relist n =>
    simp only [GroundOk, hp] at h
    have hphase := hnext.phase
    simp only [workerStep, mainStep, hp] at hphase ⊢
    exact groundOk_decideWave hfit h.1 h.2 hphase
  | running n children =>
    simp only [GroundOk, hp] at h
    simp only [workerStep, mainStep, hp, nextWave]
    split_ifs with hend hlt
    · exact ⟨by unfold depthBudget; omega, h.2.1⟩
    · intro hf
      cases hf
    · exact h
  | finalRead c =>
    simp only [GroundOk, hp] at h
    simp only [workerStep, mainStep, hp]
    split
    · trivial
    · split_ifs
      · exact h
      · exact h
  | finalList c r =>
    simp only [GroundOk, hp] at h
    simp only [workerStep, mainStep, hp]
    exact h
  | finalWrite c r =>
    simp only [GroundOk, hp] at h
    simp only [workerStep, mainStep, hp]
    split_ifs
    · exact h
    · exact h
  | finalRun c r =>
    simp only [GroundOk, hp] at h
    simp only [workerStep, mainStep, hp]
    split
    · exact groundOk_report (fun ho => h (outcomeOf_fulfilled.mp ho)) ..
    · exact h
  | finalStamp c r runId =>
    simp only [GroundOk, hp] at h
    simp only [workerStep, mainStep, hp]
    split
    · trivial
    · rename_i db hdb
      refine groundOk_report (fun ho => ?_) ..
      rw [listTasks_congr (finaliseRun_items hdb).task]
      exact h (outcomeOf_fulfilled.mp ho)
  | partialRun tasks r approvals =>
    cases r with
    | none => simp only [workerStep, mainStep, hp]; trivial
    | some r =>
      simp only [workerStep, mainStep, hp]
      refine groundOk_report (fun ho => ?_) ..
      cases ho
  | returned o =>
    simp only [GroundOk, hp] at h
    simp only [workerStep, mainStep, hp]
    exact h
  | _ => simp only [workerStep, mainStep, hp]; trivial

theorem childStep_ground {n j : ℕ} {children : List Child} {c : Child} {ci : ChildInput}
    (hw : WaveInvariant (w, k)) (h : GroundOk cfg S (w, k)) (hp : k.phase = .running n children)
    (hc : children[j]? = some c) : GroundOk cfg S (workerStep cfg (.child j ci) w k) := by
  have hev : Evolved (rowsOf (w, k)) (rowsOf (workerStep cfg (.child j ci) w k)) :=
    workerStep_evolved cfg hw.wf (.child j ci)
  simp only [GroundOk, hp] at h
  obtain ⟨hn, hg, hsup⟩ := h
  have hcs := hsup c (List.mem_of_getElem? hc)
  have hcwf : ChildWf k.tenantId c := by
    have := hw.wf
    simp only [hp] at this
    exact this c (List.mem_of_getElem? hc)
  rw [workerStep_child hp hc] at hev ⊢
  refine ⟨hn, hg.evolved hev ?_ ?_, ?_⟩
  · intro r hr r' hr' hadv hs
    rcases childStep_moved hcwf hr hr' hadv with ⟨task, rfl, hid, _⟩ | ⟨_, _, _, _, hne, _⟩
    · exact (hcs r hr hid).2
    · exact absurd hs hne
  · intro r hr r' hr' hadv hs
    rcases childStep_moved hcwf hr hr' hadv with ⟨_, _, _, hto⟩ | ⟨a, rfl, hid, hto, _⟩
    · rw [hto] at hs
      cases hs
    · exact hcs (hto ▸ hs) r hr hid
  · intro d hd
    rcases List.mem_or_eq_of_mem_set hd with hd | rfl
    · exact (hsup d hd).evolved hev
    · exact (childStep_supported hcs).evolved hev

theorem solo_ground {x y : World × Worker} (hfit : Fits S x) (hw : WaveInvariant x)
    (h : GroundOk cfg S x) (hs : Solo cfg x y) : GroundOk cfg S y := by
  obtain ⟨n, inp, rfl⟩ := hs
  have hw' : WaveInvariant (tick n x.1, x.2) :=
    ⟨hw.wf, hw.started, hw.skipped, hw.phase, hw.calls⟩
  have h' : GroundOk cfg S (tick n x.1, x.2) := h
  cases workerActs cfg (tick n x.1) x.2 inp with
  | main => exact mainStep_ground hfit hw' h'
  | child j ci wave children c hp hc => exact childStep_ground hw' h' hp hc
  | idle inp he => rw [he]; exact h'

end GroundSteps

def Completed (x : World × Worker) : Prop :=
  (∃ o, x.2.phase = .returned o ∧ o.outcome = .fulfilled ∧ o.tasksCompleted = o.tasksTotal) ∧
    ∀ r ∈ rowsOf x, r.state = .done

theorem counts_le (T : List TaskRow) :
    countByState T .done + countByState T .failed + countByState T .skipped +
      countByState T .inProgress ≤ T.length := by
  induction T with
  | nil => exact Nat.le_refl 0
  | cons r T ih =>
    simp only [countByState, List.filter_cons, List.length_cons] at ih ⊢
    cases r.state <;> simp only [reduceCtorEq, decide_true, decide_false, if_true,
      Bool.false_eq_true, if_false, List.length_cons] <;> omega

theorem count_done {T : List TaskRow} (h : ∀ r ∈ T, r.state = .done) :
    countByState T .done = T.length := by
  rw [countByState, List.filter_eq_self.mpr]
  intro r hr
  exact decide_eq_true (h r hr)

section Completeness

variable {cfg : Config} {template : CatalogTemplate} {t m : String} {db : Db}

theorem nodesOf_template (tasks : List CatalogTemplateTask) :
    nodesOf (tasks.map specOf) = templateNodes tasks := by
  simp [nodesOf, templateNodes, specOf]

theorem depsKnown_template (template : CatalogTemplate) :
    DepsKnown (template.tasks.map specOf) := by
  intro s hs dep hd
  obtain ⟨x, hx, rfl⟩ := List.mem_map.mp hs
  have hin := (template.valid.dag _ (List.mem_map_of_mem hx) dep hd).1
  obtain ⟨y, hy, rfl⟩ := List.mem_map.mp hin
  exact ⟨specOf y, List.mem_map_of_mem hy, rfl⟩

/-- Everything a run of the call keeps, whatever the adapter answers. -/
structure FreshRun (cfg : Config) (S : List TaskSpec) (x : World × Worker) : Prop where
  fits : Fits S x
  wave : WaveInvariant x
  ground : GroundOk cfg S x

theorem freshRun_step {S : List TaskSpec} {x y : World × Worker} (h : FreshRun cfg S x)
    (hs : Solo cfg x y) : FreshRun cfg S y :=
  ⟨(solo_specs hs).trans h.fits, solo_inv h.wave hs, solo_ground h.fits h.wave h.ground hs⟩

theorem freshRun_start (hp : Persisted template t m db) :
    FreshRun cfg (template.tasks.map specOf) (freshCall ⟨db, [], [], []⟩ t m) := by
  refine ⟨hp.rows, freshCall_inv hp.pending rfl, ?_⟩
  intro r hr
  have hs : r.state = .pending := hp.pending r hr
  refine ⟨fun h => ?_, fun h => ?_⟩
  · rw [hs] at h
    simp [Started] at h
  · rw [hs] at h
    cases h

/-- A plan that a call completes is within the budget, and the executor can do all of it. -/
theorem within_of_completed {x : World × Worker} (h : FreshRun cfg (template.tasks.map specOf) x)
    (hc : Completed x) : (∀ y ∈ template.tasks, Bound cfg (specOf y)) ∧
      ChainsBounded (templateNodes template.tasks) depthBudget := by
  obtain ⟨⟨o, hphase, hout, _⟩, hdone⟩ := hc
  have hg := h.ground
  simp only [GroundOk, hphase] at hg
  have hg := hg hout
  refine ⟨fun y hy => ?_, ?_⟩
  · obtain ⟨r, hr, hs⟩ := h.fits.row (List.mem_map_of_mem hy)
    exact hs ▸ (hg r hr).2 (hdone r hr)
  · rw [← nodesOf_template]
    refine bounded_of_resolved fun a => ?_
    by_cases ha : ∃ r ∈ rowsOf x, r.templateTaskId = a
    · obtain ⟨r, hr, rfl⟩ := ha
      exact (hg r hr).1 (.inr (.inl (hdone r hr)))
    · intro b he
      obtain ⟨node, hn, rfl, _⟩ := he
      obtain ⟨s, hs, rfl⟩ := List.mem_map.mp hn
      obtain ⟨r, hr, rfl⟩ := h.fits.row hs
      exact absurd ⟨r, hr, rfl⟩ ha

theorem below_limit {S : List TaskSpec} {x : World × Worker} (h : LevelOk cfg S x) :
    hitLimit x.2.phase = false := by
  cases hp : x.2.phase with
  | finalRead c =>
    simp only [LevelOk, hp] at h
    simp [hitLimit, h.1]
  | _ => rfl

theorem completed_of_level {S : List TaskSpec} {x : World × Worker} {r₀ : RitmRow}
    (hcall : CallOk r₀ x) (h : LevelOk cfg S x) (hlen : (rowsOf x).length = r₀.totalTasks)
    (he : ended x.2.phase = true) : Completed x := by
  cases hp : x.2.phase with
  | returned o =>
    simp only [LevelOk, hp] at h
    simp only [CallOk, hp] at hcall
    have hterm : isTerminal (rowsOf x) = some .fulfilled :=
      isTerminal_fulfilled.mpr fun r hr => .inl (h r hr)
    rcases hcall with ⟨hnone, _⟩ | ⟨v, hv, hout, htotal, hcount⟩
    · rw [hterm] at hnone
      cases hnone
    · rw [hterm] at hv
      cases hv
      refine ⟨⟨o, hp, hout, ?_⟩, h⟩
      rw [hcount, count_done h, htotal, hlen]
  | raised e =>
    simp only [CallOk, hp] at hcall
    exact absurd ((counts_le (rowsOf x)).trans hlen.le) hcall
  | _ => rw [hp] at he; cases he

/-- On a freshly persisted plan without approval tasks, a fair call in which every adapter
call succeeds ends, and it completes the plan exactly when every automated task is bound to
an adapter method and no dependency chain is longer than the budget. A chain one task longer
leaves all rows done and the request item failed, as the last wave does not see the end. -/
theorem completes_iff_within_budget (cfg : Config) (hp : Persisted template t m db)
    (hno : ∀ y ∈ template.tasks, NoApproval (specOf y)) {f : ℕ → World × Worker}
    (hf : Execution (SmoothSolo cfg) f) (h0 : f 0 = freshCall ⟨db, [], [], []⟩ t m)
    (hfair : FairCall f) :
    (∃ n, ended (f n).2.phase = true) ∧
    ∀ n, ended (f n).2.phase = true → (Completed (f n) ↔
      (∀ y ∈ template.tasks, Bound cfg (specOf y)) ∧
        ChainsBounded (templateNodes template.tasks) depthBudget) := by
  have hsolo : Execution (Solo cfg) f := fun i => (hf i).solo
  have hrun : ∀ i, FreshRun cfg (template.tasks.map specOf) (f i) := by
    intro i
    induction i with
    | zero => rw [h0]; exact freshRun_start hp
    | succ i ih => exact freshRun_step ih (hsolo i)
  refine ⟨call_ends hsolo hfair, fun n he => ⟨within_of_completed (hrun n), ?_⟩⟩
  rintro ⟨hb, hchain⟩
  rw [← nodesOf_template] at hchain
  have hdoable : ∀ s ∈ template.tasks.map specOf, Bound cfg s ∧ NoApproval s := by
    intro s hs
    obtain ⟨y, hy, rfl⟩ := List.mem_map.mp hs
    exact ⟨hb y hy, hno y hy⟩
  have hlevel : ∀ i, LevelOk cfg (template.tasks.map specOf) (f i) := by
    intro i
    induction i with
    | zero => rw [h0]; exact hp.pending
    | succ i ih =>
      exact smooth_level (depsKnown_template template) hdoable hchain (hrun i).fits ih (hf i)
  obtain ⟨r₀, hr₀, _, htotal⟩ := hp.item
  have hstart : CallOk r₀ (f 0) := by
    rw [h0]
    exact hr₀
  have hcall := execution_callOk (n := n) hsolo hstart (fun i _ => below_limit (hlevel i)) n le_rfl
  refine completed_of_level hcall (hlevel n) ?_ he
  rw [htotal]
  simpa using (hrun n).fits.length_eq

end Completeness

theorem played_smooth {cfg : Config} (x : World × Worker) {inps : List WorkerInput}
    (h : ∀ inp ∈ inps, Succeeds inp) : Execution (SmoothSolo cfg) (played cfg x inps) := by
  intro i
  rcases played_step cfg x inps i with ⟨inp, hin, he⟩ | he
  · exact ⟨0, inp, h inp hin, he⟩
  · obtain ⟨j, hj⟩ := worker_idle cfg (played cfg x inps i).1 (played cfg x inps i).2
    exact ⟨0, .child j (.stmt ""), trivial, he.trans hj.symm⟩

def templateTask (name : String) (type : TaskType) (tool : Option String) (deps : List String) :
    CatalogTemplateTask :=
  ⟨name, name, type, none, deps, tool, none, some 60⟩

def sampleTemplate (tasks : List CatalogTemplateTask)
    (h : CatalogTemplateFields.Valid ⟨"laptop", "t", "Laptop", none, "hardware", "it", 60, tasks⟩) :
    CatalogTemplate :=
  { catalogItemId := "laptop", tenantId := "t", name := "Laptop", description := none,
    category := "hardware", ownerGroup := "it", estimatedTotalMinutes := 60, tasks := tasks,
    valid := h }

def laptopTemplate : CatalogTemplate :=
  sampleTemplate [templateTask "a" .automated (some "order_hardware_asset") [],
    templateTask "b" .manual none ["a"]] (by decide)

def toollessTemplate : CatalogTemplate :=
  sampleTemplate [templateTask "a" .automated none []] (by decide)

def toolless : Db :=
  sampleDb (sampleRitm .requested 1) [sampleTask "a" .automated none []] requestedOne_length
    (by decide) (by decide) (by decide)

def orderedWaves : List WorkerInput :=
  [.stmt, .stmt, .stmt, .stmt, .child 0 (.stmt ""), .child 0 (.stmt ""),
    .child 0 (.result (.answer ⟨true, none, none, none⟩)), .child 0 (.stmt ""), .stmt, .stmt,
    .child 0 (.stmt ""), .child 0 (.stmt ""), .stmt, .stmt, .stmt, .stmt, .stmt]

def orderedRun : ℕ → World × Worker := played sampleConfig twoTasksCall orderedWaves

def toollessWaves : List WorkerInput :=
  [.stmt, .stmt, .stmt, .stmt, .child 0 (.stmt ""), .child 0 (.stmt ""), .stmt, .stmt, .stmt,
    .stmt, .stmt]

def toollessRun : ℕ → World × Worker :=
  played sampleConfig (freshCall ⟨toolless, [], [], []⟩ "t" "RITM0000000001") toollessWaves

theorem laptop_persisted : Persisted laptopTemplate "t" "RITM0000000001" twoTasks :=
  ⟨⟨sampleRitm .requested 2, rfl, rfl, rfl⟩, .of_eq rfl, by decide⟩

theorem laptop_bounded : ChainsBounded (templateNodes laptopTemplate.tasks) depthBudget := by
  refine bounded_of_resolved fun a => resolved_of_le (k := 2) (by decide) fun b he c he' => ?_
  simp [Edge, templateNodes, laptopTemplate, sampleTemplate, templateTask] at he he'
  simp [he.2] at he'

theorem completes_iff_within_budget_ordered :
    Persisted laptopTemplate "t" "RITM0000000001" twoTasks ∧ Completed (orderedRun 17) := by
  have hsmooth : ∀ inp ∈ orderedWaves, Succeeds inp := by simp [orderedWaves, Succeeds]
  have hno : ∀ y ∈ laptopTemplate.tasks, NoApproval (specOf y) := by
    unfold NoApproval
    decide
  have hbound : ∀ y ∈ laptopTemplate.tasks, Bound sampleConfig (specOf y) := by
    intro y hy
    rcases List.mem_cons.mp hy with rfl | hy
    · exact .inr ⟨"order_hardware_asset", rfl, by decide, by decide⟩
    · rw [List.mem_singleton.mp hy]
      exact .inl rfl
  exact ⟨laptop_persisted, ((completes_iff_within_budget sampleConfig laptop_persisted hno
    (played_smooth twoTasksCall hsmooth) rfl (played_fair rfl)).2 17 rfl).mpr
    ⟨hbound, laptop_bounded⟩⟩

/-- A template that `CatalogTemplate` accepts: its only task is automated and has no tool, so
the executor fails it as misconfigured although every adapter call (there is none) succeeds. -/
theorem toolless_not_completed :
    Persisted toollessTemplate "t" "RITM0000000001" toolless ∧
    (∀ y ∈ toollessTemplate.tasks, NoApproval (specOf y)) ∧
    Execution (SmoothSolo sampleConfig) toollessRun ∧ FairCall toollessRun ∧
    toollessRun 0 = freshCall ⟨toolless, [], [], []⟩ "t" "RITM0000000001" ∧
    ended (toollessRun 11).2.phase = true ∧
    (rowsOf (toollessRun 11)).map (·.errorCode) = [some "catalog_misconfigured"] ∧
    ¬ Completed (toollessRun 11) := by
  have hsmooth : ∀ inp ∈ toollessWaves, Succeeds inp := by simp [toollessWaves, Succeeds]
  refine ⟨⟨⟨sampleRitm .requested 1, rfl, rfl, rfl⟩, .of_eq rfl, by decide⟩, ?_,
    played_smooth _ hsmooth, played_fair rfl, rfl, rfl, by decide, fun h => ?_⟩
  · unfold NoApproval
    decide
  · exact absurd h.2 (by decide)

end FulfillmentCompletion
