import OneOps.ExecutorGeneration

/-! The wave loop on a growing plan. The invariant reads the two channels back from the
passes so far: each step ran once, the new results are theirs, and the plan is the initial
one with what they generated. The generation trees bound the plan, so the loop ends. -/
namespace ExecutorWaveLoop

open ExecutorPlan
open ExecutorNodes
open ExecutorWaves
open ExecutorGeneration
open BoundedTree
open RowMerge

theorem dispatch_sends {s : ExecutorState} {xs : List Send} (h : dispatchWave s = .sends xs) :
    runnable s ≠ [] ∧ xs = (runnable s).map fun p => ⟨p, s.request, depResults s p⟩ := by
  unfold dispatchWave at h
  by_cases hr : runnable s = []
  · rw [if_pos hr] at h
    cases h
  · rw [if_neg hr] at h
    cases h
    exact ⟨hr, rfl⟩

theorem mem_runnable {s : ExecutorState} {p : Step} :
    p ∈ runnable s ↔ p ∈ s.plan ∧ p.stepId ∉ completed s ∧ ∀ d ∈ p.dependsOn, d ∈ completed s := by
  simp only [runnable, remaining, List.mem_filter, decide_eq_true_eq, and_assoc]

theorem foldl_mergePlan {runs : List StepRun} :
    ∀ {plan : List Step}, (plan.map Step.stepId).Nodup →
      runs.foldl (fun acc r => mergePlan acc r.generated) plan =
        (runs.flatMap (·.generated)).foldl (insertNew Step.stepId) plan := by
  induction runs with
  | nil => intro plan _; rfl
  | cons r runs ih =>
    intro plan h
    have hm : mergePlan plan r.generated = r.generated.foldl (insertNew Step.stepId) plan :=
      mergeFirst_eq_foldl h
    rw [List.foldl_cons, hm, ih (foldl_insertNew_nodup h), List.flatMap_cons, List.foldl_append]

theorem foldl_mergeResults {runs : List StepRun} :
    ∀ {rs : List StepResult}, ((rs ++ runs.map (·.result)).map StepResult.stepId).Nodup →
      runs.foldl (fun acc r => mergeStepResults acc [r.result]) rs = rs ++ runs.map (·.result) := by
  induction runs with
  | nil => intro rs _; simp
  | cons r runs ih =>
    intro rs h
    have hm : mergeStepResults rs [r.result] = rs ++ [r.result] := by
      apply mergeLast_fresh
      refine h.sublist (List.Sublist.map _ ?_)
      simp
    rw [List.foldl_cons, hm, ih (by simpa using h)]
    simp

def runIds (t : Turn) : List String := t.runs.map (·.send.step.stepId)

def offspring (t : Turn) : List Step := t.runs.flatMap (·.generated)

structure Sound (B : Budgets) (s : ExecutorState) (t : Turn) : Prop where
  request : t.state.request = s.request
  plan : t.state.plan = (offspring t).foldl (insertNew Step.stepId) s.plan
  results : t.state.stepResults = s.stepResults ++ t.runs.map (·.result)
  ids : (completed s ++ runIds t).Nodup
  spec : ∀ r ∈ t.runs, Stamped r.send.step r.result ∧ Offspring B r.send.step r.generated
  planned : ∀ r ∈ t.runs, r.send.step ∈ t.state.plan
  waves : t.waves ≤ t.runs.length

/-- What the reducers keep true of the two channels. -/
structure Startable (s : ExecutorState) : Prop where
  ids : (s.plan.map Step.stepId).Nodup
  results : (completed s).Nodup

/-- A plan with distinct ids, before its first wave. -/
structure Initial (s : ExecutorState) : Prop where
  ids : (s.plan.map Step.stepId).Nodup
  results : s.stepResults = []

theorem Initial.completed_nil {s : ExecutorState} (hs : Initial s) : completed s = [] := by
  simp [ExecutorNodes.completed, hs.results]

theorem Initial.startable {s : ExecutorState} (hs : Initial s) : Startable s :=
  ⟨hs.ids, by simp [hs.completed_nil]⟩

section Loop

variable {B : Budgets} {s : ExecutorState} {t : Turn}

theorem Sound.completed_eq (h : Sound B s t) : completed t.state = completed s ++ runIds t := by
  rw [ExecutorNodes.completed, h.results, runIds, List.map_append, List.map_map]
  congr 1
  apply List.map_congr_left
  intro r hr
  exact (h.spec r hr).1.1

theorem Sound.runIds_nodup (h : Sound B s t) : (runIds t).Nodup :=
  (List.nodup_append.mp h.ids).2.1

theorem Sound.plan_nodup (hs : Startable s) (h : Sound B s t) :
    (t.state.plan.map Step.stepId).Nodup := by
  rw [h.plan]
  exact foldl_insertNew_nodup hs.ids

theorem sound_initial (hs : Startable s) : Sound B s ⟨s, [], 0⟩ where
  request := rfl
  plan := rfl
  results := by simp
  ids := by simpa [runIds] using hs.results
  spec _ h := (by cases h)
  planned _ h := (by cases h)
  waves := le_rfl

/-- The new passes are of planned steps that had not run. -/
theorem Sound.wave_ids (hs : Startable s) (h : Sound B s t) {S : Services} {xs : List Send}
    (hx : dispatchWave t.state = .sends xs) :
    (completed s ++ runIds t ++ (xs.map (runStep S B)).map (·.send.step.stepId)).Nodup := by
  obtain ⟨_, rfl⟩ := dispatch_sends hx
  have hids : (((runnable t.state).map fun p =>
      (⟨p, t.state.request, depResults t.state p⟩ : Send)).map
      (runStep S B)).map (·.send.step.stepId) = (runnable t.state).map Step.stepId := by
    rw [List.map_map, List.map_map]
    apply List.map_congr_left
    intro p _
    simp only [Function.comp_apply, runStep_send]
  rw [hids, List.nodup_append]
  refine ⟨h.ids, ?_, ?_⟩
  · exact (h.plan_nodup hs).sublist
      ((List.filter_sublist.trans List.filter_sublist).map Step.stepId)
  · intro a ha b hb hab
    obtain ⟨p, hp, rfl⟩ := List.mem_map.mp hb
    apply (mem_runnable.mp hp).2.1
    rw [h.completed_eq]
    exact hab ▸ ha

theorem Sound.advance (hs : Startable s) (h : Sound B s t) (S : Services) :
    Sound B s (advance S B t) := by
  unfold ExecutorWaves.advance
  cases hx : dispatchWave t.state with
  | aggregate => exact h
  | sends xs =>
    have hnew := h.wave_ids (S := S) hs hx
    have hspec : ∀ r ∈ xs.map (runStep S B),
        Stamped r.send.step r.result ∧ Offspring B r.send.step r.generated := by
      intro r hr
      obtain ⟨x, _, rfl⟩ := List.mem_map.mp hr
      rw [runStep_send]
      exact runStep_spec S B x
    have hstamped : ∀ r ∈ t.runs ++ xs.map (runStep S B),
        Stamped r.send.step r.result ∧ Offspring B r.send.step r.generated := by
      intro r hr
      rcases List.mem_append.mp hr with hr | hr
      · exact h.spec r hr
      · exact hspec r hr
    have hids : ((xs.map (runStep S B)).map (·.result)).map StepResult.stepId =
        (xs.map (runStep S B)).map (·.send.step.stepId) := by
      rw [List.map_map]
      apply List.map_congr_left
      intro r hr
      exact (hspec r hr).1.1
    have hres : ((t.state.stepResults ++ (xs.map (runStep S B)).map (·.result)).map
        StepResult.stepId).Nodup := by
      rw [List.map_append, hids]
      change (ExecutorNodes.completed t.state ++ _).Nodup
      rwa [h.completed_eq]
    have hplan : (applyRuns t.state (xs.map (runStep S B))).plan =
        ((xs.map (runStep S B)).flatMap (·.generated)).foldl (insertNew Step.stepId) t.state.plan :=
      foldl_mergePlan (h.plan_nodup hs)
    constructor
    · exact h.request
    · rw [hplan, h.plan]
      simp only [offspring, List.flatMap_append, List.foldl_append]
    · change List.foldl _ t.state.stepResults _ = _
      rw [foldl_mergeResults hres, h.results, List.map_append, List.append_assoc]
    · simpa [runIds] using hnew
    · exact hstamped
    · intro r hr
      change r.send.step ∈ (applyRuns t.state (xs.map (runStep S B))).plan
      rw [hplan]
      apply mem_foldl_insertNew
      rcases List.mem_append.mp hr with hr | hr
      · exact h.planned r hr
      · obtain ⟨x, hxm, rfl⟩ := List.mem_map.mp hr
        obtain ⟨_, rfl⟩ := dispatch_sends hx
        obtain ⟨p, hp, rfl⟩ := List.mem_map.mp hxm
        rw [runStep_send]
        exact (mem_runnable.mp hp).1
    · have hpos : 0 < xs.length := by
        obtain ⟨hne, rfl⟩ := dispatch_sends hx
        rw [List.length_map]
        exact List.length_pos_iff.mpr hne
      have := h.waves
      simp only [List.length_append, List.length_map]
      omega

theorem sound_after (hs : Startable s) (S : ℕ → Services) (n : ℕ) : Sound B s (after S B s n) := by
  induction n with
  | zero => exact sound_initial hs
  | succ n ih => exact ih.advance hs (S n)

theorem Sound.offspring_nodup (h : Sound B s t) : ((offspring t).map Step.stepId).Nodup := by
  rw [offspring, List.map_flatMap, List.nodup_flatMap]
  refine ⟨fun r hr => (h.spec r hr).2.ids, ?_⟩
  -- different passes are of different parents
  have hne : t.runs.Pairwise fun a b => a.send.step.stepId ≠ b.send.step.stepId :=
    List.pairwise_map.mp h.runIds_nodup
  refine hne.imp_of_mem fun ha hb hab => ?_
  intro k hka hkb
  obtain ⟨g, hg, rfl⟩ := List.mem_map.mp hka
  obtain ⟨g', hg', he⟩ := List.mem_map.mp hkb
  obtain ⟨i, hi⟩ := (h.spec _ ha).2.named g hg
  obtain ⟨j, hj⟩ := (h.spec _ hb).2.named g' hg'
  exact hab (generatedId_inj (hi.symm.trans (he.symm.trans hj))).1

def kept (s : ExecutorState) (t : Turn) : List Step :=
  (offspring t).filter fun g => g.stepId ∉ s.plan.map Step.stepId

theorem Sound.plan_eq (h : Sound B s t) : t.state.plan = s.plan ++ kept s t := by
  rw [h.plan, foldl_insertNew_filter h.offspring_nodup, kept]

def spawned (s : ExecutorState) (t : Turn) (p : Step) : List Step :=
  (((t.runs.filter fun r => r.send.step.stepId = p.stepId).flatMap (·.generated))).filter
    fun g => g.stepId ∉ s.plan.map Step.stepId

theorem Sound.run_of_step (hs : Startable s) (h : Sound B s t) {r : StepRun} {p : Step}
    (hr : r ∈ t.runs) (hp : p ∈ t.state.plan) (he : r.send.step.stepId = p.stepId) :
    r.send.step = p :=
  List.inj_on_of_nodup_map (h.plan_nodup hs) (h.planned r hr) hp he

theorem mem_spawned {p g : Step} : g ∈ spawned s t p ↔
    (∃ r ∈ t.runs, r.send.step.stepId = p.stepId ∧ g ∈ r.generated) ∧
      g.stepId ∉ s.plan.map Step.stepId := by
  simp [spawned, List.mem_filter, List.mem_flatMap, and_assoc]

theorem Sound.spawned_kept {p g : Step} (hg : g ∈ spawned s t p) : g ∈ kept s t := by
  obtain ⟨⟨r, hr, _, hgr⟩, hn⟩ := mem_spawned.mp hg
  apply List.mem_filter.mpr
  exact ⟨List.mem_flatMap.mpr ⟨r, hr, hgr⟩, by simpa using hn⟩

theorem Sound.spawned_offspring (hs : Startable s) (h : Sound B s t) {p : Step}
    (hp : p ∈ t.state.plan) : Offspring B p (spawned s t p) := by
  have hids : (t.runs.map fun r => r.send.step.stepId).Nodup := h.runIds_nodup
  rcases filter_key hids p.stepId with hn | ⟨r, hr, hk, he⟩
  · simp only [spawned, hn, List.flatMap_nil, List.filter_nil]
    exact Offspring.nil B p
  · simp only [spawned, he, List.flatMap_cons, List.flatMap_nil, List.append_nil]
    rw [← h.run_of_step hs hr hp hk]
    exact (h.spec r hr).2.sublist List.filter_sublist

def levels (B : Budgets) (p : Step) : ℕ := maxDepth B p - p.genDepth

theorem Sound.graded (hs : Startable s) (h : Sound B s t) (W D : ℕ) :
    Graded (spawned s t) (fun p => p ∈ t.state.plan ∧ maxWidth B p = W ∧ maxDepth B p = D)
      (levels B) W := by
  constructor
  · rintro p ⟨hp, hw, _⟩
    exact hw ▸ (h.spawned_offspring hs hp).width
  · rintro p ⟨hp, hw, hd⟩ g hg
    have hb := (h.spawned_offspring hs hp).budgets hg
    refine ⟨?_, hb.1.trans hw, hb.2.trans hd⟩
    rw [h.plan_eq]
    exact List.mem_append_right _ (Sound.spawned_kept hg)
  · rintro p ⟨hp, _, _⟩ g hg
    have ho := h.spawned_offspring hs hp
    have hlt := ho.depth (List.ne_nil_of_mem hg)
    have hb := ho.budgets hg
    have hd := ho.deeper g hg
    unfold levels
    omega

/-- Every generated step descends from a step of the initial plan. -/
theorem Sound.descends (h : Sound B s t) :
    ∀ (d : ℕ) (g : Step), g.genDepth = d → g ∈ kept s t →
      ∃ o ∈ s.plan, Descends (spawned s t) o g := by
  intro d
  induction d with
  | zero =>
    intro g hd hg
    obtain ⟨r, hr, hgr⟩ := List.mem_flatMap.mp (List.mem_filter.mp hg).1
    have := (h.spec r hr).2.deeper g hgr
    omega
  | succ d ih =>
    intro g hd hg
    obtain ⟨hgo, hn⟩ := List.mem_filter.mp hg
    obtain ⟨r, hr, hgr⟩ := List.mem_flatMap.mp hgo
    have edge : g ∈ spawned s t r.send.step :=
      mem_spawned.mpr ⟨⟨r, hr, rfl, hgr⟩, by simpa using hn⟩
    have hp := h.planned r hr
    rw [h.plan_eq] at hp
    rcases List.mem_append.mp hp with hp | hp
    · exact ⟨r.send.step, hp, .single edge⟩
    · have hdeep := (h.spec r hr).2.deeper g hgr
      obtain ⟨o, ho, hd⟩ := ih r.send.step (by omega) hp
      exact ⟨o, ho, .tail hd edge⟩

open Classical in
noncomputable def below (s : ExecutorState) (t : Turn) (o : Step) : List Step :=
  (kept s t).filter fun g => Descends (spawned s t) o g

theorem Sound.below_le (hs : Startable s) (h : Sound B s t) {o : Step} (ho : o ∈ s.plan) :
    (below s t o).length ≤ treeSize (maxWidth B o) (levels B o) := by
  have hplan : o ∈ t.state.plan := by
    rw [h.plan_eq]
    exact List.mem_append_left _ ho
  have hn : ((below s t o).map Step.stepId).Nodup :=
    h.offspring_nodup.sublist ((List.filter_sublist.trans List.filter_sublist).map _)
  apply (h.graded hs (maxWidth B o) (maxDepth B o)).count_le hn ⟨hplan, rfl, rfl⟩
  intro g hg
  simpa using (List.mem_filter.mp hg).2

theorem Sound.kept_le (hs : Startable s) (h : Sound B s t) :
    (kept s t).length ≤ (s.plan.map fun o => treeSize (maxWidth B o) (levels B o)).sum := by
  have hcover : (kept s t).map Step.stepId ⊆ (s.plan.flatMap (below s t)).map Step.stepId := by
    intro k hk
    obtain ⟨g, hg, rfl⟩ := List.mem_map.mp hk
    obtain ⟨o, ho, hd⟩ := h.descends _ g rfl hg
    apply List.mem_map_of_mem
    exact List.mem_flatMap.mpr ⟨o, ho, List.mem_filter.mpr ⟨hg, by simpa using hd⟩⟩
  have hn : ((kept s t).map Step.stepId).Nodup :=
    h.offspring_nodup.sublist (List.filter_sublist.map _)
  have hle := (hn.subperm hcover).length_le
  rw [List.length_map, List.length_map, List.length_flatMap] at hle
  exact hle.trans (List.sum_le_sum fun o ho => h.below_le hs ho)

def planBound (B : Budgets) (s : ExecutorState) : ℕ :=
  s.plan.length + (s.plan.map fun o => treeSize (maxWidth B o) (levels B o)).sum

theorem Sound.runs_le (hs : Startable s) (h : Sound B s t) : t.runs.length ≤ planBound B s := by
  have hsub : runIds t ⊆ t.state.plan.map Step.stepId := by
    intro k hk
    obtain ⟨r, hr, rfl⟩ := List.mem_map.mp hk
    exact List.mem_map_of_mem (h.planned r hr)
  have hle := (h.runIds_nodup.subperm hsub).length_le
  rw [runIds, List.length_map, List.length_map, h.plan_eq, List.length_append] at hle
  have := h.kept_le hs
  unfold planBound
  omega

/-- While the loop goes on, every wave counts. -/
theorem waves_of_going {S : ℕ → Services} {n : ℕ}
    (h : ∀ m < n, dispatchWave (after S B s m).state ≠ .aggregate) :
    (after S B s n).waves = n := by
  induction n with
  | zero => rfl
  | succ n ih =>
    have hn := ih fun m hm => h m (by omega)
    have hd := h n (by omega)
    change (advance (S n) B (after S B s n)).waves = n + 1
    unfold advance
    cases hx : dispatchWave (after S B s n).state with
    | aggregate => exact absurd hx hd
    | sends xs => exact congrArg (· + 1) hn

theorem loop_ends (hs : Startable s) (S : ℕ → Services) :
    ∃ n ≤ planBound B s, dispatchWave (after S B s n).state = .aggregate := by
  by_contra hc
  push Not at hc
  have hw := waves_of_going (S := S) (B := B) (s := s) (n := planBound B s + 1)
    fun m hm => hc m (by omega)
  have hsound := sound_after (B := B) hs S (planBound B s + 1)
  have h₁ := hsound.waves
  have h₂ := hsound.runs_le hs
  omega

def position (plan : List Step) (k : String) : ℕ :=
  (plan.findIdx? fun p => p.stepId = k).getD (10 ^ 6)

theorem position_get {plan : List Step} (hn : (plan.map Step.stepId).Nodup) {i : ℕ}
    (hi : i < plan.length) : position plan plan[i].stepId = i := by
  have hfind : (plan.findIdx? fun p => p.stepId = plan[i].stepId) = some i := by
    rw [List.findIdx?_eq_some_iff_getElem]
    refine ⟨hi, by simp, ?_⟩
    intro j hj he
    rw [decide_eq_true_eq] at he
    have heq := List.inj_on_of_nodup_map hn (List.getElem_mem (by omega)) (List.getElem_mem hi) he
    have hij := (List.Nodup.getElem_inj_iff hn.of_map).mp heq
    omega
  rw [position, hfind, Option.getD_some]

/-- Rows that name the plan's steps, sorted by plan position, name them in plan order. -/
theorem sorted_ids {plan : List Step} {rows : List StepResult}
    (hn : (plan.map Step.stepId).Nodup)
    (hp : (rows.map StepResult.stepId).Perm (plan.map Step.stepId)) :
    ((rows.insertionSort fun a b => position plan a.stepId ≤ position plan b.stepId).map
      StepResult.stepId) = plan.map Step.stepId := by
  let le : StepResult → StepResult → Prop :=
    fun a b => position plan a.stepId ≤ position plan b.stepId
  have : Std.Total le := ⟨fun a b => Nat.le_total _ _⟩
  have : IsTrans StepResult le := ⟨fun a b c => Nat.le_trans⟩
  have hat : ∀ k ∈ plan.map Step.stepId, ∃ i, ∃ h : i < plan.length, plan[i].stepId = k := by
    intro k hk
    obtain ⟨p, hp, rfl⟩ := List.mem_map.mp hk
    obtain ⟨i, hi, rfl⟩ := List.getElem_of_mem hp
    exact ⟨i, hi, rfl⟩
  have hsort : ((rows.insertionSort le).map StepResult.stepId).Perm (plan.map Step.stepId) :=
    ((List.perm_insertionSort le rows).map _).trans hp
  refine @List.Perm.eq_of_pairwise _ (fun a b => position plan a ≤ position plan b) _ _ ?_ ?_ ?_
    hsort
  · intro a b ha hb hab hba
    obtain ⟨i, hi, rfl⟩ := hat a (hsort.subset ha)
    obtain ⟨j, hj, rfl⟩ := hat b hb
    rw [position_get hn, position_get hn] at hab hba
    have hij : i = j := by omega
    subst hij
    rfl
  · exact List.pairwise_map.mpr (List.pairwise_insertionSort le rows)
  · rw [List.pairwise_map, List.pairwise_iff_getElem]
    intro i j hi hj hij
    rw [position_get hn, position_get hn]
    exact hij.le

theorem Sound.turn_results (hs : Initial s) (h : Sound B s t) :
    turnResults t.state =
      (t.runs.filter fun r => thisTurn s.request.requestId r.send.step.turnId).map (·.result) := by
  rw [turnResults, h.results, hs.results, List.nil_append, h.request, List.filter_map]
  congr 1
  apply List.filter_congr
  intro r hr
  rw [Function.comp_apply, (h.spec r hr).1.2]

/-- The results that `aggregate` collects name the turn's plan, each step once. -/
theorem Sound.collected (hs : Initial s) (h : Sound B s t) :
    ((turnResults t.state ++ synthesized t.state).map StepResult.stepId).Perm
      ((turnPlan t.state).map Step.stepId) := by
  have hplan : ((turnPlan t.state).map Step.stepId).Nodup :=
    (h.plan_nodup hs.startable).sublist (List.filter_sublist.map _)
  have hids : (turnResults t.state).map StepResult.stepId =
      (t.runs.filter fun r => thisTurn s.request.requestId r.send.step.turnId).map
        (·.send.step.stepId) := by
    rw [h.turn_results hs, List.map_map]
    apply List.map_congr_left
    intro r hr
    exact (h.spec r (List.mem_filter.mp hr).1).1.1
  have hsyn : (synthesized t.state).map StepResult.stepId =
      ((turnPlan t.state).filter fun p =>
        p.stepId ∉ (turnResults t.state).map (·.stepId)).map Step.stepId := by
    rw [synthesized, List.map_map]
    rfl
  rw [List.map_append]
  apply (List.perm_ext_iff_of_nodup ?_ hplan).mpr
  · intro k
    rw [List.mem_append, hsyn]
    constructor
    · rintro (hk | hk)
      · rw [hids] at hk
        obtain ⟨r, hr, rfl⟩ := List.mem_map.mp hk
        obtain ⟨hr, ht⟩ := List.mem_filter.mp hr
        apply List.mem_map_of_mem
        exact List.mem_filter.mpr ⟨h.planned r hr, by rw [h.request]; exact ht⟩
      · obtain ⟨p, hp, rfl⟩ := List.mem_map.mp hk
        exact List.mem_map_of_mem (List.mem_filter.mp hp).1
    · intro hk
      by_cases hr : k ∈ (turnResults t.state).map StepResult.stepId
      · exact .inl hr
      · obtain ⟨p, hp, rfl⟩ := List.mem_map.mp hk
        exact .inr (List.mem_map_of_mem (List.mem_filter.mpr ⟨hp, by simpa using hr⟩))
  · rw [List.nodup_append]
    refine ⟨?_, ?_, ?_⟩
    · rw [hids]
      exact h.runIds_nodup.sublist (List.filter_sublist.map _)
    · rw [hsyn]
      exact hplan.sublist (List.filter_sublist.map _)
    · intro a ha b hb hab
      rw [hsyn] at hb
      obtain ⟨p, hp, rfl⟩ := List.mem_map.mp hb
      have hn := (List.mem_filter.mp hp).2
      rw [decide_eq_true_eq] at hn
      exact hn (hab ▸ ha)

theorem Sound.ordered_ids (hs : Initial s) (h : Sound B s t) :
    (ordered t.state).map StepResult.stepId = (turnPlan t.state).map Step.stepId :=
  sorted_ids ((h.plan_nodup hs.startable).sublist (List.filter_sublist.map _)) (h.collected hs)

theorem Sound.turnPlan_eq (h : Sound B s t)
    (ht : ∀ p ∈ s.plan, thisTurn s.request.requestId p.turnId = true) :
    turnPlan t.state = t.state.plan := by
  rw [turnPlan, List.filter_eq_self]
  intro p hp
  rw [h.request]
  rw [h.plan_eq] at hp
  rcases List.mem_append.mp hp with hp | hp
  · exact ht p hp
  · obtain ⟨r, hr, hg⟩ := List.mem_flatMap.mp (List.mem_filter.mp hp).1
    rw [(h.spec r hr).2.untagged p hg]
    simp [thisTurn]

end Loop

/-- The wave loop always ends and runs nothing twice, whatever the handlers generate; the
generated steps are named apart and fill at most a tree of the budgeted depth and width
below each initial step; `aggregate` has one entry for each step of the plan. -/
theorem wave_loop_terminates (S : ℕ → Services) (B : Budgets) (s : ExecutorState)
    (hs : Initial s) :
    (∃ n, dispatchWave (after S B s n).state = .aggregate) ∧
    ∀ n,
      ((after S B s n).runs.map (·.send.step.stepId)).Nodup ∧
      ((offspring (after S B s n)).map Step.stepId).Nodup ∧
      (after S B s n).state.plan = s.plan ++ kept s (after S B s n) ∧
      (∀ g ∈ kept s (after S B s n), ∃ o ∈ s.plan, g ∈ below s (after S B s n) o) ∧
      (∀ o ∈ s.plan, (below s (after S B s n) o).length ≤
        ∑ l ∈ Finset.range (maxDepth B o - o.genDepth), maxWidth B o ^ (l + 1)) ∧
      (ordered (after S B s n).state).map StepResult.stepId =
        (turnPlan (after S B s n).state).map Step.stepId ∧
      ((∀ p ∈ s.plan, thisTurn s.request.requestId p.turnId = true) →
        turnPlan (after S B s n).state = (after S B s n).state.plan) := by
  constructor
  · obtain ⟨n, _, hn⟩ := loop_ends hs.startable S
    exact ⟨n, hn⟩
  · intro n
    have h := sound_after (B := B) hs.startable S n
    refine ⟨h.runIds_nodup, h.offspring_nodup, h.plan_eq, ?_,
      fun o ho => h.below_le hs.startable ho,
      h.ordered_ids hs, h.turnPlan_eq⟩
    intro g hg
    obtain ⟨o, ho, hd⟩ := h.descends _ g rfl hg
    exact ⟨o, ho, List.mem_filter.mpr ⟨hg, by simpa using hd⟩⟩

/-- Every handler asks for two more steps, each time it runs. -/
def spawningServices : Services :=
  { failingServices with
    run := fun _ _ _ _ =>
      .replied .success .null none "" none [⟨"uc_b", [], []⟩, ⟨"uc_b", [], []⟩] }

def spawningPlan : ExecutorState :=
  startOf [plainStep "step_1" "uc_b" [], plainStep "step_2" "uc_b" ["ghost"]]

theorem wave_loop_terminates_spawning :
    Initial spawningPlan ∧
    (∃ n, dispatchWave (after (fun _ => spawningServices) defaultBudgets spawningPlan n).state =
      .aggregate) ∧
    ∀ n, (below spawningPlan (after (fun _ => spawningServices) defaultBudgets spawningPlan n)
      (plainStep "step_1" "uc_b" [])).length ≤ 8 + 8 ^ 2 + 8 ^ 3 := by
  have hs : Initial spawningPlan := ⟨by decide, rfl⟩
  have h := wave_loop_terminates (fun _ => spawningServices) defaultBudgets spawningPlan hs
  refine ⟨hs, h.1, fun n => ?_⟩
  have hb := (h.2 n).2.2.2.2.1 (plainStep "step_1" "uc_b" []) List.mem_cons_self
  have hsum : ∑ l ∈ Finset.range (maxDepth defaultBudgets (plainStep "step_1" "uc_b" []) -
      (plainStep "step_1" "uc_b" []).genDepth),
      maxWidth defaultBudgets (plainStep "step_1" "uc_b" []) ^ (l + 1) = 8 + 8 ^ 2 + 8 ^ 3 := by
    decide
  rw [hsum] at hb
  exact hb

end ExecutorWaveLoop
