import OneOps.RouterPlan
import OneOps.ExecutorRecursionLimit

/-! Turns on one checkpoint thread. The plan and result channels outlive a turn, every turn
numbers its steps from `step_1`, and the completed set is taken over all turns; the turn
stamp only filters what `aggregate` shows. So the first plan on a thread runs as it should,
and every later one finds its ids taken. -/
namespace ExecutorTurns

open ExecutorPlan
open ExecutorNodes
open ExecutorWaves
open ExecutorGeneration
open ExecutorWaveLoop
open ExecutorRecursionLimit
open RouterPlan
open RowMerge

/-- The channels that the checkpointer keeps between turns. -/
structure Thread where
  plan : List Step
  stepResults : List StepResult

/-- One request on the thread. Without a routed sub-query there is no plan. -/
structure TurnInput where
  request : Request
  registry : CheckedRegistry
  routes : List SubQueryRoute
  unrouted : List String
  services : ℕ → Services

def TurnInput.plan (i : TurnInput) : Option (List Step) :=
  (assemblePlan i.registry i.routes).map fun steps => serialisePlan steps i.request.requestId

/-- The graph's state after the `route` node wrote the plan. -/
def startTurn (th : Thread) (i : TurnInput) (p : List Step) : ExecutorState :=
  ⟨i.request, mergePlan th.plan p, th.stepResults, i.unrouted⟩

def routedTurn (B : Budgets) (th : Thread) (i : TurnInput) (p : List Step) : Turn :=
  finalTurn i.services B (startTurn th i p)

def runTurn (B : Budgets) (th : Thread) (i : TurnInput) : Thread :=
  match i.plan with
  | none => th
  | some p => ⟨(routedTurn B th i p).state.plan, (routedTurn B th i p).state.stepResults⟩

def threadAfter (B : Budgets) (turns : List TurnInput) : Thread := turns.foldl (runTurn B) ⟨[], []⟩

structure Distinct (turns : List TurnInput) : Prop where
  ids : (turns.map (·.request.requestId)).Nodup
  named : ∀ i ∈ turns, i.request.requestId ≠ ""

/-- Each step of the turn's plan has one pass, and `aggregate` shows one entry for each
planned and generated step of this turn: the result of its pass, or the placeholder of a
step that could not run. -/
structure Isolated (p : List Step) (t : Turn) : Prop where
  executed : ∀ q ∈ p,
    (t.runs.filter fun r => r.send.step.stepId = q.stepId).map (·.send.step) = [q]
  rendered : (ordered t.state).map StepResult.stepId = (p ++ offspring t).map Step.stepId
  shown : ∀ r ∈ t.runs, r.result ∈ ordered t.state
  current : ∀ e ∈ ordered t.state, (∃ r ∈ t.runs, r.result = e) ∨ e ∈ synthesized t.state

def Clear (th : Thread) (p : List Step) : Prop :=
  th.plan = [] ∨ (p = [] ∧ ∀ q ∈ th.plan, q.turnId ≠ none)

structure OwnPlan (turnId : String) (p : List Step) : Prop where
  step : ∀ i, ∀ h : i < p.length, p[i].stepId = stepName (i + 1) ∧
    ∀ d ∈ p[i].dependsOn, ∃ j < i, d = stepName (j + 1)
  ids : (p.map Step.stepId).Nodup
  stamp : ∀ q ∈ p, q.turnId = some turnId

theorem TurnInput.ownPlan {i : TurnInput} {p : List Step} (h : i.plan = some p)
    (hid : i.request.requestId ≠ "") : OwnPlan i.request.requestId p := by
  obtain ⟨steps, hs, rfl⟩ := Option.map_eq_some_iff.mp h
  have hn := assemblePlan_numbered hs
  constructor
  · intro k hk
    exact serialisePlan_step hn hk
  · exact serialisePlan_nodup hn
  · intro q hq
    exact serialisePlan_turnId hid hq

theorem OwnPlan.nodot {turnId : String} {p : List Step} (h : OwnPlan turnId p) {q : Step}
    (hq : q ∈ p) : '.' ∉ q.stepId.toList := by
  obtain ⟨i, hi, rfl⟩ := List.getElem_of_mem hq
  rw [(h.step i hi).1]
  exact stepName_nodot _

theorem mergePlan_eq {left right : List Step} (hl : (left.map Step.stepId).Nodup)
    (hr : (right.map Step.stepId).Nodup) :
    mergePlan left right = left ++ right.filter fun q => q.stepId ∉ left.map Step.stepId := by
  have hm : mergePlan left right = right.foldl (insertNew Step.stepId) left :=
    mergeFirst_eq_foldl hl
  rw [hm, foldl_insertNew_filter hr]

section Loop

variable {B : Budgets} {s : ExecutorState} {t : Turn} {S : ℕ → Services}

theorem runnable_nil_of_aggregate (h : dispatchWave s = .aggregate) : runnable s = [] := by
  by_contra hr
  rw [dispatchWave, if_neg hr] at h
  cases h

theorem finalTurn_ended (hs : Startable s) : runnable (finalTurn S B s).state = [] := by
  obtain ⟨n, hle, hn⟩ := loop_ends (B := B) hs S
  obtain ⟨k, hk⟩ := Nat.exists_eq_add_of_le hle
  apply runnable_nil_of_aggregate
  rw [finalTurn, hk, advance_ended hn k]
  exact hn

theorem finalTurn_sound (hs : Startable s) : Sound B s (finalTurn S B s) :=
  sound_after hs S _

/-- With nothing to run, the loop is over before its first wave. -/
theorem finalTurn_idle (h : runnable s = []) : finalTurn S B s = ⟨s, [], 0⟩ := by
  have hd : dispatchWave (after S B s 0).state = .aggregate := if_pos h
  have := advance_ended hd (planBound B s)
  rwa [Nat.zero_add] at this

theorem own_completed {turnId : String} {p : List Step} (hp : OwnPlan turnId p)
    (hplan : ∀ q ∈ p, q ∈ s.plan) (hend : runnable s = []) :
    ∀ i, ∀ h : i < p.length, p[i].stepId ∈ completed s := by
  intro i
  induction i using Nat.strong_induction_on with
  | _ i ih =>
    intro hi
    by_contra hc
    have hrun : p[i] ∈ runnable s := by
      apply mem_runnable.mpr
      refine ⟨hplan _ (List.getElem_mem hi), hc, ?_⟩
      intro d hd
      obtain ⟨j, hj, rfl⟩ := (hp.step i hi).2 d hd
      rw [← (hp.step j (hj.trans hi)).1]
      exact ih j hj _
    rw [hend] at hrun
    cases hrun

end Loop

structure Kept (turnIds : List String) (th : Thread) : Prop where
  planIds : (th.plan.map Step.stepId).Nodup
  resultIds : (th.stepResults.map StepResult.stepId).Nodup
  stamped : ∀ r ∈ th.stepResults, ∃ q ∈ th.plan, Stamped q r
  settled : ∀ q ∈ th.plan, q.stepId ∉ th.stepResults.map StepResult.stepId →
    ∃ d ∈ q.dependsOn, d ∉ th.stepResults.map StepResult.stepId
  begun : th.plan ≠ [] → stepName 1 ∈ th.stepResults.map StepResult.stepId
  stamps : ∀ q ∈ th.plan, ∀ turnId, q.turnId = some turnId → turnId ∈ turnIds

theorem kept_start : Kept [] ⟨[], []⟩ where
  planIds := List.nodup_nil
  resultIds := List.nodup_nil
  stamped _ h := (by cases h)
  settled _ h := (by cases h)
  begun h := absurd rfl h
  stamps _ h := (by cases h)

section Turn

variable {B : Budgets} {turnIds : List String} {th : Thread} {i : TurnInput} {p : List Step}

theorem Kept.startable (h : Kept turnIds th) : Startable (startTurn th i p) := by
  refine ⟨?_, h.resultIds⟩
  have hm : mergePlan th.plan p = p.foldl (insertNew Step.stepId) th.plan :=
    mergeFirst_eq_foldl h.planIds
  rw [startTurn, hm]
  exact foldl_insertNew_nodup h.planIds

theorem Kept.start_plan (h : Kept turnIds th) (hid : i.request.requestId ≠ "")
    (hp : i.plan = some p) : (startTurn th i p).plan =
      th.plan ++ p.filter fun q => q.stepId ∉ th.plan.map Step.stepId :=
  mergePlan_eq h.planIds (TurnInput.ownPlan hp hid).ids

theorem Kept.start_first (h : Kept turnIds th) (hid : i.request.requestId ≠ "")
    (hp : i.plan = some p) (hth : th.plan = []) : (startTurn th i p).plan = p := by
  rw [h.start_plan hid hp, hth]
  simp

/-- A first plan that is not empty begins with `step_1`, and it runs. -/
theorem Kept.routed_begun (h : Kept turnIds th) (hid : i.request.requestId ≠ "")
    (hp : i.plan = some p) (hne : (routedTurn B th i p).state.plan ≠ []) :
    stepName 1 ∈ completed (routedTurn B th i p).state := by
  have hs : Startable (startTurn th i p) := h.startable
  have hsound : Sound B _ (routedTurn B th i p) := finalTurn_sound hs
  have hplan := hsound.plan_eq
  by_cases hth : th.plan = []
  · have hown := TurnInput.ownPlan hp hid
    have hstart := h.start_first hid hp hth
    have hpos : 0 < p.length := by
      rw [List.length_pos_iff]
      rintro rfl
      have hk := hsound.kept_le hs
      rw [hstart] at hk hplan
      have hnil : kept (startTurn th i []) (routedTurn B th i []) = [] := by
        rw [← List.length_eq_zero_iff]
        simpa using hk
      exact hne (by rw [hplan, hnil]; rfl)
    have hend : runnable (routedTurn B th i p).state = [] := finalTurn_ended hs
    rw [← (hown.step 0 hpos).1]
    refine own_completed hown ?_ hend 0 hpos
    intro q hq
    rw [hplan, hstart]
    exact List.mem_append_left _ hq
  · rw [hsound.completed_eq]
    exact List.mem_append_left _ (h.begun hth)

theorem Kept.routed (h : Kept turnIds th) (hid : i.request.requestId ≠ "") (hp : i.plan = some p) :
    Kept (turnIds ++ [i.request.requestId])
      ⟨(routedTurn B th i p).state.plan, (routedTurn B th i p).state.stepResults⟩ := by
  have hs : Startable (startTurn th i p) := h.startable
  have hown := TurnInput.ownPlan hp hid
  have hsound : Sound B _ (routedTurn B th i p) := finalTurn_sound hs
  have hend : runnable (routedTurn B th i p).state = [] := finalTurn_ended hs
  have hstart := h.start_plan hid hp
  have hplan := hsound.plan_eq
  have hresults := hsound.results
  constructor <;> dsimp only
  · exact hsound.plan_nodup hs
  · change (completed (routedTurn B th i p).state).Nodup
    rw [hsound.completed_eq]
    exact hsound.ids
  · intro r hr
    rw [hresults] at hr
    rcases List.mem_append.mp hr with hr | hr
    · obtain ⟨q, hq, hst⟩ := h.stamped r hr
      refine ⟨q, ?_, hst⟩
      rw [hplan, hstart]
      simp [hq]
    · obtain ⟨run, hrun, rfl⟩ := List.mem_map.mp hr
      exact ⟨_, hsound.planned run hrun, (hsound.spec run hrun).1⟩
  · intro q hq hc
    by_contra hd
    push Not at hd
    have hrun : q ∈ runnable (routedTurn B th i p).state := mem_runnable.mpr ⟨hq, hc, hd⟩
    rw [hend] at hrun
    cases hrun
  · exact fun hne => h.routed_begun hid hp hne
  · intro q hq turnId ht
    rw [hplan, hstart] at hq
    rcases List.mem_append.mp hq with hq | hq
    · rcases List.mem_append.mp hq with hq | hq
      · exact List.mem_append_left _ (h.stamps q hq turnId ht)
      · have := hown.stamp q (List.mem_filter.mp hq).1
        rw [this] at ht
        cases ht
        simp
    · obtain ⟨run, hrun, hg⟩ := List.mem_flatMap.mp (List.mem_filter.mp hq).1
      rw [(hsound.spec run hrun).2.untagged q hg] at ht
      cases ht

theorem Kept.runTurn (h : Kept turnIds th) (hid : i.request.requestId ≠ "") :
    Kept (turnIds ++ [i.request.requestId]) (runTurn B th i) := by
  unfold ExecutorTurns.runTurn
  cases hp : i.plan with
  | none =>
    refine ⟨h.planIds, h.resultIds, h.stamped, h.settled, h.begun, ?_⟩
    intro q hq turnId ht
    exact List.mem_append_left _ (h.stamps q hq turnId ht)
  | some p => exact h.routed hid hp

theorem threadAfter_kept (B : Budgets) {turns : List TurnInput}
    (hn : ∀ i ∈ turns, i.request.requestId ≠ "") :
    Kept (turns.map (·.request.requestId)) (threadAfter B turns) := by
  induction turns using List.reverseRecOn with
  | nil => exact kept_start
  | append_singleton turns i ih =>
    rw [threadAfter, List.foldl_append, List.map_append]
    exact (ih fun j hj => hn j (by simp [hj])).runTurn (hn i (by simp))

theorem mem_ordered {s : ExecutorState} {e : StepResult} :
    e ∈ ordered s ↔ e ∈ turnResults s ∨ e ∈ synthesized s := by
  rw [ordered, List.mem_insertionSort, List.mem_append]

theorem Kept.results_nil (h : Kept turnIds th) (hth : th.plan = []) : th.stepResults = [] := by
  rw [List.eq_nil_iff_forall_not_mem]
  intro r hr
  obtain ⟨q, hq, _⟩ := h.stamped r hr
  rw [hth] at hq
  cases hq

/-- Generated ids have a dot and planned ones have none, so every generated step is new. -/
theorem kept_eq_offspring {s : ExecutorState} {t : Turn} (hs : Sound B s t)
    (hdot : ∀ q ∈ s.plan, '.' ∉ q.stepId.toList) : kept s t = offspring t := by
  rw [kept, List.filter_eq_self]
  intro g hg
  rw [decide_eq_true_eq]
  intro hmem
  obtain ⟨q, hq, he⟩ := List.mem_map.mp hmem
  obtain ⟨run, hrun, hgr⟩ := List.mem_flatMap.mp hg
  obtain ⟨k, hk⟩ := (hs.spec run hrun).2.named g hgr
  apply hdot q hq
  rw [he, hk, generatedId_toList]
  simp

theorem isolated_of_first {s : ExecutorState} {S : ℕ → Services}
    (hown : OwnPlan s.request.requestId s.plan) (hs : Initial s) :
    Isolated s.plan (finalTurn S B s) := by
  have hsound : Sound B s (finalTurn S B s) := finalTurn_sound hs.startable
  have hend : runnable (finalTurn S B s).state = [] := finalTurn_ended hs.startable
  have hplan := hsound.plan_eq
  have hturn : turnPlan (finalTurn S B s).state = (finalTurn S B s).state.plan := by
    apply hsound.turnPlan_eq
    intro q hq
    rw [hown.stamp q hq]
    simp [thisTurn]
  have hresults : turnResults (finalTurn S B s).state = (finalTurn S B s).runs.map (·.result) := by
    rw [hsound.turn_results hs, List.filter_eq_self.mpr]
    intro run hrun
    have hmem := hsound.planned run hrun
    rw [← hturn] at hmem
    have := (List.mem_filter.mp hmem).2
    rwa [hsound.request] at this
  have hcompleted : completed (finalTurn S B s).state = runIds (finalTurn S B s) := by
    rw [hsound.completed_eq, hs.completed_nil, List.nil_append]
  constructor
  · intro q hq
    obtain ⟨k, hk, rfl⟩ := List.getElem_of_mem hq
    have hin : ∀ q ∈ s.plan, q ∈ (finalTurn S B s).state.plan := by
      intro q hq
      rw [hplan]
      exact List.mem_append_left _ hq
    have hdone := own_completed hown hin hend k hk
    rw [hcompleted] at hdone
    obtain ⟨run, hrun, hid⟩ := List.mem_map.mp hdone
    have hids : ((finalTurn S B s).runs.map fun r => r.send.step.stepId).Nodup :=
      hsound.runIds_nodup
    rcases filter_key hids s.plan[k].stepId with hnil | ⟨r, hr, hrk, he⟩
    · have hmem : run ∈ (finalTurn S B s).runs.filter
          fun r => r.send.step.stepId = s.plan[k].stepId :=
        List.mem_filter.mpr ⟨hrun, decide_eq_true hid⟩
      rw [hnil] at hmem
      cases hmem
    · rw [he, List.map_singleton, hsound.run_of_step hs.startable hr (hin _ hq) hrk]
  · rw [hsound.ordered_ids hs, hturn, hplan, kept_eq_offspring hsound fun q hq => hown.nodot hq]
  · intro run hrun
    apply mem_ordered.mpr
    rw [hresults]
    exact .inl (List.mem_map_of_mem hrun)
  · intro e he
    rcases mem_ordered.mp he with he | he
    · rw [hresults] at he
      obtain ⟨run, hrun, rfl⟩ := List.mem_map.mp he
      exact .inl ⟨run, hrun, rfl⟩
    · exact .inr he

theorem Kept.idle (h : Kept turnIds th) :
    routedTurn B th i [] = ⟨⟨i.request, th.plan, th.stepResults, i.unrouted⟩, [], 0⟩ := by
  have hstart : startTurn th i [] = ⟨i.request, th.plan, th.stepResults, i.unrouted⟩ := by
    have hm : mergePlan th.plan [] = th.plan ++ [] := mergePlan_eq h.planIds (by simp)
    rw [startTurn, hm, List.append_nil]
  rw [routedTurn, hstart]
  apply finalTurn_idle
  rw [List.eq_nil_iff_forall_not_mem]
  intro q hq
  obtain ⟨hqp, hc, hd⟩ := mem_runnable.mp hq
  obtain ⟨d, hdm, hdc⟩ := h.settled q hqp hc
  exact hdc (hd d hdm)

theorem Kept.thisTurn_iff (h : Kept turnIds th) (hnew : i.request.requestId ∉ turnIds)
    (hnamed : "" ∉ turnIds) (hid : i.request.requestId ≠ "") {q : Step} (hq : q ∈ th.plan) :
    thisTurn i.request.requestId q.turnId = true ↔ q.turnId = none := by
  cases ht : q.turnId with
  | none => simp [thisTurn]
  | some turnId =>
    have hmem := h.stamps q hq turnId ht
    have h₁ : turnId ≠ i.request.requestId := fun he => hnew (he ▸ hmem)
    have h₂ : turnId ≠ "" := fun he => hnamed (he ▸ hmem)
    simp [thisTurn, h₁, h₂, hid]

theorem Kept.isolated_nil_iff (h : Kept turnIds th) (hnew : i.request.requestId ∉ turnIds)
    (hnamed : "" ∉ turnIds) (hid : i.request.requestId ≠ "") :
    Isolated [] (routedTurn B th i []) ↔ ∀ q ∈ th.plan, q.turnId ≠ none := by
  rw [h.idle]
  constructor
  · intro hi q hq hn
    have hnil : ordered ⟨i.request, th.plan, th.stepResults, i.unrouted⟩ = [] := by
      simpa [offspring] using hi.rendered
    have hturn : q ∈ turnPlan ⟨i.request, th.plan, th.stepResults, i.unrouted⟩ :=
      List.mem_filter.mpr ⟨hq, (h.thisTurn_iff hnew hnamed hid hq).mpr hn⟩
    have hnone : ∀ e, e ∉ ordered ⟨i.request, th.plan, th.stepResults, i.unrouted⟩ := by
      rw [hnil]
      simp
    by_cases hr : q.stepId ∈
        (turnResults ⟨i.request, th.plan, th.stepResults, i.unrouted⟩).map StepResult.stepId
    · obtain ⟨r, hr, _⟩ := List.mem_map.mp hr
      exact hnone r (mem_ordered.mpr (.inl hr))
    · refine hnone _ (mem_ordered.mpr
        (.inr (List.mem_map_of_mem (List.mem_filter.mpr ⟨hturn, ?_⟩))))
      simpa using hr
  · intro hall
    have hplan : turnPlan ⟨i.request, th.plan, th.stepResults, i.unrouted⟩ = [] := by
      rw [turnPlan, List.filter_eq_nil_iff]
      intro q hq ht
      exact hall q hq ((h.thisTurn_iff hnew hnamed hid hq).mp ht)
    have hresults : turnResults ⟨i.request, th.plan, th.stepResults, i.unrouted⟩ = [] := by
      rw [turnResults, List.filter_eq_nil_iff]
      intro r hr ht
      obtain ⟨q, hq, hst⟩ := h.stamped r hr
      rw [hst.2] at ht
      exact hall q hq ((h.thisTurn_iff hnew hnamed hid hq).mp ht)
    have hnil : ordered ⟨i.request, th.plan, th.stepResults, i.unrouted⟩ = [] := by
      rw [ordered, synthesized, hresults, hplan]
      rfl
    constructor
    · intro q hq
      cases hq
    · rw [hnil]
      rfl
    · intro r hr
      cases hr
    · intro e he
      rw [hnil] at he
      cases he

/-- On a thread that has run a plan, `step_1` counts as completed. -/
theorem Kept.not_isolated (h : Kept turnIds th) (hth : th.plan ≠ [])
    (hown : OwnPlan i.request.requestId p) (hp : p ≠ []) : ¬ Isolated p (routedTurn B th i p) := by
  intro hi
  have hpos : 0 < p.length := List.length_pos_iff.mpr hp
  have hs : Startable (startTurn th i p) := h.startable
  have hsound : Sound B _ (routedTurn B th i p) := finalTurn_sound hs
  have hex := hi.executed p[0] (List.getElem_mem hpos)
  have hrun : stepName 1 ∈ runIds (routedTurn B th i p) := by
    obtain ⟨r, hr, _⟩ : ∃ r ∈ (routedTurn B th i p).runs.filter
        (fun r => r.send.step.stepId = p[0].stepId), r.send.step = p[0] := by
      rw [← List.mem_map, hex]
      exact List.mem_singleton_self _
    obtain ⟨hrm, hid⟩ := List.mem_filter.mp hr
    rw [decide_eq_true_eq, (hown.step 0 hpos).1] at hid
    exact hid ▸ List.mem_map_of_mem hrm
  exact (List.nodup_append.mp hsound.ids).2.2 _ (h.begun hth) _ hrun rfl

end Turn

/-- In every sequence of turns on one thread, a routed turn executes its own plan and shows
its own steps exactly when no earlier plan is left on the thread. -/
theorem turn_isolation_iff (B : Budgets) (turns : List TurnInput) (hv : Distinct turns) :
    ∀ before i rest p, turns = before ++ i :: rest → i.plan = some p →
      (Isolated p (routedTurn B (threadAfter B before) i p) ↔ Clear (threadAfter B before) p) := by
  intro before i rest p he hp
  have hid : i.request.requestId ≠ "" := hv.named i (by simp [he])
  have hkept : Kept (before.map (·.request.requestId)) (threadAfter B before) :=
    threadAfter_kept B fun j hj => hv.named j (by simp [he, hj])
  have hnew : i.request.requestId ∉ before.map (·.request.requestId) := by
    intro hmem
    have hids := hv.ids
    rw [he, List.map_append, List.nodup_append] at hids
    exact hids.2.2 _ hmem _ (by simp) rfl
  have hnamed : "" ∉ before.map (·.request.requestId) := by
    intro hmem
    obtain ⟨j, hj, hje⟩ := List.mem_map.mp hmem
    exact hv.named j (by simp [he, hj]) hje
  have hown := TurnInput.ownPlan hp hid
  by_cases hth : (threadAfter B before).plan = []
  · refine ⟨fun _ => .inl hth, fun _ => ?_⟩
    have hstart := hkept.start_first hid hp hth
    have hinit : Initial (startTurn (threadAfter B before) i p) :=
      ⟨hkept.startable.ids, hkept.results_nil hth⟩
    have hfirst := isolated_of_first (B := B) (S := i.services)
      (s := startTurn (threadAfter B before) i p) (by rw [hstart]; exact hown) hinit
    rwa [hstart] at hfirst
  · by_cases hnil : p = []
    · subst hnil
      rw [hkept.isolated_nil_iff hnew hnamed hid]
      exact ⟨fun h => .inr ⟨rfl, h⟩, fun h => (h.resolve_left hth).2⟩
    · refine ⟨fun h => absurd h (hkept.not_isolated hth hown hnil), ?_⟩
      intro h
      exact absurd (h.resolve_left hth).1 hnil

def oneAgent : CheckedRegistry := ⟨⟨[⟨"uc_b", [], []⟩]⟩, fun _ => 0, by simp⟩

def askAgent (requestId : String) : TurnInput :=
  ⟨{ sampleRequest with requestId := requestId }, oneAgent, [⟨"sq1", ["uc_b"], [], [], []⟩], [],
    fun _ => failingServices⟩

def narrowBudgets : Budgets := ⟨1, 1⟩

theorem askAgent_distinct : Distinct [askAgent "r1", askAgent "r2"] := ⟨by decide, by decide⟩

def askPlan (requestId : String) : List Step := (askAgent requestId).plan.getD []

theorem askAgent_plan (requestId : String) :
    (askAgent requestId).plan = some (askPlan requestId) := by
  have h : (assemblePlan oneAgent [⟨"sq1", ["uc_b"], [], [], []⟩]).isSome := by decide +kernel
  obtain ⟨steps, hs⟩ := Option.isSome_iff_exists.mp h
  simp only [askPlan, askAgent, TurnInput.plan, hs, Option.map_some, Option.getD_some]

theorem turn_isolation_iff_first :
    Distinct [askAgent "r1", askAgent "r2"] ∧
      Isolated (askPlan "r1")
        (routedTurn narrowBudgets (threadAfter narrowBudgets []) (askAgent "r1") (askPlan "r1")) :=
  ⟨askAgent_distinct,
    (turn_isolation_iff narrowBudgets _ askAgent_distinct [] (askAgent "r1") [askAgent "r2"] _ rfl
      (askAgent_plan "r1")).mpr (.inl rfl)⟩

/-- The second turn on a thread plans one step, runs nothing and shows nothing. -/
theorem second_turn_runs_nothing :
    Distinct [askAgent "r1", askAgent "r2"] ∧ (askPlan "r2").length = 1 ∧
      let t := routedTurn narrowBudgets (threadAfter narrowBudgets [askAgent "r1"])
        (askAgent "r2") (askPlan "r2")
      t.runs.length = 0 ∧ (ordered t.state).length = 0 ∧ ¬ Isolated (askPlan "r2") t := by
  have hlen : (askPlan "r2").length = 1 := by decide +kernel
  have hruns : (routedTurn narrowBudgets (threadAfter narrowBudgets [askAgent "r1"])
      (askAgent "r2") (askPlan "r2")).runs.length = 0 := by decide +kernel
  refine ⟨askAgent_distinct, hlen, hruns, by decide +kernel, ?_⟩
  intro hi
  have hex := hi.executed (askPlan "r2")[0] (List.getElem_mem (by omega))
  rw [List.length_eq_zero_iff.mp hruns] at hex
  cases hex

end ExecutorTurns
