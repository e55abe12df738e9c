import OneOps.FulfillmentTaskProtocol

/-! External side effects of task attempts. The adapter deduplicates by an idempotency key
that carries `retry_count`, so a task whose row goes back to `ready` is attempted again under
a new key, and both calls may act. Where no call of a repeated attempt acts, neither before
the row goes back nor after, the effect of each task is performed at most once. -/
namespace FulfillmentProvisioning

open KeyedTable
open ProcessPool
open FulfillmentContracts
open FulfillmentDb
open FulfillmentPlanning
open FulfillmentInspection
open FulfillmentWorker
open FulfillmentSystem
open FulfillmentTaskProtocol

def Performed (w : World) (tenantId taskId : String) : Prop :=
  ∃ e ∈ w.effects, e.tenantId = tenantId ∧ e.taskId = taskId

def AtMostOnce (w : World) : Prop := (w.effects.map fun e => (e.tenantId, e.taskId)).Nodup

/-- The next step sets the row back to `ready`: by the write of a retryable answer or timeout
with budget left, or by orphan recovery. -/
inductive Reopens (cfg : Config) (s : Service) : ServiceEvent → TaskRow → Prop where
  | retry (i j : ℕ) (hex : String) (k : Worker) (a : TaskTransition) (r : TaskRow)
      (hk : s.procs[i]? = some (.execute k)) (hc : (childrenOf k.phase)[j]? = some (.settle a))
      (hto : a.toState = .ready) (hm : a.matches r = true) :
      Reopens cfg s (.act i (.worker (.child j (.stmt hex)))) r
  | recover (i : ℕ) (k : Worker) (r : TaskRow) (hk : s.procs[i]? = some (.execute k))
      (hp : k.phase = .recover)
      (hm : stuckTask k.tenantId k.ritmId cfg.stuckTaskRecoveryMinutes s.shared.db.now r = true) :
      Reopens cfg s (.act i (.worker .stmt)) r

def Held (db : Db) (x : Claim) : Prop :=
  ∃ r, db.task.lookup (x.tenantId, x.taskId) = some r ∧
    ((r.state = .inProgress ∧ r.version = x.version) ∨
      (Absorbing r.state ∧ r.version = x.version + 1))

/-- No attempt is repeated after it acted, and none acts after it was given up. -/
structure RetrySafe (cfg : Config) (s : Service) (e : ServiceEvent) : Prop where
  admissible : Admissible s e
  reopen : ∀ r ∈ s.shared.db.task.rows, Reopens cfg s e r →
    ¬ Performed s.shared r.tenantId r.taskId
  lands : ∀ o n x, e = .env o → o.lands = some n → s.shared.calls[n]? = some x →
    Held s.shared.db x.claim

section Steps

variable {cfg : Config} {format : String → JsonObject → Except FormatError String} {s : Service}

theorem reopens_of_ready (hwf : AllWf s) {e : ServiceEvent} {key : String × String}
    {r r' : TaskRow} (hr : s.shared.db.task.lookup key = some r) (hs : r.state = .inProgress)
    (hr' : (next (service cfg format) s e).shared.db.task.lookup key = some r')
    (hready : r'.state = .ready) : Reopens cfg s e r := by
  -- a step that keeps the row contradicts its new state
  have kept : ∀ db' : Db, db'.task.lookup key = some r → db'.task.lookup key = some r' → False := by
    intro db' h h'
    rw [h] at h'
    cases h'
    simp [hs] at hready
  have keptAll : ∀ db' : Db, db'.task = s.shared.db.task → db'.task.lookup key = some r' →
      False := fun db' h => kept db' (by rw [h]; exact hr)
  -- a guarded UPDATE that moves the row takes it to the state it names
  have moved : ∀ (a : TaskTransition) (db' : Db), db' = (transitionTaskState a s.shared.db).2 →
      db'.task.lookup key = some r' → a.matches r = true ∧ a.toState = .ready := by
    rintro a _ rfl h'
    rw [lookup_transitionTask, hr, Option.map_some, Option.some.injEq] at h'
    by_cases hm : a.matches r = true
    · rw [if_pos hm] at h'
      subst h'
      exact ⟨hm, hready⟩
    · rw [if_neg hm] at h'
      rw [← h', hs] at hready
      cases hready
  cases e with
  | spawn p => exact (kept _ hr hr').elim
  | env o => exact (kept _ hr hr').elim
  | act i inp =>
    cases hp : s.procs[i]? with
    | none =>
      rw [next_idle hp] at hr'
      exact (kept _ hr hr').elim
    | some p =>
      rw [next_act hp] at hr'
      change (procStep cfg format inp s.shared p).1.db.task.lookup key = some r' at hr'
      have hpwf := hwf p (List.mem_of_getElem? hp)
      cases acts cfg format s.shared p inp with
      | main k =>
        change (mainStep cfg s.shared k).1.db.task.lookup key = some r' at hr'
        rcases mainStep_task_cases cfg s.shared k with h | ⟨hph, h⟩ | ⟨wave, x, todo, _, h⟩
        · exact (keptAll _ h hr').elim
        · rw [h, lookup_recoverStuck, hr, Option.map_some, Option.some.injEq] at hr'
          by_cases hm : stuckTask k.tenantId k.ritmId cfg.stuckTaskRecoveryMinutes
              s.shared.db.now r = true
          · exact .recover i k r hp hph hm
          · rw [if_neg hm] at hr'
            rw [← hr', hs] at hready
            cases hready
        · cases (moved _ _ h hr').2
      | child k j ci wave children c hph hc =>
        simp only [procStep, workerStep_child hph hc] at hr'
        rcases childStep_task_cases cfg k.tenantId k.ritmId s.shared c ci with h |
          ⟨task, _, h⟩ | ⟨a, hex, rfl, rfl, h⟩
        · exact (keptAll _ h hr').elim
        · cases (moved _ _ h hr').2
        · obtain ⟨hm, hto⟩ := moved _ _ h hr'
          exact .retry i j hex k a r hp (by rw [hph]; exact hc) hto hm
      | saga k u => exact (keptAll _ (sagaStep_task u s.shared.db k) hr').elim
      | decision d => exact (keptAll _ (decisionStep_task s.shared.db d) hr').elim
      | fulfil req q d => exact (kept _ (lookup_of_inserts (fulfilStep_inserts ..) hr) hr').elim
      | create cc a q inp =>
        exact (kept _ (lookup_of_inserts (createStep_inserts ..) hr) hr').elim
      | crash p h =>
        rw [h] at hr'
        exact (kept _ hr hr').elim
      | idle p inp h =>
        rw [h] at hr'
        exact (kept _ hr hr').elim

/-- A claim stays held as long as no step sets its row back. -/
theorem held_next (hwf : AllWf s) {e : ServiceEvent} (hg : Admissible s e) {x : Claim}
    (h : Held s.shared.db x)
    (hno : ∀ r, s.shared.db.task.lookup (x.tenantId, x.taskId) = some r → ¬ Reopens cfg s e r) :
    Held (next (service cfg format) s e).shared.db x := by
  obtain ⟨r, hr, hstate⟩ := h
  obtain ⟨r', hr', hadv⟩ := taskWrite_row (next_taskWrite cfg format hg hwf) hr
  refine ⟨r', hr', ?_⟩
  rcases hadv with rfl | hadv
  · exact hstate
  · rcases hstate with ⟨hs, hv⟩ | ⟨habs, _⟩
    · have hnready : r'.state ≠ .ready := fun hready =>
        hno r hr (reopens_of_ready hwf hr hs hr' hready)
      have hversion := hadv.version
      refine .inr ⟨?_, by omega⟩
      unfold Absorbing
      rcases hadv.moves with ⟨hwait, _⟩ | ⟨_, hto | hto | hto | hto⟩
      · simp [Waiting, hs] at hwait
      · exact .inl hto
      · exact .inr (.inl hto)
      · exact .inr (.inr (.inr hto))
      · exact absurd hto hnready
    · exact absurd habs (not_absorbing_of_moves hadv.moves)

theorem held_unique {db : Db} {x y : Claim} (hx : Held db x) (hy : Held db y)
    (ht : x.tenantId = y.tenantId) (hi : x.taskId = y.taskId) : x = y := by
  obtain ⟨r, hr, hrx⟩ := hx
  obtain ⟨q, hq, hqy⟩ := hy
  rw [← ht, ← hi, hr, Option.some.injEq] at hq
  subst hq
  have hv : x.version = y.version := by
    rcases hrx with ⟨hs, hv⟩ | ⟨ha, hv⟩ <;> rcases hqy with ⟨hs', hv'⟩ | ⟨ha', hv'⟩
    · omega
    · simp [Absorbing, hs] at ha'
    · simp [Absorbing, hs'] at ha
    · omega
  cases x
  cases y
  simp only at ht hi hv
  rw [ht, hi, hv]

def Named (x : IssuedCall) : Prop :=
  x.call.tenantId = x.claim.tenantId ∧ x.call.taskId = x.claim.taskId

theorem childStep_issues (cfg : Config) (tenantId ritmId : String) (w : World) (c : Child)
    (inp : ChildInput) :
    (childStep cfg tenantId ritmId inp w c).1.effects = w.effects ∧
      ∃ new, (childStep cfg tenantId ritmId inp w c).1.calls = w.calls ++ new ∧
        ∀ x ∈ new, Named x := by
  unfold childStep
  split
  · split <;> exact ⟨rfl, [], by simp⟩
  · split <;> exact ⟨rfl, [], by simp⟩
  · split
    · exact ⟨rfl, [_], rfl, fun x hx => List.mem_singleton.mp hx ▸ ⟨rfl, rfl⟩⟩
    · exact ⟨rfl, [], by simp⟩
  all_goals exact ⟨rfl, [], by simp⟩

/-- The statements of the service perform no effect; they issue calls. -/
theorem act_issues (cfg : Config) (format : String → JsonObject → Except FormatError String)
    (s : Service) (i : ℕ) (inp : Input) :
    (next (service cfg format) s (.act i inp)).shared.effects = s.shared.effects ∧
      ∃ new, (next (service cfg format) s (.act i inp)).shared.calls = s.shared.calls ++ new ∧
        ∀ x ∈ new, Named x := by
  cases hp : s.procs[i]? with
  | none =>
    rw [next_idle hp]
    exact ⟨rfl, [], by simp⟩
  | some p =>
    rw [next_act hp]
    change (procStep cfg format inp s.shared p).1.effects = _ ∧
      ∃ new, (procStep cfg format inp s.shared p).1.calls = _ ∧ _
    cases acts cfg format s.shared p inp with
    | main k =>
      obtain ⟨_, hcalls, heffects⟩ := mainStep_logs cfg s.shared k
      exact ⟨heffects, [], by simpa [procStep, workerStep] using hcalls, by simp⟩
    | child k j ci wave children c hph hc =>
      simp only [procStep, workerStep_child hph hc]
      exact childStep_issues ..
    | saga k u => exact ⟨rfl, [], by simp [procStep]⟩
    | decision d => exact ⟨rfl, [], by simp [procStep]⟩
    | fulfil req q d => exact ⟨rfl, [], by simp [procStep]⟩
    | create cc a q inp => exact ⟨rfl, [], by simp [procStep]⟩
    | crash p h => exact ⟨by rw [h], [], by simp [h]⟩
    | idle p inp h => exact ⟨by rw [h], [], by simp [h]⟩

end Steps

structure ProvisionInvariant (s : Service) : Prop where
  base : TaskInvariant s
  named : ∀ x ∈ s.shared.calls, Named x
  acted : ∀ e ∈ s.shared.effects, ∃ x ∈ s.shared.calls, effectOf x.call = e ∧
    Held s.shared.db x.claim
  once : AtMostOnce s.shared

theorem initial_provision {s : Service} (h : Initial s) : ProvisionInvariant s := by
  refine ⟨initial_taskInvariant h, ?_, ?_, ?_⟩
  · simp [h.calls]
  · simp [h.effects]
  · simp [AtMostOnce, h.effects]

section Pool

variable {cfg : Config} {format : String → JsonObject → Except FormatError String} {s : Service}

theorem acted_same (hs : ProvisionInvariant s) {x : IssuedCall} (hx : x ∈ s.shared.calls)
    (hheld : Held s.shared.db x.claim) {e : Effect} (he : e ∈ s.shared.effects)
    (ht : e.tenantId = x.call.tenantId) (hi : e.taskId = x.call.taskId) :
    e = effectOf x.call := by
  obtain ⟨y, hy, rfl, hyheld⟩ := hs.acted e he
  obtain ⟨hxt, hxi⟩ := hs.named x hx
  obtain ⟨hyt, hyi⟩ := hs.named y hy
  have hclaim : y.claim = x.claim :=
    held_unique hyheld hheld ((hyt.symm.trans ht).trans hxt) ((hyi.symm.trans hi).trans hxi)
  have hnodup : (s.shared.calls.map (·.claim)).Nodup := by
    refine List.nodup_iff_count_le_one.mpr fun c => ?_
    have h₁ := hs.base.calls_claimed c
    have h₂ := hs.base.claims_once c
    omega
  rw [List.inj_on_of_nodup_map hnodup hy hx hclaim]

theorem land_provision (hs : ProvisionInvariant s) {x : IssuedCall} (hx : x ∈ s.shared.calls)
    (hheld : Held s.shared.db x.claim) {seconds : ℕ} :
    ProvisionInvariant { s with shared := { tick seconds s.shared with
      effects := perform (effectOf x.call) s.shared.effects } } := by
  refine ⟨⟨hs.base.wf, hs.base.claims_once, hs.base.claim_row, hs.base.tickets_claimed,
    hs.base.calls_claimed⟩, hs.named, ?_, ?_⟩
  · intro e he
    simp only [perform] at he
    split_ifs at he
    · exact hs.acted e he
    · rcases List.mem_append.mp he with he | he
      · exact hs.acted e he
      · exact ⟨x, hx, (List.mem_singleton.mp he).symm, hheld⟩
  · unfold AtMostOnce perform
    dsimp only
    split_ifs with hdup
    · exact hs.once
    · rw [List.map_append, List.map_singleton]
      refine List.nodup_append.mpr ⟨hs.once, List.nodup_singleton _, ?_⟩
      rintro _ ha _ hb rfl
      obtain ⟨e, he, hkey⟩ := List.mem_map.mp ha
      rw [List.mem_singleton.mp hb, Prod.mk.injEq] at hkey
      have hsame := acted_same hs hx hheld he hkey.1 hkey.2
      apply hdup
      rw [List.any_eq_true]
      exact ⟨e, he, decide_eq_true ⟨hkey.1, by rw [hsame]⟩⟩

theorem next_provision (hs : ProvisionInvariant s) {e : ServiceEvent} (hg : RetrySafe cfg s e) :
    ProvisionInvariant (next (service cfg format) s e) := by
  have hbase := next_taskInvariant cfg format hg.admissible hs.base
  -- a call whose task acted keeps its claim
  have hkeep : ∀ x ∈ s.shared.calls, effectOf x.call ∈ s.shared.effects →
      Held s.shared.db x.claim → Held (next (service cfg format) s e).shared.db x.claim := by
    intro x hx heff hheld
    refine held_next hs.base.wf hg.admissible hheld fun r hr hre => ?_
    obtain ⟨hmem, hk⟩ := Table.lookup_eq_some.mp hr
    simp only [taskKey, Prod.mk.injEq] at hk
    obtain ⟨ht, hi⟩ := hs.named x hx
    exact hg.reopen r hmem hre ⟨_, heff, ht.trans hk.1.symm, hi.trans hk.2.symm⟩
  cases e with
  | spawn p =>
    exact ⟨hbase, hs.named, hs.acted, hs.once⟩
  | env o =>
    change ProvisionInvariant { s with shared := FulfillmentSystem.pass o s.shared }
    unfold FulfillmentSystem.pass landing
    split
    · exact ⟨⟨hbase.wf, hbase.claims_once, hbase.claim_row, hbase.tickets_claimed,
        hbase.calls_claimed⟩, hs.named, hs.acted, hs.once⟩
    · rename_i x hx
      obtain ⟨n, hn, hx⟩ := Option.bind_eq_some_iff.mp hx
      exact land_provision hs (List.mem_of_getElem? hx) (hg.lands o n x rfl hn hx)
  | act i inp =>
    obtain ⟨heffects, new, hcalls, hnew⟩ := act_issues cfg format s i inp
    refine ⟨hbase, ?_, ?_, ?_⟩
    · intro x hx
      rw [hcalls] at hx
      exact (List.mem_append.mp hx).elim (hs.named x) (hnew x)
    · intro e he
      rw [heffects] at he
      obtain ⟨x, hx, rfl, hheld⟩ := hs.acted e he
      rw [hcalls]
      exact ⟨x, List.mem_append_left _ hx, rfl, hkeep x hx he hheld⟩
    · unfold AtMostOnce
      rw [heffects]
      exact hs.once

end Pool

def executeOrder : ServiceEvent := .spawn (.execute ⟨"t", "RITM0000000001", .readRitm⟩)

def lands (n : ℕ) : ServiceEvent := .env ⟨0, some n⟩

def toCall : List ServiceEvent := [executeOrder, execute 0, execute 0, execute 0, execute 0,
  child 0 0 (.stmt ""), child 0 0 (.stmt "")]

def toSecondCall : List ServiceEvent := toCall ++ [child 0 0 (.result .timeout),
  child 0 0 (.stmt ""), execute 0, execute 0, child 0 0 (.stmt ""), child 0 0 (.stmt "")]

theorem timeout_provisions_twice :
    Initial (quiet oneOrder) ∧
    Run (service sampleConfig plainFormat) Admissible (quiet oneOrder)
      (play (service sampleConfig plainFormat) (quiet oneOrder)
        (toSecondCall ++ [lands 0, lands 1])) ∧
    (play (service sampleConfig plainFormat) (quiet oneOrder)
        (toSecondCall ++ [lands 0, lands 1])).shared.effects =
      [⟨"t", "RITM0000000001:SCTASK-a:0", "SCTASK-a"⟩,
        ⟨"t", "RITM0000000001:SCTASK-a:1", "SCTASK-a"⟩] ∧
    ¬ AtMostOnce (play (service sampleConfig plainFormat) (quiet oneOrder)
        (toSecondCall ++ [lands 0, lands 1])).shared := by
  refine ⟨quiet_initial _, run_play _ (admits_entries _ _ ?_), by decide,
    by unfold AtMostOnce; decide⟩
  intro p hp
  simp only [toSecondCall, toCall, executeOrder, execute, child, lands, List.cons_append,
    List.nil_append, List.mem_cons, Event.spawn.injEq, reduceCtorEq, or_false,
    List.not_mem_nil] at hp
  exact hp ▸ .execute _ _

/-- Any number of workers, any crashes, any answers: in a run whose repeated attempts never
act, the external side effect of each task is performed at most once. -/
theorem at_most_once_of_retrySafe (cfg : Config)
    (format : String → JsonObject → Except FormatError String) {s t : Service} (h : Initial s)
    (hr : Run (service cfg format) (RetrySafe cfg) s t) : AtMostOnce t.shared :=
  (hr.invariant (initial_provision h) fun _ _ hg hs => next_provision hs hg).once

section Safe

variable {cfg : Config} {s : Service} {i j : ℕ}

theorem retrySafe_spawn {p : Proc} (h : Entry p) : RetrySafe cfg s (.spawn p) := by
  refine ⟨admissible_spawn h, ?_, ?_⟩
  · intro r _ hre
    cases hre
  · intro o n x he
    cases he

theorem retrySafe_unperformed {inp : Input} (h : s.shared.effects = []) :
    RetrySafe cfg s (.act i inp) := by
  refine ⟨admissible_act, ?_, fun o n x he => (by cases he)⟩
  rintro r _ _ ⟨e, he, _⟩
  rw [h] at he
  cases he

theorem retrySafe_answer {r : CallResult} : RetrySafe cfg s (child i j (.result r)) :=
  ⟨admissible_act, fun r _ h => (by cases h), fun o n x he => (by cases he)⟩

theorem retrySafe_settle {hex : String} {k : Worker} {a : TaskTransition}
    (hk : s.procs[i]? = some (.execute k)) (hc : (childrenOf k.phase)[j]? = some (.settle a))
    (ha : a.toState ≠ .ready) : RetrySafe cfg s (child i j (.stmt hex)) := by
  refine ⟨admissible_act, ?_, fun o n x he => (by cases he)⟩
  intro r _ h
  cases h with
  | retry i j hex k' a' r hk' hc' hto hm =>
    rw [hk] at hk'
    cases hk'
    rw [hc] at hc'
    cases hc'
    exact absurd hto ha

theorem retrySafe_lands {n : ℕ} {x : IssuedCall} (hx : s.shared.calls[n]? = some x)
    (h : Held s.shared.db x.claim) : RetrySafe cfg s (lands n) := by
  refine ⟨fun p hp => (by cases hp), fun r _ hre => (by cases hre), ?_⟩
  intro o m y ho hm hy
  cases ho
  cases hm
  rw [hx] at hy
  exact Option.some.inj hy ▸ h

end Safe

/-- The first call times out and never acts, the second places the order, and its adapter acts
once more after the answer under the same key. -/
def orderPlaced : List ServiceEvent := toSecondCall ++
  [lands 1, child 0 0 (.result (.answer ⟨true, none, none, none⟩)), child 0 0 (.stmt ""), lands 1]

theorem orderPlaced_admits :
    Admits (service sampleConfig plainFormat) (RetrySafe sampleConfig) (quiet oneOrder)
      orderPlaced := by
  refine ⟨retrySafe_spawn (.execute _ _), retrySafe_unperformed rfl, retrySafe_unperformed rfl,
    retrySafe_unperformed rfl, retrySafe_unperformed rfl, retrySafe_unperformed rfl,
    retrySafe_unperformed rfl, retrySafe_unperformed rfl, retrySafe_unperformed rfl,
    retrySafe_unperformed rfl, retrySafe_unperformed rfl, retrySafe_unperformed rfl,
    retrySafe_unperformed rfl, ?_, retrySafe_answer, ?_, ?_, trivial⟩
  · exact retrySafe_lands rfl ⟨_, rfl, .inl ⟨rfl, rfl⟩⟩
  · exact retrySafe_settle rfl rfl (by decide)
  · exact retrySafe_lands rfl ⟨_, rfl, .inr ⟨.inl rfl, rfl⟩⟩

theorem orderPlaced_at_most_once :
    (play (service sampleConfig plainFormat) (quiet oneOrder) orderPlaced).shared.effects =
      [⟨"t", "RITM0000000001:SCTASK-a:1", "SCTASK-a"⟩] ∧
    AtMostOnce (play (service sampleConfig plainFormat) (quiet oneOrder) orderPlaced).shared :=
  ⟨by decide, at_most_once_of_retrySafe sampleConfig plainFormat (quiet_initial oneOrder)
    (run_play orderPlaced orderPlaced_admits)⟩

end FulfillmentProvisioning
