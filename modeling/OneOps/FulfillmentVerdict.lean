import OneOps.FulfillmentTermination

/-! What a call of `execute_plan` reports, against the rows its last terminal check saw. The
check ends a run with blocked tasks and nothing in flight as failed: its `blocked` answer
stands under the test that some task is in flight. -/
namespace FulfillmentVerdict

open FairExecution
open FulfillmentContracts
open FulfillmentDb
open FulfillmentInspection
open FulfillmentWorker
open FulfillmentSystem
open FulfillmentTaskProtocol
open FulfillmentLifecycle
open FulfillmentWaves
open FulfillmentTermination

def itemOf (x : World × Worker) : Option RitmRow := getRitm x.2.tenantId x.2.ritmId x.1.db

def entered (s : RitmState) : RitmState := if s = .requested then .inProgress else s

def Item (r₀ : RitmRow) (x : World × Worker) (r : RitmRow) : Prop :=
  itemOf x = some r ∧ r.state = entered r₀.state ∧ r.totalTasks = r₀.totalTasks

def Counted (r₀ : RitmRow) (T : List TaskRow) : Prop :=
  countByState T .done + countByState T .failed + countByState T .skipped +
    countByState T .inProgress ≤ r₀.totalTasks

/-- The loop ran out of waves: only then does the finaliser get a failure reason. -/
def hitLimit : Phase → Bool
  | .finalRead c => c.failureReason.isSome
  | _ => false

theorem reason_none {p : Phase} {c : Closing} (h : hitLimit p = false) (hp : p = .finalRead c) :
    c.failureReason = none := by
  rw [hp] at h
  exact Option.not_isSome_iff_eq_none.mp (Bool.eq_false_iff.mp h)

def Closes (r₀ : RitmRow) (x : World × Worker) (c : Closing) (r : RitmRow) : Prop :=
  c.tasks = rowsOf x ∧ isTerminal (rowsOf x) = some c.outcome ∧ r.totalTasks = r₀.totalTasks

def Paused (r₀ : RitmRow) (x : World × Worker) (o : Outcome) : Prop :=
  isTerminal (rowsOf x) = none ∧ o.outcome = .inProgress ∧ (∃ r, Item r₀ x r) ∧
    Counted r₀ (rowsOf x)

def Closed (r₀ : RitmRow) (x : World × Worker) (o : Outcome) : Prop :=
  ∃ verdict, isTerminal (rowsOf x) = some verdict ∧ o.outcome = outcomeOf verdict ∧
    o.tasksTotal = r₀.totalTasks ∧ o.tasksCompleted = countByState (rowsOf x) .done

def CallOk (r₀ : RitmRow) (x : World × Worker) : Prop :=
  match x.2.phase with
  | .snapshot => False
  | .readRitm => itemOf x = some r₀
  | .startRitm version => itemOf x = some r₀ ∧ r₀.state = .requested ∧ version = r₀.version
  | .recover | .list _ | .cascade _ _ | .relist _ | .running _ _ => ∃ r, Item r₀ x r
  | .finalRead c => ∃ r, Item r₀ x r ∧ Closes r₀ x c r
  | .finalList c r | .finalWrite c r | .finalRun c r | .finalStamp c r _ => Closes r₀ x c r
  | .partialRead tasks => tasks = rowsOf x ∧ isTerminal (rowsOf x) = none ∧ ∃ r, Item r₀ x r
  | .partialApprovals tasks r | .partialRun tasks r _ =>
    tasks = rowsOf x ∧ isTerminal (rowsOf x) = none ∧ ∃ q, r = some q ∧ Item r₀ x q
  | .returned o => Paused r₀ x o ∨ Closed r₀ x o
  | .raised _ => ¬ Counted r₀ (rowsOf x)

section Step

variable {cfg : Config} {w : World} {k : Worker} {r₀ : RitmRow}

/-- What the phase after a statement that leaves tasks and item alone must satisfy. -/
def After (r₀ : RitmRow) (w : World) (k : Worker) (p : Phase) : Prop :=
  CallOk r₀ (w, ⟨k.tenantId, k.ritmId, p⟩)

theorem after_decideWave {r : RitmRow} (hr : Item r₀ (w, k) r) (wave : ℕ) :
    After r₀ w k (decideWave wave (rowsOf (w, k))) := by
  unfold decideWave
  split
  · rename_i outcome h
    exact ⟨r, hr, rfl, h, hr.2.2⟩
  · rename_i h
    split_ifs
    · exact ⟨rfl, h, r, hr⟩
    · exact ⟨r, hr⟩

theorem after_closeReport {c : Closing} {r : RitmRow} (h : Closes r₀ (w, k) c r)
    (run : Option String) : After r₀ w k (closeReport k c r run) := by
  obtain ⟨htasks, hterm, htotal⟩ := h
  unfold closeReport report
  split
  · exact .inr ⟨c.outcome, hterm, rfl, htotal, congrArg (countByState · .done) htasks⟩
  · rename_i hn
    rw [htasks, htotal] at hn
    exact hn

theorem after_partialReport {r : RitmRow} (hterm : isTerminal (rowsOf (w, k)) = none)
    (hr : Item r₀ (w, k) r) (approvals : List String) (run : Option String) :
    After r₀ w k (partialReport k (rowsOf (w, k)) r approvals run) := by
  unfold partialReport report
  split
  · rename_i hn
    rw [hr.2.2] at hn
    exact .inl ⟨hterm, rfl, ⟨r, hr⟩, hn⟩
  · rename_i hn
    rw [hr.2.2] at hn
    exact hn

theorem Item.same {r : RitmRow} {w' : World} {p : Phase} (h : Item r₀ (w, k) r)
    (hsame : w'.db.requestItem = w.db.requestItem) :
    Item r₀ (w', ⟨k.tenantId, k.ritmId, p⟩) r := by
  refine ⟨?_, h.2⟩
  rw [← h.1]
  simp only [itemOf, getRitm, hsame]

theorem Closes.same {c : Closing} {r : RitmRow} {w' : World} {p : Phase}
    (h : Closes r₀ (w, k) c r) (hsame : w'.db.task = w.db.task) :
    Closes r₀ (w', ⟨k.tenantId, k.ritmId, p⟩) c r := by
  have hrows : rowsOf (w', ⟨k.tenantId, k.ritmId, p⟩) = rowsOf (w, k) := listTasks_congr hsame
  unfold Closes
  rw [hrows]
  exact h

theorem after_start {version : ℕ} (hi : itemOf (w, k) = some r₀) (hs : r₀.state = .requested)
    (hv : version = r₀.version) :
    ∃ r, Item r₀ (({ w with db := (transitionRitmState (startWrite k version) w.db).2 } : World),
      ⟨k.tenantId, k.ritmId, .recover⟩) r := by
  have hkey : ritmKey r₀ = (k.tenantId, k.ritmId) := KeyedTable.Table.key_of_lookup hi
  have hm : (startWrite k version).matches r₀ = true :=
    RitmTransition.matches_iff.mpr ⟨hkey, hs, hv.symm⟩
  refine ⟨(startWrite k version).set w.db.now r₀, ?_, by simp [entered, hs, startWrite,
    RitmTransition.set], rfl⟩
  have hi : getRitm k.tenantId k.ritmId w.db = some r₀ := hi
  simp only [itemOf]
  rw [getRitm_transitionRitm, hi, Option.map_some, if_pos hm]

theorem mainStep_callOk (h : CallOk r₀ (w, k))
    (hl : ∀ c, (mainStep cfg w k).2 = .finalRead c → c.failureReason = none) :
    After r₀ (mainStep cfg w k).1 k (mainStep cfg w k).2 := by
  cases hp : k.phase with
  | snapshot =>
    simp only [CallOk, hp] at h
  | readRitm =>
    simp only [CallOk, hp] at h
    have hi : getRitm k.tenantId k.ritmId w.db = some r₀ := h
    simp only [mainStep, hp, hi]
    split_ifs with hs
    · exact ⟨hi, hs, rfl⟩
    · exact ⟨r₀, hi, by simp [entered, hs], rfl⟩
  | startRitm version =>
    simp only [CallOk, hp] at h
    simp only [mainStep, hp]
    exact after_start h.1 h.2.1 h.2.2
  | recover =>
    simp only [CallOk, hp] at h
    obtain ⟨r, hr⟩ := h
    simp only [mainStep, hp]
    exact ⟨r, hr.same rfl⟩
  | list wave =>
    simp only [CallOk, hp] at h
    obtain ⟨r, hr⟩ := h
    simp only [mainStep, hp]
    split_ifs
    · exact after_decideWave hr wave
    · exact ⟨r, hr⟩
  | cascade wave todo =>
    simp only [CallOk, hp] at h
    obtain ⟨r, hr⟩ := h
    cases todo with
    | nil => simp only [mainStep, hp]; exact ⟨r, hr⟩
    | cons x todo => simp only [mainStep, hp]; exact ⟨r, hr.same rfl⟩
  | relist wave =>
    simp only [CallOk, hp] at h
    obtain ⟨r, hr⟩ := h
    simp only [mainStep, hp]
    exact after_decideWave hr wave
  | running wave children =>
    simp only [CallOk, hp] at h
    obtain ⟨r, hr⟩ := h
    simp only [mainStep, hp, nextWave] at hl ⊢
    split_ifs at hl ⊢
    · exact ⟨r, hr⟩
    · cases hl _ rfl
    · exact ⟨r, hr⟩
  | finalRead c =>
    simp only [CallOk, hp] at h
    obtain ⟨r, hr, hc⟩ := h
    have hi : getRitm k.tenantId k.ritmId w.db = some r := hr.1
    simp only [mainStep, hp, hi]
    split_ifs <;> exact hc
  | finalList c r =>
    simp only [CallOk, hp] at h
    simp only [mainStep, hp]
    exact ⟨rfl, h.2⟩
  | finalWrite c r =>
    simp only [CallOk, hp] at h
    simp only [mainStep, hp]
    split_ifs
    · exact h
    · exact h.same rfl
  | finalRun c r =>
    simp only [CallOk, hp] at h
    simp only [mainStep, hp]
    split
    · exact after_closeReport h none
    · exact h
  | finalStamp c r runId =>
    simp only [CallOk, hp] at h
    simp only [mainStep, hp]
    split
    · rename_i hn
      have hblocked : c.outcome = .blocked := by
        by_contra hne
        simp [finaliseRun, hne] at hn
      exact absurd (hblocked ▸ h.2.1) (isTerminal_ne_blocked _)
    · rename_i db hdb
      have hsame : Closes r₀ (({ w with db := db } : World), k) c r :=
        h.same (finaliseRun_items hdb).task
      exact after_closeReport hsame (some runId)
  | partialRead tasks =>
    simp only [CallOk, hp] at h
    obtain ⟨htasks, hterm, r, hr⟩ := h
    simp only [mainStep, hp]
    exact ⟨htasks, hterm, r, hr.1, hr⟩
  | partialApprovals tasks r =>
    simp only [CallOk, hp] at h
    simp only [mainStep, hp]
    exact h
  | partialRun tasks r approvals =>
    simp only [CallOk, hp] at h
    obtain ⟨rfl, hterm, q, rfl, hq⟩ := h
    simp only [mainStep, hp]
    exact after_partialReport hterm hq approvals _
  | returned o =>
    simp only [CallOk, hp] at h
    simp only [mainStep, hp]
    exact h
  | raised e =>
    simp only [CallOk, hp] at h
    simp only [mainStep, hp]
    exact h

theorem solo_callOk {x y : World × Worker} (hx : CallOk r₀ x) (h : Solo cfg x y)
    (hl : hitLimit y.2.phase = false) : CallOk r₀ y := by
  obtain ⟨n, inp, rfl⟩ := h
  have hx' : CallOk r₀ (tick n x.1, x.2) := hx
  cases workerActs cfg (tick n x.1) x.2 inp with
  | main =>
    exact mainStep_callOk hx' fun c hc => reason_none hl hc
  | child j ci wave children c hp hc =>
    simp only [CallOk, hp] at hx'
    obtain ⟨r, hr⟩ := hx'
    rw [workerStep_child hp hc]
    exact ⟨r, hr.same (childStep_ritm ..)⟩
  | idle inp h => rw [h]; exact hx'

end Step

def AtCheck (x : World × Worker) : Prop := ∃ wave, x.2.phase = .list wave ∨ x.2.phase = .relist wave

def checked : Phase → Bool
  | .finalRead _ | .finalList _ _ | .finalWrite _ _ | .finalRun _ _ | .finalStamp _ _ _
  | .partialRead _ | .partialApprovals _ _ | .partialRun _ _ _ | .returned _ | .raised _ => true
  | _ => false

theorem mainStep_checked {cfg : Config} {r₀ : RitmRow} {w : World} {k : Worker}
    (h : CallOk r₀ (w, k)) (hl : ∀ c, (mainStep cfg w k).2 = .finalRead c → c.failureReason = none)
    (hy : checked (mainStep cfg w k).2 = true) : checked k.phase = true ∨ AtCheck (w, k) := by
  cases hp : k.phase with
  | snapshot => simp only [CallOk, hp] at h
  | readRitm =>
    simp only [CallOk, hp] at h
    have hi : getRitm k.tenantId k.ritmId w.db = some r₀ := h
    simp only [mainStep, hp, hi] at hy
    split_ifs at hy <;> cases hy
  | startRitm version => simp [mainStep, hp, checked] at hy
  | recover => simp [mainStep, hp, checked] at hy
  | list wave => exact .inr ⟨wave, .inl hp⟩
  | cascade wave todo => cases todo <;> simp [mainStep, hp, checked] at hy
  | relist wave => exact .inr ⟨wave, .inr hp⟩
  | running wave children =>
    simp only [mainStep, hp, nextWave] at hy hl
    split_ifs at hy hl
    · cases hy
    · cases hl _ rfl
    · cases hy
  | _ => exact .inl rfl

theorem solo_checked {cfg : Config} {r₀ : RitmRow} {x y : World × Worker} (hx : CallOk r₀ x)
    (h : Solo cfg x y) (hl : hitLimit y.2.phase = false) (hy : checked y.2.phase = true) :
    rowsOf y = rowsOf x ∧ (checked x.2.phase = true ∨ AtCheck x) := by
  obtain ⟨n, inp, rfl⟩ := h
  have hx' : CallOk r₀ (tick n x.1, x.2) := hx
  cases workerActs cfg (tick n x.1) x.2 inp with
  | main =>
    have hcheck : checked x.2.phase = true ∨ AtCheck (tick n x.1, x.2) :=
      mainStep_checked hx' (fun c hc => reason_none hl hc) hy
    refine ⟨?_, hcheck⟩
    rcases mainStep_task_cases cfg (tick n x.1) x.2 with he | ⟨hp, _⟩ | ⟨wave, z, todo, hp, _⟩
    · exact listTasks_congr he
    · simp [hp, checked, AtCheck] at hcheck
    · simp [hp, checked, AtCheck] at hcheck
  | child j ci wave children c hp hc =>
    rw [workerStep_child hp hc] at hy
    cases hy
  | idle inp h =>
    rw [h] at hy ⊢
    exact ⟨rfl, .inl hy⟩

/-- Every call that ended has its rows from a terminal check. -/
theorem rows_of_check {cfg : Config} {r₀ : RitmRow} {f : ℕ → World × Worker}
    (hf : Execution (Solo cfg) f) {n : ℕ} (hok : ∀ i ≤ n, CallOk r₀ (f i))
    (hl : ∀ i ≤ n, hitLimit (f i).2.phase = false) (h0 : checked (f 0).2.phase = false)
    (hn : checked (f n).2.phase = true) : ∃ i ≤ n, AtCheck (f i) ∧ rowsOf (f i) = rowsOf (f n) := by
  induction n with
  | zero =>
    rw [h0] at hn
    cases hn
  | succ n ih =>
    obtain ⟨hrows, hc | hc⟩ := solo_checked (hok n (by omega)) (hf n) (hl (n + 1) le_rfl) hn
    · obtain ⟨i, hi, hcheck, he⟩ := ih (fun i hi => hok i (by omega))
        (fun i hi => hl i (by omega)) hc
      exact ⟨i, by omega, hcheck, he.trans hrows.symm⟩
    · exact ⟨n, by omega, hc, hrows.symm⟩

def Awaiting (T : List TaskRow) : Prop :=
  (∀ r ∈ T, r.state ≠ .failed) ∧ ∃ r ∈ T, r.state = .blocked

/-- The first `n` steps of `f` end in the outcome `in_progress` and leave the item open. -/
structure LeftOpen (f : ℕ → World × Worker) (n : ℕ) : Prop where
  outcome : ∃ o, (f n).2.phase = .returned o ∧ o.outcome = .inProgress
  item : ∃ r, itemOf (f n) = some r ∧ r.state = .inProgress
  never_failed : ∀ i ≤ n, ∀ r, itemOf (f i) = some r → r.state ≠ .failed

/-- What the report of an open item needs: at the terminal check some task is in flight, the
call found the item requested or in progress, and the counts pass the validator. -/
structure Pausable (r₀ : RitmRow) (T : List TaskRow) : Prop where
  inFlight : ∃ r ∈ T, InFlight r.state
  entry : r₀.state = .requested ∨ r₀.state = .inProgress
  counted : Counted r₀ T

theorem entered_inProgress {s : RitmState} :
    entered s = .inProgress ↔ s = .requested ∨ s = .inProgress := by
  cases s <;> simp [entered]

theorem outcomeOf_inProgress {v : RitmOutcome} : outcomeOf v = .inProgress ↔ v = .blocked := by
  cases v <;> simp [outcomeOf]

section Ended

variable {cfg : Config} {r₀ : RitmRow} {f : ℕ → World × Worker} {n : ℕ}

theorem execution_callOk (hf : Execution (Solo cfg) f) (h0 : CallOk r₀ (f 0))
    (hl : ∀ i ≤ n, hitLimit (f i).2.phase = false) : ∀ i ≤ n, CallOk r₀ (f i) := by
  intro i
  induction i with
  | zero => exact fun _ => h0
  | succ i ih => exact fun hi => solo_callOk (ih (by omega)) (hf i) (hl (i + 1) hi)

theorem pausable_of_leftOpen (h : CallOk r₀ (f n)) (ho : LeftOpen f n) :
    Pausable r₀ (rowsOf (f n)) := by
  obtain ⟨o, hp, hout⟩ := ho.outcome
  obtain ⟨r, hr, hs⟩ := ho.item
  simp only [CallOk, hp] at h
  rcases h with ⟨hterm, _, ⟨q, hq, hqs, _⟩, hcount⟩ | ⟨v, hterm, hv, _⟩
  · rw [hr] at hq
    cases hq
    exact ⟨isTerminal_eq_none.mp hterm, entered_inProgress.mp (hqs ▸ hs), hcount⟩
  · rw [hout] at hv
    rw [outcomeOf_inProgress.mp hv.symm] at hterm
    exact absurd hterm (isTerminal_ne_blocked _)

/-- An item that was entered open is open as long as the finaliser is not taken. -/
theorem item_open {x : World × Worker} (h : CallOk r₀ x)
    (hentry : r₀.state = .requested ∨ r₀.state = .inProgress)
    (hfl : closing x.2.phase = true → isTerminal (rowsOf x) = none ∧ Counted r₀ (rowsOf x))
    {r : RitmRow} (hr : itemOf x = some r) : r.state = .requested ∨ r.state = .inProgress := by
  have hitem : (∃ q, Item r₀ x q) → r.state = .requested ∨ r.state = .inProgress := by
    rintro ⟨q, hq, hqs, _⟩
    rw [hr] at hq
    cases hq
    exact .inr (hqs.trans (entered_inProgress.mpr hentry))
  have hclosed : closing x.2.phase = true → ∀ {v : RitmOutcome},
      isTerminal (rowsOf x) ≠ some v := by
    intro hc v hv
    rw [(hfl hc).1] at hv
    cases hv
  cases hp : x.2.phase with
  | snapshot => simp only [CallOk, hp] at h
  | readRitm =>
    simp only [CallOk, hp] at h
    rw [hr] at h
    cases h
    exact hentry
  | startRitm version =>
    simp only [CallOk, hp] at h
    rw [hr] at h
    cases h.1
    exact hentry
  | finalRead c =>
    simp only [CallOk, hp] at h
    obtain ⟨q, _, _, hterm, _⟩ := h
    exact absurd hterm (hclosed (by rw [hp]; rfl))
  | partialRead tasks =>
    simp only [CallOk, hp] at h
    exact hitem h.2.2
  | partialApprovals tasks q | partialRun tasks q _ =>
    simp only [CallOk, hp] at h
    obtain ⟨_, _, q, _, hq⟩ := h
    exact hitem ⟨q, hq⟩
  | returned o =>
    simp only [CallOk, hp] at h
    rcases h with ⟨_, _, hq, _⟩ | ⟨v, hterm, _⟩
    · exact hitem hq
    · exact absurd hterm (hclosed (by rw [hp]; rfl))
  | raised e =>
    simp only [CallOk, hp] at h
    exact absurd (hfl (by rw [hp]; rfl)).2 h
  | finalList c q | finalWrite c q | finalRun c q | finalStamp c q _ =>
    simp only [CallOk, hp] at h
    exact absurd h.2.1 (hclosed (by rw [hp]; rfl))
  | recover | list _ | cascade _ _ | relist _ | running _ _ =>
    simp only [CallOk, hp] at h
    exact hitem h

theorem leftOpen_of_pausable (hf : Execution (Solo cfg) f) (hok : ∀ i ≤ n, CallOk r₀ (f i))
    (he : ended (f n).2.phase = true) (h : Pausable r₀ (rowsOf (f n))) : LeftOpen f n := by
  have hfl : isTerminal (rowsOf (f n)) = none := isTerminal_eq_none.mpr h.inFlight
  have hpaused : ∃ o, (f n).2.phase = .returned o ∧ Paused r₀ (f n) o := by
    have hn := hok n le_rfl
    cases hp : (f n).2.phase with
    | returned o =>
      simp only [CallOk, hp] at hn
      rcases hn with hn | ⟨v, hterm, _⟩
      · exact ⟨o, rfl, hn⟩
      · rw [hfl] at hterm
        cases hterm
    | raised e =>
      simp only [CallOk, hp] at hn
      exact absurd h.counted hn
    | _ => rw [hp] at he; cases he
  obtain ⟨o, hp, _, hout, ⟨r, hr, hrs, _⟩, _⟩ := hpaused
  refine ⟨⟨o, hp, hout⟩, ⟨r, hr, hrs.trans (entered_inProgress.mpr h.entry)⟩, ?_⟩
  intro i hi q hq hfailed
  have hopen : q.state = .requested ∨ q.state = .inProgress := by
    refine item_open (hok i hi) h.entry (fun hc => ?_) hq
    rw [← closing_frozen (hf.reaches hi) hc]
    exact ⟨hfl, h.counted⟩
  rw [hfailed] at hopen
  simp at hopen

end Ended

/-- Every fair call on an existing item ends, and unless it ran into the wave limit it leaves
an item with blocked tasks and no failed one open exactly when its last terminal check found
the run pausable. -/
theorem left_open_iff_pausable (cfg : Config) {w : World} {t m : String} {r₀ : RitmRow}
    (hr : getRitm t m w.db = some r₀) {f : ℕ → World × Worker} (hf : Execution (Solo cfg) f)
    (h0 : f 0 = freshCall w t m) (hfair : FairCall f) :
    (∃ n, ended (f n).2.phase = true) ∧
    ∀ n, ended (f n).2.phase = true → (∀ i ≤ n, hitLimit (f i).2.phase = false) →
      ∃ i ≤ n, AtCheck (f i) ∧ rowsOf (f i) = rowsOf (f n) ∧
        ((Awaiting (rowsOf (f n)) → LeftOpen f n) ↔
          (Awaiting (rowsOf (f i)) → Pausable r₀ (rowsOf (f i)))) := by
  refine ⟨call_ends hf hfair, fun n he hl => ?_⟩
  have hok : ∀ i ≤ n, CallOk r₀ (f i) := execution_callOk hf (by rw [h0]; exact hr) hl
  have hchecked : checked (f n).2.phase = true := by
    cases hp : (f n).2.phase with
    | returned o => rfl
    | raised e => rfl
    | _ => rw [hp] at he; cases he
  obtain ⟨i, hi, hcheck, hrows⟩ := rows_of_check hf hok hl (by rw [h0]; rfl) hchecked
  refine ⟨i, hi, hcheck, hrows, ?_⟩
  rw [hrows]
  exact ⟨fun h ha => pausable_of_leftOpen (hok n le_rfl) (h ha),
    fun h ha => leftOpen_of_pausable hf hok he (h ha)⟩

def approvalTask : TaskRow :=
  { sampleTask "a" .automated (some "request_human_approval") [] with
    inputPayload := [("approval_type", .str "manager")] }

def approvalOnly : World :=
  ⟨sampleDb (sampleRitm .requested 1) [approvalTask] requestedOne_length (by decide) (by decide)
    (by decide), [], [], []⟩

def approvalFirst : World :=
  ⟨sampleDb (sampleRitm .requested 2) [approvalTask, sampleTask "b" .manual none ["a"]]
    requestedTwo_length (by decide) (by decide) (by decide), [], [], []⟩

def parkApproval : List WorkerInput :=
  [.stmt, .stmt, .stmt, .stmt, .child 0 (.stmt ""), .child 0 (.stmt "01"), .child 0 (.stmt ""),
    .stmt, .stmt, .stmt, .stmt, .stmt]

def parkedRun (w : World) : ℕ → World × Worker :=
  played sampleConfig (freshCall w "t" "RITM0000000001") parkApproval

theorem left_open_iff_pausable_parked :
    Awaiting (rowsOf (parkedRun approvalFirst 12)) ∧ LeftOpen (parkedRun approvalFirst) 12 := by
  have hawait : Awaiting (rowsOf (parkedRun approvalFirst 12)) := by
    unfold Awaiting
    decide
  obtain ⟨i, _, _, hrows, hiff⟩ := (left_open_iff_pausable sampleConfig (w := approvalFirst)
    (t := "t") (m := "RITM0000000001") rfl (played_execution sampleConfig _ parkApproval) rfl
    (played_fair rfl)).2 12 rfl (by decide)
  refine ⟨hawait, hiff.mpr (fun _ => ?_) hawait⟩
  rw [hrows]
  exact ⟨by decide, .inl rfl, by unfold Counted; decide⟩

/-- The approval is the only task: nothing is in flight behind it, the check answers `failed`
and the item is closed while the approval is still open. -/
theorem blocked_item_closed_as_failed :
    Execution (Solo sampleConfig) (parkedRun approvalOnly) ∧ FairCall (parkedRun approvalOnly) ∧
    parkedRun approvalOnly 0 = freshCall approvalOnly "t" "RITM0000000001" ∧
    (∀ i ≤ 12, hitLimit (parkedRun approvalOnly i).2.phase = false) ∧
    ended (parkedRun approvalOnly 12).2.phase = true ∧
    Awaiting (rowsOf (parkedRun approvalOnly 12)) ∧
    (itemOf (parkedRun approvalOnly 12)).map (·.state) = some .failed ∧
    ¬ LeftOpen (parkedRun approvalOnly) 12 := by
  have hfailed : (itemOf (parkedRun approvalOnly 12)).map (·.state) = some .failed := by decide
  refine ⟨played_execution sampleConfig _ parkApproval, played_fair rfl, rfl, by decide, rfl,
    by unfold Awaiting; decide, hfailed, fun h => ?_⟩
  obtain ⟨r, hr, hs⟩ := h.item
  rw [hr, Option.map_some, hs] at hfailed
  cases hfailed

end FulfillmentVerdict
