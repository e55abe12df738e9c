import Mathlib.Tactic.Linarith
import OneOps.NatsCircuitBreaker

/-! A call to the bus with retries behind the circuit breaker. One caller runs its attempts
one after the other; each asks the breaker, probes the connection, invokes the function and
records the outcome. Two steps of the bookkeeping can raise errors of their own: the failure
ratio of an empty window and the back-off of a very late attempt. -/
namespace NatsResilientCall

open NatsCircuitBreaker

structure RetryPolicy where
  maxAttempts : ℕ
  initialDelay : ℚ
  maxDelay : ℚ

def floatExponents : ℕ := 1024

/-- `none` where the power of two is too large for a float. `jitter` is the random factor. -/
def delayFor (policy : RetryPolicy) (attemptIndex : ℕ) (jitter : ℚ) : Option ℚ :=
  if floatExponents ≤ attemptIndex then none
  else some (jitter * min (policy.initialDelay * 2 ^ attemptIndex) policy.maxDelay)

variable {V E : Type}

inductive FnOutcome (V E : Type) where
  | value (v : V)
  | unavailable (e : E)
  | other (e : E)

/-- What one attempt meets: the clock of `before_call`, the error of the connection probe if
it raises, what the function does, the clock of `record`, and the jitter. -/
structure Attempt (V E : Type) where
  now : ℚ
  probe : Option E
  fn : FnOutcome V E
  reading : Reading
  jitter : ℚ

inductive CallResult (V E : Type) where
  | returned (v : V)
  | raised (e : E)
  /-- The breaker that refused, and when. -/
  | failFast (state : Breaker) (now : ℚ)
  | zeroDivision
  | overflow
  | noResult

/-- An admitted attempt: the breaker that admitted it and when, the probe's error, the
outcome of the function if it was invoked, and what was recorded. -/
structure AttemptLog (V E : Type) where
  state : Breaker
  now : ℚ
  probe : Option E
  invoked : Option (FnOutcome V E)
  recorded : List Bool

/-- How an attempt ends: the call is over, or another attempt follows. -/
inductive Verdict (V E : Type) where
  | again
  | done (r : CallResult V E)

/-- The statistics of a closed breaker divide by the size of their window. -/
def dividesByZero (cfg : Config) (b : Breaker) (success : Bool) (r : Reading) : Bool :=
  b.state = .closed ∧ cfg.minRequests = 0 ∧ counted cfg b success r = []

def recordThen (cfg : Config) (b : Breaker) (success : Bool) (r : Reading) (v : Verdict V E) :
    Breaker × Verdict V E :=
  (record cfg b success r, if dividesByZero cfg b success r then .done .zeroDivision else v)

def retryOrExhaust (cfg : Config) (policy : RetryPolicy) (attempt : ℕ) (b : Breaker) (r : Reading)
    (jitter : ℚ) (e : E) : Breaker × Verdict V E :=
  recordThen cfg b false r
    (if policy.maxAttempts ≤ attempt + 1 then .done (.raised e)
    else
      match delayFor policy attempt jitter with
      | none => .done .overflow
      | some _ => .again)

def runOneAttempt (cfg : Config) (policy : RetryPolicy) (attempt : ℕ) (b : Breaker)
    (x : Attempt V E) : Option (AttemptLog V E) × Breaker × Verdict V E :=
  if admits cfg b x.now then
    let b₁ := beforeCall cfg b x.now
    match x.probe with
    | some e => (some ⟨b, x.now, some e, none, [false]⟩,
        retryOrExhaust cfg policy attempt b₁ x.reading x.jitter e)
    | none =>
      match x.fn with
      | .unavailable e => (some ⟨b, x.now, none, some x.fn, [false]⟩,
          retryOrExhaust cfg policy attempt b₁ x.reading x.jitter e)
      | .other e => (some ⟨b, x.now, none, some x.fn, [false]⟩,
          recordThen cfg b₁ false x.reading (.done (.raised e)))
      | .value v => (some ⟨b, x.now, none, some x.fn, [true]⟩,
          recordThen cfg b₁ true x.reading (.done (.returned v)))
  else (none, b, .done (.failFast b x.now))

def attempts (cfg : Config) (policy : RetryPolicy) (x : ℕ → Attempt V E) :
    ℕ → ℕ → Breaker → List (AttemptLog V E) × CallResult V E
  | 0, _, _ => ([], .noResult)
  | left + 1, attempt, b =>
    let (log, b', verdict) := runOneAttempt cfg policy attempt b (x attempt)
    match verdict with
    | .done r => (log.toList, r)
    | .again =>
      let rest := attempts cfg policy x left (attempt + 1) b'
      (log.toList ++ rest.1, rest.2)

def resilientCall (cfg : Config) (policy : RetryPolicy) (x : ℕ → Attempt V E) (b : Breaker) :
    List (AttemptLog V E) × CallResult V E :=
  attempts cfg policy x policy.maxAttempts 0 b

def AttemptLog.error (log : AttemptLog V E) : Option E :=
  match log.probe, log.invoked with
  | some e, _ => some e
  | none, some (.unavailable e) => some e
  | none, some (.other e) => some e
  | _, _ => none

def AttemptLog.Unavailable (log : AttemptLog V E) : Prop :=
  (∃ e, log.probe = some e) ∨ ∃ e, log.invoked = some (.unavailable e)

def Answers (cfg : Config) (logs : List (AttemptLog V E)) : CallResult V E → Prop
  | .returned v => ∃ log, logs.getLast? = some log ∧ log.invoked = some (.value v)
  | .raised e => ∃ log, logs.getLast? = some log ∧ log.error = some e
  | .failFast state now => admits cfg state now = false
  | _ => False

structure Accounted (cfg : Config) (policy : RetryPolicy) (logs : List (AttemptLog V E))
    (result : CallResult V E) : Prop where
  bounded : (logs.filter fun log => log.invoked.isSome).length ≤ policy.maxAttempts
  retried : ∀ before log next rest, logs = before ++ log :: next :: rest → log.Unavailable
  admitted : ∀ log ∈ logs, ¬ (log.state.state = .opened ∧
    log.now - log.state.openedAt < cfg.cooldownSeconds)
  recorded : ∀ log ∈ logs, ∃ success, log.recorded = [success] ∧
    (success = true ↔ ∃ v, log.invoked = some (.value v))
  first : ∀ log ∈ logs, ∀ v, log.invoked = some (.value v) → result = .returned v
  answer : Answers cfg logs result

/-- A probe that raises ends the attempt as an unavailable bus does. -/
def Attempt.ending (x : Attempt V E) : FnOutcome V E :=
  match x.probe with
  | some e => .unavailable e
  | none => x.fn

def FnOutcome.succeeds : FnOutcome V E → Bool
  | .value _ => true
  | _ => false

def logOf (b : Breaker) (x : Attempt V E) : AttemptLog V E :=
  ⟨b, x.now, x.probe, if x.probe.isSome then none else some x.fn, [x.ending.succeeds]⟩

def settle (policy : RetryPolicy) (attempt : ℕ) : FnOutcome V E → Verdict V E
  | .value v => .done (.returned v)
  | .other e => .done (.raised e)
  | .unavailable e =>
    if policy.maxAttempts ≤ attempt + 1 then .done (.raised e)
    else if floatExponents ≤ attempt then .done .overflow
    else .again

section Attempt

variable {cfg : Config} {policy : RetryPolicy} {attempt : ℕ} {b : Breaker} {x : Attempt V E}

theorem runOneAttempt_refused (h : admits cfg b x.now = false) :
    runOneAttempt cfg policy attempt b x = (none, b, .done (.failFast b x.now)) := by
  simp [runOneAttempt, h]

theorem runOneAttempt_admitted (h : admits cfg b x.now = true) :
    runOneAttempt cfg policy attempt b x = (some (logOf b x),
      recordThen cfg (beforeCall cfg b x.now) x.ending.succeeds x.reading
        (settle policy attempt x.ending)) := by
  have hretry : ∀ e : E, (if policy.maxAttempts ≤ attempt + 1 then Verdict.done (.raised e)
      else
        match delayFor policy attempt x.jitter with
        | none => .done .overflow
        | some _ => .again) = (settle policy attempt (.unavailable e) : Verdict V E) := by
    intro e
    unfold settle delayFor
    split_ifs <;> rfl
  unfold runOneAttempt
  rw [if_pos h]
  cases hp : x.probe with
  | some e => simp only [logOf, Attempt.ending, FnOutcome.succeeds, hp, retryOrExhaust, hretry,
      Option.isSome_some, if_true]
  | none =>
    cases hf : x.fn <;>
      simp [logOf, Attempt.ending, FnOutcome.succeeds, hp, hf, retryOrExhaust, hretry, settle]

theorem logOf_value {v : V} : (logOf b x).invoked = some (.value v) ↔ x.ending = .value v := by
  unfold logOf Attempt.ending
  cases x.probe <;> simp

theorem logOf_error {e : E} (h : x.ending = .unavailable e ∨ x.ending = .other e) :
    (logOf b x).error = some e := by
  unfold logOf AttemptLog.error
  unfold Attempt.ending at h
  cases hp : x.probe with
  | some e' => simpa [hp] using h
  | none =>
    rw [hp] at h
    rcases h with h | h <;> simp only at h <;> simp [h]

theorem logOf_unavailable {e : E} (h : x.ending = .unavailable e) :
    (logOf b x).Unavailable := by
  unfold Attempt.ending at h
  cases hp : x.probe with
  | some e' => exact .inl ⟨e', hp⟩
  | none =>
    rw [hp] at h
    exact .inr ⟨e, by simpa [logOf, hp] using h⟩

theorem logOf_recorded : ∃ success, (logOf b x).recorded = [success] ∧
    (success = true ↔ ∃ v, (logOf b x).invoked = some (.value v)) := by
  refine ⟨x.ending.succeeds, rfl, ?_⟩
  simp only [logOf_value]
  cases x.ending <;> simp [FnOutcome.succeeds]

theorem admits_iff : admits cfg b x.now = true ↔
    ¬ (b.state = .opened ∧ x.now - b.openedAt < cfg.cooldownSeconds) := by
  simp only [admits, decide_eq_true_eq, not_and_or, not_lt]

theorem settle_again {o : FnOutcome V E} (h : settle policy attempt o = .again) :
    (∃ e, o = .unavailable e) ∧ attempt + 1 < policy.maxAttempts ∧ attempt < floatExponents := by
  cases o with
  | value v => cases h
  | other e => cases h
  | unavailable e =>
    unfold settle at h
    split_ifs at h with h₁ h₂
    exact ⟨⟨e, rfl⟩, by omega, by omega⟩

end Attempt

section Attempts

variable {cfg : Config} {policy : RetryPolicy} {x : ℕ → Attempt V E}

def after (cfg : Config) (b : Breaker) (x : Attempt V E) : Breaker :=
  record cfg (beforeCall cfg b x.now) x.ending.succeeds x.reading

def verdict (cfg : Config) (policy : RetryPolicy) (attempt : ℕ) (b : Breaker) (x : Attempt V E) :
    Verdict V E :=
  if dividesByZero cfg (beforeCall cfg b x.now) x.ending.succeeds x.reading then .done .zeroDivision
  else settle policy attempt x.ending

theorem attempts_cases (left attempt : ℕ) (b : Breaker) :
    (admits cfg b (x attempt).now = false ∧
      attempts cfg policy x (left + 1) attempt b = ([], .failFast b (x attempt).now)) ∨
    (admits cfg b (x attempt).now = true ∧
      ((∃ r, verdict cfg policy attempt b (x attempt) = .done r ∧
          attempts cfg policy x (left + 1) attempt b = ([logOf b (x attempt)], r)) ∨
        (verdict cfg policy attempt b (x attempt) = .again ∧
          attempts cfg policy x (left + 1) attempt b =
            (logOf b (x attempt) ::
                (attempts cfg policy x left (attempt + 1) (after cfg b (x attempt))).1,
              (attempts cfg policy x left (attempt + 1) (after cfg b (x attempt))).2)))) := by
  cases hadm : admits cfg b (x attempt).now with
  | false =>
    refine .inl ⟨rfl, ?_⟩
    rw [attempts, runOneAttempt_refused hadm]
    rfl
  | true =>
    refine .inr ⟨rfl, ?_⟩
    have hrun : runOneAttempt cfg policy attempt b (x attempt) = (some (logOf b (x attempt)),
        after cfg b (x attempt), verdict cfg policy attempt b (x attempt)) :=
      runOneAttempt_admitted hadm
    rw [attempts, hrun]
    cases hv : verdict cfg policy attempt b (x attempt) with
    | done r => exact .inl ⟨r, rfl, rfl⟩
    | again => exact .inr ⟨rfl, rfl⟩

theorem verdict_again {attempt : ℕ} {b : Breaker} {y : Attempt V E}
    (h : verdict cfg policy attempt b y = .again) :
    dividesByZero cfg (beforeCall cfg b y.now) y.ending.succeeds y.reading = false ∧
      settle policy attempt y.ending = .again := by
  unfold verdict at h
  split_ifs at h with hz
  exact ⟨by simpa using hz, h⟩

/-- What holds of the attempts whatever happens. -/
structure Ordered (cfg : Config) (left : ℕ) (logs : List (AttemptLog V E)) : Prop where
  length : logs.length ≤ left
  retried : ∀ before log next rest, logs = before ++ log :: next :: rest → log.Unavailable
  admitted : ∀ log ∈ logs, ¬ (log.state.state = .opened ∧
    log.now - log.state.openedAt < cfg.cooldownSeconds)
  recorded : ∀ log ∈ logs, ∃ success, log.recorded = [success] ∧
    (success = true ↔ ∃ v, log.invoked = some (.value v))

theorem Ordered.cons {left : ℕ} {logs : List (AttemptLog V E)} (h : Ordered cfg left logs)
    {b : Breaker} {y : Attempt V E} (hadm : admits cfg b y.now = true)
    (hun : (logOf b y).Unavailable) : Ordered cfg (left + 1) (logOf b y :: logs) := by
  refine ⟨Nat.succ_le_succ h.length, ?_, ?_, ?_⟩
  · intro before log next rest he
    cases before with
    | nil =>
      cases he
      exact hun
    | cons first before =>
      cases he
      exact h.retried before log next rest rfl
  · exact List.forall_mem_cons.mpr ⟨admits_iff.mp hadm, h.admitted⟩
  · exact List.forall_mem_cons.mpr ⟨logOf_recorded, h.recorded⟩

theorem ordered_single {left : ℕ} {b : Breaker} {y : Attempt V E}
    (hadm : admits cfg b y.now = true) : Ordered cfg (left + 1) [logOf b y] := by
  refine ⟨by simp, ?_, ?_, ?_⟩
  · intro before log next rest he
    have := congrArg List.length he
    simp at this
    omega
  · exact List.forall_mem_singleton.mpr (admits_iff.mp hadm)
  · exact List.forall_mem_singleton.mpr logOf_recorded

theorem attempts_ordered (left attempt : ℕ) (b : Breaker) :
    Ordered cfg left (attempts cfg policy x left attempt b).1 := by
  induction left generalizing attempt b with
  | zero => exact ⟨le_refl _, by simp [attempts], by simp [attempts], by simp [attempts]⟩
  | succ left ih =>
    rcases @attempts_cases V E cfg policy x left attempt b with
      ⟨_, he⟩ | ⟨hadm, ⟨r, _, he⟩ | ⟨hv, he⟩⟩
    · rw [he]
      exact ⟨Nat.zero_le _, by simp, by simp, by simp⟩
    · rw [he]
      exact ordered_single hadm
    · rw [he]
      obtain ⟨⟨e, hend⟩, _⟩ := settle_again (verdict_again hv).2
      exact (ih _ _).cons hadm (logOf_unavailable hend)

def CallResult.Proper : CallResult V E → Prop
  | .returned _ => True
  | .raised _ => True
  | .failFast _ _ => True
  | _ => False

instance (r : CallResult V E) : Decidable r.Proper :=
  match r with
  | .returned _ => isTrue trivial
  | .raised _ => isTrue trivial
  | .failFast _ _ => isTrue trivial
  | .zeroDivision => isFalse id
  | .overflow => isFalse id
  | .noResult => isFalse id

/-- No attempt that is made records its outcome in an empty window whose size is divided by,
and none is retried after the last one whose delay has a float. -/
def Undisturbed (cfg : Config) (policy : RetryPolicy) (x : ℕ → Attempt V E) :
    ℕ → ℕ → Breaker → Prop
  | 0, _, _ => True
  | left + 1, attempt, b => admits cfg b (x attempt).now = true →
      dividesByZero cfg (beforeCall cfg b (x attempt).now) (x attempt).ending.succeeds
          (x attempt).reading = false ∧
        ((∃ e, (x attempt).ending = .unavailable e) → attempt + 1 < policy.maxAttempts →
          attempt < floatExponents ∧
            Undisturbed cfg policy x left (attempt + 1) (after cfg b (x attempt)))

theorem settle_proper {attempt : ℕ} {o : FnOutcome V E} {r : CallResult V E}
    (h : settle policy attempt o = .done r) :
    r.Proper ↔ ((∃ e, o = .unavailable e) → attempt + 1 < policy.maxAttempts →
      attempt < floatExponents) := by
  cases o with
  | value v =>
    cases h
    simp [CallResult.Proper]
  | other e =>
    cases h
    simp [CallResult.Proper]
  | unavailable e =>
    unfold settle at h
    split_ifs at h with h₁ h₂
    · cases h
      simp only [CallResult.Proper, true_iff]
      intro _ hlt
      omega
    · cases h
      simp only [CallResult.Proper, false_iff]
      intro hall
      have := hall ⟨e, rfl⟩ (by omega)
      omega

theorem settle_not_again {attempt : ℕ} {o : FnOutcome V E} {r : CallResult V E}
    (h : settle policy attempt o = .done r) (hun : ∃ e, o = .unavailable e)
    (hlt : attempt + 1 < policy.maxAttempts) : floatExponents ≤ attempt := by
  obtain ⟨e, rfl⟩ := hun
  unfold settle at h
  split_ifs at h with h₁ h₂
  · omega
  · exact h₂

theorem attempts_proper_iff (left attempt : ℕ) (b : Breaker)
    (hleft : left + 1 + attempt = policy.maxAttempts) :
    (attempts cfg policy x (left + 1) attempt b).2.Proper ↔
      Undisturbed cfg policy x (left + 1) attempt b := by
  induction left generalizing attempt b with
  | zero =>
    rcases @attempts_cases V E cfg policy x 0 attempt b with
      ⟨hadm, he⟩ | ⟨hadm, ⟨r, hv, he⟩ | ⟨hv, _⟩⟩
    · simp [he, Undisturbed, hadm, CallResult.Proper]
    · rw [he]
      unfold verdict at hv
      simp only [Undisturbed, hadm, true_imp_iff]
      split_ifs at hv with hz
      · cases hv
        simp [CallResult.Proper, hz]
      · rw [settle_proper hv]
        simp [hz]
    · have := (settle_again (verdict_again hv).2).2.1
      omega
  | succ left ih =>
    rcases @attempts_cases V E cfg policy x (left + 1) attempt b with
      ⟨hadm, he⟩ | ⟨hadm, ⟨r, hv, he⟩ | ⟨hv, he⟩⟩
    · simp [he, Undisturbed, hadm, CallResult.Proper]
    · rw [he, Undisturbed]
      unfold verdict at hv
      simp only [hadm, true_imp_iff]
      split_ifs at hv with hz
      · cases hv
        simp [CallResult.Proper, hz]
      · rw [settle_proper hv]
        simp only [hz, true_and]
        constructor
        · intro h hun hlt
          have := settle_not_again hv hun hlt
          have := h hun hlt
          omega
        · intro h hun hlt
          exact (h hun hlt).1
    · obtain ⟨hz, hs⟩ := verdict_again hv
      obtain ⟨hun, hlt, hfloat⟩ := settle_again hs
      rw [he, Undisturbed]
      simp only [hadm, true_imp_iff, hz, hun, hlt, hfloat, true_and]
      exact ih (attempt + 1) (after cfg b (x attempt)) (by omega)

theorem settle_answers {attempt : ℕ} {b : Breaker} {y : Attempt V E} {r : CallResult V E}
    (h : settle policy attempt y.ending = .done r) (hp : r.Proper) :
    Answers cfg [logOf b y] r ∧ ∀ v, y.ending = .value v → r = .returned v := by
  cases ho : y.ending with
  | value v =>
    rw [ho] at h
    cases h
    refine ⟨⟨_, rfl, logOf_value.mpr ho⟩, fun v' hv' => ?_⟩
    cases hv'
    rfl
  | other e =>
    rw [ho] at h
    cases h
    refine ⟨⟨_, rfl, logOf_error (.inr ho)⟩, fun v' hv' => ?_⟩
    cases hv'
  | unavailable e =>
    rw [ho] at h
    unfold settle at h
    split_ifs at h with h₁ h₂
    · cases h
      refine ⟨⟨_, rfl, logOf_error (.inl ho)⟩, fun v' hv' => ?_⟩
      cases hv'
    · cases h
      exact hp.elim

/-- An attempt before the others changes nothing about who answers. -/
theorem answers_cons {logs : List (AttemptLog V E)} {r : CallResult V E} (log : AttemptLog V E)
    (h : Answers cfg logs r) : Answers cfg (log :: logs) r := by
  cases r with
  | returned v =>
    obtain ⟨last, hlast, hv⟩ := h
    exact ⟨last, by rw [List.getLast?_cons, hlast]; rfl, hv⟩
  | raised e =>
    obtain ⟨last, hlast, he⟩ := h
    exact ⟨last, by rw [List.getLast?_cons, hlast]; rfl, he⟩
  | failFast state now => exact h
  | zeroDivision => exact h
  | overflow => exact h
  | noResult => exact h

theorem attempts_answers (left attempt : ℕ) (b : Breaker)
    (hp : (attempts cfg policy x left attempt b).2.Proper) :
    Answers cfg (attempts cfg policy x left attempt b).1
        (attempts cfg policy x left attempt b).2 ∧
      ∀ log ∈ (attempts cfg policy x left attempt b).1, ∀ v, log.invoked = some (.value v) →
        (attempts cfg policy x left attempt b).2 = .returned v := by
  induction left generalizing attempt b with
  | zero => exact hp.elim
  | succ left ih =>
    rcases @attempts_cases V E cfg policy x left attempt b with
      ⟨hadm, he⟩ | ⟨hadm, ⟨r, hv, he⟩ | ⟨hv, he⟩⟩
    · rw [he]
      exact ⟨hadm, by simp⟩
    · rw [he] at hp ⊢
      have hs : settle policy attempt (x attempt).ending = .done r := by
        unfold verdict at hv
        split_ifs at hv with hz
        · cases hv
          exact hp.elim
        · exact hv
      obtain ⟨hans, hval⟩ := settle_answers hs hp
      refine ⟨hans, fun log hlog v hv' => ?_⟩
      rw [List.mem_singleton.mp hlog, logOf_value] at hv'
      exact hval v hv'
    · rw [he] at hp ⊢
      obtain ⟨hans, hfirst⟩ := ih (attempt + 1) (after cfg b (x attempt)) hp
      obtain ⟨⟨e, hend⟩, _⟩ := settle_again (verdict_again hv).2
      refine ⟨answers_cons _ hans, List.forall_mem_cons.mpr ⟨fun v hval => ?_, hfirst⟩⟩
      rw [logOf_value, hend] at hval
      cases hval

theorem proper_of_answers {logs : List (AttemptLog V E)} {r : CallResult V E}
    (h : Answers cfg logs r) : r.Proper := by
  cases r <;> trivial

end Attempts

/-- For every policy of at least one attempt, every breaker and whatever the probe, the
function and the clock do: the call is accounted for exactly if none of the attempts it
makes disturbs the bookkeeping. -/
theorem resilientCall_accounted_iff (cfg : Config) (policy : RetryPolicy)
    (hmax : 1 ≤ policy.maxAttempts) (x : ℕ → Attempt V E) (b : Breaker) :
    Accounted cfg policy (resilientCall cfg policy x b).1 (resilientCall cfg policy x b).2 ↔
      Undisturbed cfg policy x policy.maxAttempts 0 b := by
  obtain ⟨left, hleft⟩ : ∃ left, policy.maxAttempts = left + 1 := ⟨policy.maxAttempts - 1, by omega⟩
  have hproper : (resilientCall cfg policy x b).2.Proper ↔
      Undisturbed cfg policy x policy.maxAttempts 0 b := by
    unfold resilientCall
    rw [hleft]
    exact attempts_proper_iff left 0 b (by omega)
  rw [← hproper]
  have hord : Ordered cfg policy.maxAttempts (resilientCall cfg policy x b).1 :=
    attempts_ordered policy.maxAttempts 0 b
  constructor
  · intro h
    exact proper_of_answers h.answer
  · intro hp
    obtain ⟨hans, hfirst⟩ := attempts_answers policy.maxAttempts 0 b hp
    exact ⟨(List.length_filter_le _ _).trans hord.length, hord.retried, hord.admitted,
      hord.recorded, hfirst, hans⟩

def prompt : ℕ → Attempt String String := fun n =>
  ⟨n, none, .value "pong", ⟨n, n + 1 / 1000, n + 1 / 1000⟩, 1 / 2⟩

def threeAttempts : RetryPolicy := ⟨3, 1 / 5, 2⟩

def noWindow : Config := ⟨1 / 2, 0, 0, 15⟩

def recovering : ℕ → Attempt String String := fun n =>
  ⟨n, if n = 0 then some "NATS client is disconnected" else none, .value "pong", readAt n, 1 / 2⟩

theorem recovering_accounted : 1 ≤ threeAttempts.maxAttempts ∧
    Accounted defaultConfig threeAttempts
      (resilientCall defaultConfig threeAttempts recovering initial).1
      (resilientCall defaultConfig threeAttempts recovering initial).2 := by
  refine ⟨by decide, (resilientCall_accounted_iff defaultConfig threeAttempts (by decide) recovering
    initial).mpr ?_⟩
  intro _
  refine ⟨by decide +kernel, fun _ _ => ⟨by decide, fun _ => ⟨by decide +kernel, ?_⟩⟩⟩
  rintro ⟨e, he⟩
  cases he

def downForGood : ℕ → Attempt String String := fun n =>
  ⟨n, some "NATS client is disconnected", .value "pong", readAt n, 1 / 2⟩

def shortWindow : Config := ⟨1 / 2, 5, 1 / 2, 15⟩

def persistent : RetryPolicy := ⟨1026, 1 / 5, 2⟩

def failedAt (t : ℚ) : Breaker := ⟨.closed, 0, [(t, false)]⟩

/-- Outcomes out of the window are gone when the next failure is counted. -/
theorem after_downForGood (n : ℕ) {events : List (ℚ × Bool)}
    (hold : ∀ e ∈ events, e.1 < (n : ℚ) - 1 / 2) :
    after shortWindow ⟨.closed, 0, events⟩ (downForGood n) = failedAt n := by
  have hnew : trim shortWindow n [((n : ℚ), false)] = [((n : ℚ), false)] := by
    refine List.dropWhile_cons_of_neg fun hlt => ?_
    have : (n : ℚ) < n - 1 / 2 := of_decide_eq_true hlt
    linarith
  have happended : appended shortWindow ⟨.closed, 0, events⟩ false (readAt n) =
      [((n : ℚ), false)] :=
    (List.dropWhile_append_of_pos fun e he => decide_eq_true (hold e he)).trans hnew
  have hcounted : counted shortWindow ⟨.closed, 0, events⟩ false (readAt n) =
      [((n : ℚ), false)] := by
    rw [counted, happended]
    exact hnew
  have htrips : trips shortWindow [((n : ℚ), false)] = false := rfl
  change record shortWindow ⟨.closed, 0, events⟩ false (readAt n) = _
  simp [record, hcounted, htrips, failedAt]

/-- Every attempt finds the breaker closed, up to the one whose delay has no float. -/
theorem downForGood_disturbed (left n : ℕ) (hn : n + 1 ≤ floatExponents)
    (hleft : left + 1 + (n + 1) = persistent.maxAttempts) :
    ¬ Undisturbed shortWindow persistent downForGood (left + 1) (n + 1) (failedAt n) := by
  have hmax : persistent.maxAttempts = floatExponents + 2 := rfl
  induction left generalizing n with
  | zero => omega
  | succ left ih =>
    intro h
    obtain ⟨_, hnext⟩ := h rfl
    obtain ⟨hlt, hrest⟩ := hnext ⟨_, rfl⟩ (by omega)
    have hold : ∀ e ∈ [((n : ℚ), false)], e.1 < ((n + 1 : ℕ) : ℚ) - 1 / 2 := by
      intro e he
      rw [List.mem_singleton.mp he, Nat.cast_succ]
      linarith
    rw [failedAt, after_downForGood (n + 1) hold] at hrest
    exact ih (n + 1) (by omega) (by omega) hrest

/-- A value is lost to the division by an empty window, and an unavailable bus is reported
as an overflow. -/
theorem bookkeeping_raises :
    (1 ≤ threeAttempts.maxAttempts ∧
      resilientCall noWindow threeAttempts prompt initial =
        ([logOf initial (prompt 0)], .zeroDivision) ∧
      ¬ Accounted noWindow threeAttempts (resilientCall noWindow threeAttempts prompt initial).1
        (resilientCall noWindow threeAttempts prompt initial).2) ∧
    (1 ≤ persistent.maxAttempts ∧
      ¬ Accounted shortWindow persistent
        (resilientCall shortWindow persistent downForGood initial).1
        (resilientCall shortWindow persistent downForGood initial).2) := by
  have hzero : resilientCall noWindow threeAttempts prompt initial =
      ([logOf initial (prompt 0)], .zeroDivision) := by
    rcases @attempts_cases String String noWindow threeAttempts prompt 2 0 initial with
      ⟨hadm, _⟩ | ⟨_, ⟨r, hv, he⟩ | ⟨hv, _⟩⟩
    · exact absurd hadm (by decide)
    · have hdiv : dividesByZero noWindow (beforeCall noWindow initial (prompt 0).now)
          (prompt 0).ending.succeeds (prompt 0).reading = true := by decide +kernel
      rw [verdict, if_pos hdiv] at hv
      cases hv
      exact he
    · exact absurd (verdict_again hv).1 (by decide +kernel)
  have hover : ¬ (resilientCall shortWindow persistent downForGood initial).2.Proper := by
    intro hproper
    have h := (attempts_proper_iff 1025 0 initial rfl).mp hproper
    obtain ⟨_, hrest⟩ := (h rfl).2 ⟨_, rfl⟩ (by decide)
    rw [initial, after_downForGood 0 (by simp)] at hrest
    exact downForGood_disturbed 1024 0 (by decide) rfl hrest
  refine ⟨⟨by decide, hzero, fun h => ?_⟩, by decide, fun h => hover (proper_of_answers h.answer)⟩
  have := proper_of_answers h.answer
  rw [hzero] at this
  exact this

end NatsResilientCall
