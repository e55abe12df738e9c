import OneOps.ListSplit
import Mathlib.Data.Rat.Defs
import Mathlib.Algebra.Order.Ring.Rat

/-! The circuit breaker of one subject. Callers ask before a call and record its outcome after
it, each under the lock, with any delay between the two. The window of outcomes is kept
through all changes of state. -/
namespace NatsCircuitBreaker

open ListSplit

inductive BreakerState where
  | closed | opened | halfOpen
  deriving DecidableEq, Repr

structure Config where
  failureRatio : ℚ
  minRequests : ℕ
  windowSeconds : ℚ
  cooldownSeconds : ℚ

/-- The outcomes of the window stand with the time when they were recorded. -/
structure Breaker where
  state : BreakerState
  openedAt : ℚ
  events : List (ℚ × Bool)

/-- The readings of the clock in one `record`: for the outcome, for the statistics, and for
the opening. -/
structure Reading where
  recorded : ℚ
  counted : ℚ
  opened : ℚ

def initial : Breaker := ⟨.closed, 0, []⟩

def trim (cfg : Config) (now : ℚ) (events : List (ℚ × Bool)) : List (ℚ × Bool) :=
  events.dropWhile fun e => e.1 < now - cfg.windowSeconds

def admits (cfg : Config) (b : Breaker) (now : ℚ) : Bool :=
  b.state ≠ .opened ∨ cfg.cooldownSeconds ≤ now - b.openedAt

def beforeCall (cfg : Config) (b : Breaker) (now : ℚ) : Breaker :=
  if b.state = .opened ∧ cfg.cooldownSeconds ≤ now - b.openedAt then { b with state := .halfOpen }
  else b

def failures (events : List (ℚ × Bool)) : ℕ := (events.filter fun e => !e.2).length

def trips (cfg : Config) (events : List (ℚ × Bool)) : Bool :=
  cfg.minRequests ≤ events.length ∧ 0 < events.length ∧
    cfg.failureRatio ≤ (failures events : ℚ) / events.length

def appended (cfg : Config) (b : Breaker) (success : Bool) (r : Reading) : List (ℚ × Bool) :=
  trim cfg r.recorded (b.events ++ [(r.recorded, success)])

def counted (cfg : Config) (b : Breaker) (success : Bool) (r : Reading) : List (ℚ × Bool) :=
  trim cfg r.counted (appended cfg b success r)

def record (cfg : Config) (b : Breaker) (success : Bool) (r : Reading) : Breaker :=
  match b.state with
  | .halfOpen =>
    if success then { b with state := .closed, events := appended cfg b success r }
    else ⟨.opened, r.opened, appended cfg b success r⟩
  | .closed =>
    if trips cfg (counted cfg b success r) then ⟨.opened, r.opened, counted cfg b success r⟩
    else { b with events := counted cfg b success r }
  | .opened => { b with events := appended cfg b success r }

inductive Event where
  | call (id : ℕ) (now : ℚ)
  | record (id : ℕ) (success : Bool) (r : Reading)

/-- The breaker with what the callers have done: the calls made, those admitted, those whose
outcome is recorded, and those that moved the breaker from open to half-open, newest first. -/
structure World where
  breaker : Breaker
  called : List ℕ
  admitted : List ℕ
  recorded : List ℕ
  probes : List ℕ

def start : World := ⟨initial, [], [], [], []⟩

def step (cfg : Config) (w : World) : Event → World
  | .call id now =>
    { w with
      breaker := beforeCall cfg w.breaker now
      called := id :: w.called
      admitted := if admits cfg w.breaker now then id :: w.admitted else w.admitted
      probes :=
        if w.breaker.state = .opened ∧ admits cfg w.breaker now then id :: w.probes else w.probes }
  | .record id success r =>
    { w with
      breaker := record cfg w.breaker success r
      recorded := id :: w.recorded }

def after (cfg : Config) (events : List Event) : World := events.foldl (step cfg) start

/-- A call is new, and an outcome belongs to an admitted call and is recorded once. -/
def Enabled (w : World) : Event → Prop
  | .call id _ => id ∉ w.called
  | .record id _ _ => id ∈ w.admitted ∧ id ∉ w.recorded

instance (w : World) (e : Event) : Decidable (Enabled w e) :=
  match e with
  | .call _ _ => inferInstanceAs (Decidable (_ ∉ _))
  | .record _ _ _ => inferInstanceAs (Decidable (_ ∧ _))

/-- A probe whose outcome is not recorded yet. -/
def Pending (w : World) (id : ℕ) : Prop := id ∈ w.probes ∧ id ∉ w.recorded

structure Protocol (cfg : Config) (w : World) (e : Event) : Prop where
  oneProbe : ∀ id now, e = .call id now → admits cfg w.breaker now = true → ∀ p, ¬ Pending w p
  probeDecides : w.breaker.state = .halfOpen → (step cfg w e).breaker.state ≠ .halfOpen →
    ∃ id success r, e = .record id success r ∧ w.probes.head? = some id
  failureOpens : w.breaker.state = .closed → (step cfg w e).breaker.state = .opened →
    ∃ id r, e = .record id false r

/-- Nobody calls a half-open breaker, only the probe records its outcome there, and no
success is recorded that brings the window of a closed breaker to its limits. -/
def Calm (cfg : Config) (w : World) : Event → Prop
  | .call _ _ => w.breaker.state ≠ .halfOpen
  | .record id success r =>
    (w.breaker.state = .halfOpen → w.probes.head? = some id) ∧
      (w.breaker.state = .closed → trips cfg (counted cfg w.breaker success r) = true →
        success = false)

/-- As long as the promises are kept, the half-open breaker has one probe on its way and
any other breaker has none. -/
structure Inv (w : World) : Prop where
  recordedCalled : ∀ id ∈ w.recorded, id ∈ w.called
  admittedCalled : ∀ id ∈ w.admitted, id ∈ w.called
  probing : w.breaker.state = .halfOpen → ∃ p, w.probes.head? = some p ∧ Pending w p
  pending : ∀ p, Pending w p → w.breaker.state = .halfOpen ∧ w.probes.head? = some p

section Step

variable {cfg : Config} {w : World}

theorem inv_start : Inv start := by
  refine ⟨?_, ?_, ?_, ?_⟩
  · intro id h
    cases h
  · intro id h
    cases h
  · intro h
    cases h
  · rintro p ⟨h, _⟩
    cases h

theorem record_halfOpen {success : Bool} {r : Reading} (h : w.breaker.state = .halfOpen) :
    (record cfg w.breaker success r).state ≠ .halfOpen := by
  cases success <;> simp [record, h]

theorem record_not_halfOpen {success : Bool} {r : Reading} (h : w.breaker.state ≠ .halfOpen) :
    (record cfg w.breaker success r).state ≠ .halfOpen := by
  cases hs : w.breaker.state with
  | halfOpen => exact absurd hs h
  | opened => simp [record, hs]
  | closed =>
    simp only [record, hs]
    split <;> simp

theorem record_opens {success : Bool} {r : Reading} (h : w.breaker.state = .closed) :
    (record cfg w.breaker success r).state = .opened ↔
      trips cfg (counted cfg w.breaker success r) = true := by
  simp only [record, h]
  split <;> simp_all

theorem beforeCall_state {now : ℚ} (h : w.breaker.state ≠ .opened) :
    beforeCall cfg w.breaker now = w.breaker := by
  simp [beforeCall, h]

/-- With the invariant, a step keeps the promises exactly when it is calm. -/
theorem protocol_iff_calm (h : Inv w) (e : Event) : Protocol cfg w e ↔ Calm cfg w e := by
  cases e with
  | call id now =>
    constructor
    · intro hp hstate
      obtain ⟨p, _, hpend⟩ := h.probing hstate
      exact hp.oneProbe id now rfl (by simp [admits, hstate]) p hpend
    · intro hcalm
      refine ⟨?_, fun hs => absurd hs hcalm, ?_⟩
      · intro _ _ _ _ p hpend
        exact hcalm (h.pending p hpend).1
      · intro hs ho
        rw [step, beforeCall_state (by simp [hs]), hs] at ho
        cases ho
  | record id success r =>
    constructor
    · intro hp
      refine ⟨?_, ?_⟩
      · intro hs
        obtain ⟨_, _, _, he, hhead⟩ := hp.probeDecides hs (record_halfOpen hs)
        cases he
        exact hhead
      · intro hs ht
        obtain ⟨_, _, he⟩ := hp.failureOpens hs ((record_opens hs).mpr ht)
        cases he
        rfl
    · rintro ⟨hprobe, hfail⟩
      refine ⟨fun _ _ he => (by cases he), fun hs _ => ⟨id, success, r, rfl, hprobe hs⟩, ?_⟩
      intro hs ho
      obtain rfl := hfail hs ((record_opens hs).mp ho)
      exact ⟨id, r, rfl⟩

theorem inv_probe (h : Inv w) {id : ℕ} {now : ℚ} (hnew : id ∉ w.called)
    (hopen : w.breaker.state = .opened ∧ cfg.cooldownSeconds ≤ now - w.breaker.openedAt) :
    Inv (step cfg w (.call id now)) := by
  have hadm : admits cfg w.breaker now = true := by simp [admits, hopen.2]
  have hprobes : (step cfg w (.call id now)).probes = id :: w.probes := by
    simp [step, hopen.1, hadm]
  have hstate : (step cfg w (.call id now)).breaker.state = .halfOpen := by
    simp [step, beforeCall, hopen]
  have hpend : Pending (step cfg w (.call id now)) id :=
    ⟨by simp [hprobes], fun hr => hnew (h.recordedCalled id hr)⟩
  refine ⟨fun x hx => List.mem_cons_of_mem _ (h.recordedCalled x hx), ?_, ?_, ?_⟩
  · intro x hx
    simp only [step, hadm, if_true] at hx
    rcases List.mem_cons.mp hx with rfl | hx
    · exact List.mem_cons_self
    · exact List.mem_cons_of_mem _ (h.admittedCalled x hx)
  · exact fun _ => ⟨id, by simp [hprobes], hpend⟩
  · intro p hp
    refine ⟨hstate, ?_⟩
    rcases List.mem_cons.mp (hprobes ▸ hp.1) with rfl | hold
    · simp [hprobes]
    · -- an older probe would have kept the breaker half-open
      have := (h.pending p ⟨hold, hp.2⟩).1
      rw [hopen.1] at this
      cases this

theorem inv_call (h : Inv w) {id : ℕ} {now : ℚ} (hcalm : w.breaker.state ≠ .halfOpen)
    (hopen : ¬ (w.breaker.state = .opened ∧ cfg.cooldownSeconds ≤ now - w.breaker.openedAt)) :
    Inv (step cfg w (.call id now)) := by
  have hb : beforeCall cfg w.breaker now = w.breaker := if_neg hopen
  have hprobes : (step cfg w (.call id now)).probes = w.probes := by
    by_cases hs : w.breaker.state = .opened
    · have hlt : ¬ cfg.cooldownSeconds ≤ now - w.breaker.openedAt := fun hle => hopen ⟨hs, hle⟩
      simp [step, admits, hs, hlt]
    · simp [step, hs]
  have hnone : ∀ p, ¬ Pending (step cfg w (.call id now)) p := by
    rintro p ⟨hp, hr⟩
    exact hcalm (h.pending p ⟨hprobes ▸ hp, hr⟩).1
  refine ⟨fun x hx => List.mem_cons_of_mem _ (h.recordedCalled x hx), ?_, ?_,
    fun p hp => absurd hp (hnone p)⟩
  · intro x hx
    simp only [step] at hx
    by_cases hadm : admits cfg w.breaker now = true
    · rw [if_pos hadm] at hx
      rcases List.mem_cons.mp hx with rfl | hx
      · exact List.mem_cons_self
      · exact List.mem_cons_of_mem _ (h.admittedCalled x hx)
    · rw [if_neg hadm] at hx
      exact List.mem_cons_of_mem _ (h.admittedCalled x hx)
  · intro hs
    rw [step, hb] at hs
    exact absurd hs hcalm

theorem inv_record (h : Inv w) {id : ℕ} {success : Bool} {r : Reading} (hadm : id ∈ w.admitted)
    (hprobe : w.breaker.state = .halfOpen → w.probes.head? = some id) :
    Inv (step cfg w (.record id success r)) := by
  have hstate : (step cfg w (.record id success r)).breaker.state ≠ .halfOpen := by
    by_cases hs : w.breaker.state = .halfOpen
    · exact record_halfOpen hs
    · exact record_not_halfOpen hs
  have hnone : ∀ p, ¬ Pending (step cfg w (.record id success r)) p := by
    rintro p ⟨hp, hr⟩
    have hr' : p ≠ id ∧ p ∉ w.recorded := by simpa [step] using hr
    obtain ⟨hs, hhead⟩ := h.pending p ⟨hp, hr'.2⟩
    rw [hprobe hs] at hhead
    cases hhead
    exact hr'.1 rfl
  refine ⟨?_, h.admittedCalled, fun hs => absurd hs hstate, fun p hp => absurd hp (hnone p)⟩
  intro x hx
  rcases List.mem_cons.mp hx with rfl | hx
  · exact h.admittedCalled _ hadm
  · exact h.recordedCalled x hx

theorem inv_step (h : Inv w) {e : Event} (he : Enabled w e) (hc : Calm cfg w e) :
    Inv (step cfg w e) := by
  cases e with
  | call id now =>
    by_cases hopen : w.breaker.state = .opened ∧ cfg.cooldownSeconds ≤ now - w.breaker.openedAt
    · exact inv_probe h he hopen
    · exact inv_call h hc hopen
  | record id success r => exact inv_record h he.1 hc.1

end Step

theorem after_snoc (cfg : Config) (events : List Event) (e : Event) :
    after cfg (events ++ [e]) = step cfg (after cfg events) e := by
  simp [after]

/-- For every number of callers, every interleaving of their steps and every clock: the
promises hold at each step exactly when each step is calm. -/
theorem breaker_protocol_iff (cfg : Config) (events : List Event)
    (hv : AtEach (fun before e => Enabled (after cfg before) e) events) :
    AtEach (fun before e => Protocol cfg (after cfg before) e) events ↔
      AtEach (fun before e => Calm cfg (after cfg before) e) events := by
  have hboth : AtEach (fun before e => Enabled (after cfg before) e ∧
        Protocol cfg (after cfg before) e) events ↔
      AtEach (fun before e => Enabled (after cfg before) e ∧ Calm cfg (after cfg before) e)
        events := by
    apply atEach_congr (I := fun before => Inv (after cfg before)) inv_start
    · intro before e h
      exact and_congr_right fun _ => protocol_iff_calm h e
    · intro before e h hp
      rw [after_snoc]
      exact inv_step h hp.1 ((protocol_iff_calm h e).mp hp.2)
  constructor
  · intro h before e rest he
    exact (hboth.mp (fun b x r hx => ⟨hv b x r hx, h b x r hx⟩) before e rest he).2
  · intro h before e rest he
    exact (hboth.mpr (fun b x r hx => ⟨hv b x r hx, h b x r hx⟩) before e rest he).2

def defaultConfig : Config := ⟨1 / 2, 5, 30, 15⟩

def readAt (now : ℚ) : Reading := ⟨now, now, now⟩

def outage : List Event :=
  [.call 0 0, .call 1 0, .call 2 0, .call 3 0, .call 4 0, .call 5 0,
    .record 1 false (readAt 1), .record 2 false (readAt 1), .record 3 false (readAt 1),
    .record 4 false (readAt 1), .record 5 false (readAt 1)]

def probed : List Event := outage ++ [.call 6 16]

def twoProbes : List Event := probed ++ [.call 7 16]

def lateOutcome : List Event := probed ++ [.record 0 true (readAt 17)]

def openedBySuccess : List Event :=
  [.call 1 0, .call 2 0, .call 3 0, .call 4 0, .call 5 0, .record 1 false (readAt 1),
    .record 2 false (readAt 1), .record 3 false (readAt 1), .record 4 false (readAt 1),
    .record 5 true (readAt 1)]

theorem outage_protocol :
    AtEach (fun before e => Protocol defaultConfig (after defaultConfig before) e) outage ↔
      AtEach (fun before e => Calm defaultConfig (after defaultConfig before) e) outage :=
  breaker_protocol_iff defaultConfig outage (atEach_iff_get.mpr (by decide +kernel))

/-- The half-open breaker admits a second call, closes on the outcome of a call from before
it opened, and a closed one opens on a success. -/
theorem breaker_promises_break :
    (AtEach (fun before e => Enabled (after defaultConfig before) e) twoProbes ∧
      ¬ AtEach (fun before e => Protocol defaultConfig (after defaultConfig before) e) twoProbes) ∧
    (AtEach (fun before e => Enabled (after defaultConfig before) e) lateOutcome ∧
      ¬ AtEach (fun before e => Protocol defaultConfig (after defaultConfig before) e)
        lateOutcome) ∧
    (AtEach (fun before e => Enabled (after defaultConfig before) e) openedBySuccess ∧
      ¬ AtEach (fun before e => Protocol defaultConfig (after defaultConfig before) e)
        openedBySuccess) := by
  have hpend : Pending (after defaultConfig probed) 6 := ⟨by decide +kernel, by decide +kernel⟩
  have hadm : admits defaultConfig (after defaultConfig probed).breaker 16 = true := by
    decide +kernel
  have hhalf : (after defaultConfig probed).breaker.state = .halfOpen := by
    decide +kernel
  have hhead : (after defaultConfig probed).probes.head? = some 6 := by
    decide +kernel
  have hclosed : (after defaultConfig openedBySuccess.dropLast).breaker.state = .closed := by
    decide +kernel
  have hopened : (step defaultConfig (after defaultConfig openedBySuccess.dropLast)
      (.record 5 true (readAt 1))).breaker.state = .opened := by decide +kernel
  refine ⟨⟨atEach_iff_get.mpr (by decide +kernel), ?_⟩,
    ⟨atEach_iff_get.mpr (by decide +kernel), ?_⟩,
    ⟨atEach_iff_get.mpr (by decide +kernel), ?_⟩⟩
  · intro h
    exact (h probed (.call 7 16) [] rfl).oneProbe 7 16 rfl hadm 6 hpend
  · intro h
    obtain ⟨id, success, r, he, hid⟩ := (h probed (.record 0 true (readAt 17)) []
      rfl).probeDecides hhalf (record_halfOpen hhalf)
    cases he
    rw [hhead] at hid
    cases hid
  · intro h
    obtain ⟨id, r, he⟩ := (h openedBySuccess.dropLast (.record 5 true (readAt 1)) []
      rfl).failureOpens hclosed hopened
    cases he

end NatsCircuitBreaker
