import Mathlib.Algebra.Ring.Int.Defs
import Mathlib.Logic.Function.Basic
import Mathlib.Logic.Relation
import Mathlib.Tactic.Common
import Mathlib.Tactic.SplitIfs

/-! The per-RITM advisory lock of `execute_plan`. Every call opens a session of its own,
tries the key that its process derives from the RITM id, and runs the wave loop only if
the key was granted. Python's `hash` of a text differs between processes, so it is a
parameter of each process. The store grants a key to one session at a time; closing a
session or losing its process releases what it holds. -/
namespace FulfillmentAdvisoryLock

/-- The awaits around the lock. `inside` is the span of `_execute_plan_locked`,
`contended` the snapshot path; both end in the `finally` block. -/
inductive LockPhase where
  | attempt | inside | contended | unlock | close | closed
  deriving DecidableEq, Repr

structure Call (P : Type*) where
  proc : P
  ritmId : String
  phase : LockPhase

structure State (P : Type*) where
  call : ℕ → Option (Call P)
  holder : ℤ → Option ℕ

def initial (P : Type*) : State P := ⟨fun _ => none, fun _ => none⟩

inductive Event (P : Type*) where
  | enter (i : ℕ) (p : P) (ritmId : String)
  | tryLock (i : ℕ)
  | leave (i : ℕ)
  | unlock (i : ℕ)
  | close (i : ℕ)
  | crash (i : ℕ)

section Machine

variable {P : Type*} (hash : P → String → ℤ)

/-- `hash(ritm_id) % (2 ** 31)`, with Python's non-negative remainder. -/
def lockKey (p : P) (ritmId : String) : ℤ := hash p ritmId % 2 ^ 31

def setPhase (s : State P) (i : ℕ) (c : Call P) (ph : LockPhase) : State P :=
  { s with call := Function.update s.call i (some { c with phase := ph }) }

def release (s : State P) (i : ℕ) : ℤ → Option ℕ :=
  fun k => if s.holder k = some i then none else s.holder k

def Enabled (s : State P) : Event P → Prop
  | .enter i _ _ => s.call i = none
  | .tryLock i => ∃ c, s.call i = some c ∧ c.phase = .attempt
  | .leave i => ∃ c, s.call i = some c ∧ (c.phase = .inside ∨ c.phase = .contended)
  | .unlock i => ∃ c, s.call i = some c ∧ c.phase = .unlock
  | .close i => ∃ c, s.call i = some c ∧ c.phase = .close
  | .crash i => ∃ c, s.call i = some c

/-- `pg_try_advisory_lock` refuses a key that another session holds; unlocking a key that
is not held changes nothing. -/
def next (s : State P) : Event P → State P
  | .enter i p ritmId => { s with call := Function.update s.call i (some ⟨p, ritmId, .attempt⟩) }
  | .tryLock i =>
    match s.call i with
    | none => s
    | some c =>
      if s.holder (lockKey hash c.proc c.ritmId) = none ∨
          s.holder (lockKey hash c.proc c.ritmId) = some i then
        { setPhase s i c .inside with
          holder := Function.update s.holder (lockKey hash c.proc c.ritmId) (some i) }
      else setPhase s i c .contended
  | .leave i =>
    match s.call i with
    | none => s
    | some c => setPhase s i c .unlock
  | .unlock i =>
    match s.call i with
    | none => s
    | some c =>
      if s.holder (lockKey hash c.proc c.ritmId) = some i then
        { setPhase s i c .close with
          holder := Function.update s.holder (lockKey hash c.proc c.ritmId) none }
      else setPhase s i c .close
  | .close i | .crash i =>
    match s.call i with
    | none => s
    | some c => { setPhase s i c .closed with holder := release s i }

def Step (s t : State P) : Prop := ∃ e, Enabled s e ∧ t = next hash s e

def Reachable (s : State P) : Prop := Relation.ReflTransGen (Step hash) (initial P) s

end Machine

variable {P : Type*}

def Inside (s : State P) (i : ℕ) (ritmId : String) : Prop :=
  ∃ c, s.call i = some c ∧ c.ritmId = ritmId ∧ c.phase = .inside

def Exclusive (s : State P) (ritmId : String) : Prop :=
  ∀ i j, Inside s i ritmId → Inside s j ritmId → i = j

def HoldsKey (hash : P → String → ℤ) (s : State P) : Prop :=
  ∀ i c, s.call i = some c → c.phase = .inside →
    s.holder (lockKey hash c.proc c.ritmId) = some i

section Invariant

variable {hash : P → String → ℤ} {s : State P}

theorem setPhase_call {i j : ℕ} {c d : Call P} {ph : LockPhase}
    (h : (setPhase s i c ph).call j = some d) :
    (j = i ∧ d = { c with phase := ph }) ∨ (j ≠ i ∧ s.call j = some d) := by
  simp only [setPhase, Function.update_apply] at h
  split_ifs at h with hij
  · exact .inl ⟨hij, (Option.some.inj h).symm⟩
  · exact .inr ⟨hij, h⟩

/-- Leaving the wave loop, or not entering it, takes no key from anybody. -/
theorem holdsKey_setPhase (hs : HoldsKey hash s) {i : ℕ} {c : Call P} {ph : LockPhase}
    (hph : ph ≠ .inside) : HoldsKey hash (setPhase s i c ph) := by
  intro j d hd hin
  rcases setPhase_call hd with ⟨_, rfl⟩ | ⟨_, hd⟩
  · exact absurd hin hph
  · exact hs j d hd hin

theorem holdsKey_release (hs : HoldsKey hash s) {i : ℕ} {c : Call P} :
    HoldsKey hash { setPhase s i c .closed with holder := release s i } := by
  intro j d hd hin
  rcases setPhase_call hd with ⟨_, rfl⟩ | ⟨hij, hd⟩
  · cases hin
  · have hj := hs j d hd hin
    simp [release, hj, hij]

theorem holdsKey_tryLock (hs : HoldsKey hash s) {i : ℕ} {c : Call P}
    (hfree : s.holder (lockKey hash c.proc c.ritmId) = none ∨
      s.holder (lockKey hash c.proc c.ritmId) = some i) :
    HoldsKey hash { setPhase s i c .inside with
      holder := Function.update s.holder (lockKey hash c.proc c.ritmId) (some i) } := by
  intro j d hd hin
  rcases setPhase_call hd with ⟨rfl, rfl⟩ | ⟨hij, hd⟩
  · simp
  · have hj := hs j d hd hin
    have hne : lockKey hash d.proc d.ritmId ≠ lockKey hash c.proc c.ritmId := by
      intro he
      rw [he] at hj
      rcases hfree with h | h <;> rw [h] at hj
      · cases hj
      · exact hij (Option.some.inj hj).symm
    simp [hne, hj]

theorem holdsKey_unlock (hs : HoldsKey hash s) {i : ℕ} {c : Call P}
    (hmine : s.holder (lockKey hash c.proc c.ritmId) = some i) :
    HoldsKey hash { setPhase s i c .close with
      holder := Function.update s.holder (lockKey hash c.proc c.ritmId) none } := by
  intro j d hd hin
  rcases setPhase_call hd with ⟨_, rfl⟩ | ⟨hij, hd⟩
  · cases hin
  · have hj := hs j d hd hin
    have hne : lockKey hash d.proc d.ritmId ≠ lockKey hash c.proc c.ritmId := by
      intro he
      rw [he, hmine] at hj
      exact hij (Option.some.inj hj).symm
    simp [hne, hj]

theorem next_holdsKey (hs : HoldsKey hash s) {e : Event P} (he : Enabled s e) :
    HoldsKey hash (next hash s e) := by
  cases e with
  | enter i p ritmId =>
    intro j d hd hin
    simp only [next, Function.update_apply] at hd
    split_ifs at hd with hij
    · cases hd
      cases hin
    · exact hs j d hd hin
  | tryLock i =>
    obtain ⟨c, hc, _⟩ := he
    simp only [next, hc]
    split_ifs with hfree
    · exact holdsKey_tryLock hs hfree
    · exact holdsKey_setPhase hs (by decide)
  | leave i =>
    obtain ⟨c, hc, _⟩ := he
    simp only [next, hc]
    exact holdsKey_setPhase hs (by decide)
  | unlock i =>
    obtain ⟨c, hc, _⟩ := he
    simp only [next, hc]
    split_ifs with hmine
    · exact holdsKey_unlock hs hmine
    · exact holdsKey_setPhase hs (by decide)
  | close i =>
    obtain ⟨c, hc, _⟩ := he
    simp only [next, hc]
    exact holdsKey_release hs
  | crash i =>
    obtain ⟨c, hc⟩ := he
    simp only [next, hc]
    exact holdsKey_release hs

theorem reachable_holdsKey (h : Reachable hash s) : HoldsKey hash s := by
  induction h with
  | refl => intro i c hc; cases hc
  | tail _ hstep ih =>
    obtain ⟨e, he, rfl⟩ := hstep
    exact next_holdsKey ih he

end Invariant

theorem Reachable.extend {hash : P → String → ℤ} {s : State P} (h : Reachable hash s) {e : Event P}
    (he : Enabled s e) : Reachable hash (next hash s e) := h.tail ⟨e, he, rfl⟩

def oneEnter (hash : P → String → ℤ) (p : P) (ritmId : String) : State P :=
  next hash (next hash (initial P) (.enter 0 p ritmId)) (.tryLock 0)

def bothEnter (hash : P → String → ℤ) (p q : P) (ritmId : String) : State P :=
  next hash (next hash (oneEnter hash p ritmId) (.enter 1 q ritmId)) (.tryLock 1)

theorem bothEnter_reachable (hash : P → String → ℤ) (p q : P) (ritmId : String) :
    Reachable hash (bothEnter hash p q ritmId) := by
  have h₀ : Reachable hash (initial P) := .refl
  have h₁ : Reachable hash (next hash (initial P) (.enter 0 p ritmId)) := h₀.extend rfl
  have h₂ : Reachable hash (oneEnter hash p ritmId) :=
    h₁.extend ⟨⟨p, ritmId, .attempt⟩, by simp [next], rfl⟩
  have hfree : (oneEnter hash p ritmId).call 1 = none := by
    simp [oneEnter, next, initial, setPhase]
  have h₃ : Reachable hash (next hash (oneEnter hash p ritmId) (.enter 1 q ritmId)) :=
    h₂.extend hfree
  exact h₃.extend ⟨⟨q, ritmId, .attempt⟩, by simp [next], rfl⟩

theorem bothEnter_inside {hash : P → String → ℤ} {p q : P} {ritmId : String}
    (h : lockKey hash p ritmId ≠ lockKey hash q ritmId) :
    Inside (bothEnter hash p q ritmId) 0 ritmId ∧ Inside (bothEnter hash p q ritmId) 1 ritmId := by
  constructor
  · refine ⟨⟨p, ritmId, .inside⟩, ?_, rfl, rfl⟩
    simp [bothEnter, oneEnter, next, initial, setPhase, Ne.symm h]
  · refine ⟨⟨q, ritmId, .inside⟩, ?_, rfl, rfl⟩
    simp [bothEnter, oneEnter, next, initial, setPhase, Ne.symm h]

/-- At most one call is ever inside the wave loop of a RITM exactly when all processes
derive one key from its id. -/
theorem exclusive_iff_same_key (hash : P → String → ℤ) (ritmId : String) :
    (∀ s, Reachable hash s → Exclusive s ritmId) ↔
      ∀ p q, lockKey hash p ritmId = lockKey hash q ritmId := by
  constructor
  · intro h p q
    by_contra hne
    obtain ⟨h₀, h₁⟩ := bothEnter_inside hne
    have := h _ (bothEnter_reachable hash p q ritmId) 0 1 h₀ h₁
    cases this
  · rintro h s hs i j ⟨c, hc, hcr, hci⟩ ⟨d, hd, hdr, hdi⟩
    have hi := reachable_holdsKey hs i c hc hci
    have hj := reachable_holdsKey hs j d hd hdi
    rw [hcr, h c.proc d.proc] at hi
    rw [hdr, hi] at hj
    exact Option.some.inj hj

/-- CPython 3.11's `hash("RITM0000000001")` under `PYTHONHASHSEED=1` and `=2`. -/
def seededHash (second : Bool) (_ : String) : ℤ :=
  if second then -3913937332238404914 else -4326963344960670306

theorem seeded_workers_overlap :
    Reachable seededHash (bothEnter seededHash false true "RITM0000000001") ∧
    ¬ Exclusive (bothEnter seededHash false true "RITM0000000001") "RITM0000000001" := by
  refine ⟨bothEnter_reachable .., ?_⟩
  have hne : lockKey seededHash false "RITM0000000001" ≠
      lockKey seededHash true "RITM0000000001" := by
    decide
  obtain ⟨h₀, h₁⟩ := bothEnter_inside hne
  intro hex
  have := hex 0 1 h₀ h₁
  cases this

end FulfillmentAdvisoryLock
