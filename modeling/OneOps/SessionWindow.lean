import OneOps.SessionStore
import OneOps.ListSplit
import Mathlib.Logic.Function.Basic

/-! Appends and reads of one session that run side by side. Each backend call is one step:
an append logs its event and later pushes it, unless it crashes in between; a read that
finds no window reads the log and later writes the rebuilt window. -/
namespace SessionWindow

open SessionStore
open ListSplit

variable {ε : Type*}

/-- A `recent()` call: it found no window, it holds what it read from the log, or it is done. -/
inductive Reader (ε : Type*) where
  | idle
  | missed
  | holding (full : List ε)
  | returned (window : List ε)
  deriving DecidableEq

structure State (ε : Type*) where
  cold : List ε
  hot : Option (List ε)
  appending : List ℕ
  readers : ℕ → Reader ε

inductive Action (ε : Type*) where
  | coldAppend (e : ε)
  | hotPush (p : ℕ)
  | crash (p : ℕ)
  | hotWindow (r : ℕ)
  | coldRead (r : ℕ)
  | hotReplace (r : ℕ)
  | expire

def setReader (s : State ε) (r : ℕ) (x : Reader ε) : State ε :=
  { s with readers := Function.update s.readers r x }

def step (P : RetentionPolicy) (s : State ε) : Action ε → Option (State ε)
  | .coldAppend e =>
    some { s with cold := s.cold ++ [e], appending := s.appending ++ [s.cold.length] }
  | .hotPush p =>
    if p ∈ s.appending then
      s.cold[p]?.map fun e => { s with hot := push P s.hot e, appending := s.appending.erase p }
    else none
  | .crash p => if p ∈ s.appending then some { s with appending := s.appending.erase p } else none
  | .hotWindow r =>
    match s.readers r with
    | .idle => some (setReader s r (s.hot.elim .missed .returned))
    | _ => none
  | .coldRead r =>
    match s.readers r with
    | .missed => some (setReader s r (.holding s.cold))
    | _ => none
  | .hotReplace r =>
    match s.readers r with
    | .holding full =>
      let window := full.rtake P.hotWindowEvents
      some (setReader { s with hot := replace P window } r (.returned window))
    | _ => none
  | .expire => some { s with hot := none }

def run (P : RetentionPolicy) (s : State ε) (acts : List (Action ε)) : Option (State ε) :=
  acts.foldlM (step P) s

def start : State ε := ⟨[], none, [], fun _ => .idle⟩

inductive Move (P : RetentionPolicy) (s : State ε) : Action ε → State ε → Prop where
  | coldAppend (e : ε) : Move P s (.coldAppend e)
      { s with cold := s.cold ++ [e], appending := s.appending ++ [s.cold.length] }
  | hotPush {p : ℕ} {e : ε} (he : s.cold[p]? = some e) : Move P s (.hotPush p)
      { s with hot := push P s.hot e, appending := s.appending.erase p }
  | crash (p : ℕ) : Move P s (.crash p) { s with appending := s.appending.erase p }
  | hotWindow {r : ℕ} (hr : s.readers r = .idle) : Move P s (.hotWindow r)
      (setReader s r (s.hot.elim .missed .returned))
  | coldRead {r : ℕ} (hr : s.readers r = .missed) : Move P s (.coldRead r)
      (setReader s r (.holding s.cold))
  | hotReplace {r : ℕ} {full : List ε} (hr : s.readers r = .holding full) :
      Move P s (.hotReplace r)
        (setReader { s with hot := replace P (full.rtake P.hotWindowEvents) } r
          (.returned (full.rtake P.hotWindowEvents)))
  | expire : Move P s .expire { s with hot := none }

theorem step_move {P : RetentionPolicy} {s s' : State ε} {a : Action ε}
    (h : step P s a = some s') : Move P s a s' := by
  cases a with
  | coldAppend e =>
    cases h
    exact .coldAppend e
  | hotPush p =>
    by_cases hp : p ∈ s.appending
    · rw [step, if_pos hp] at h
      obtain ⟨e, he, rfl⟩ := Option.map_eq_some_iff.mp h
      exact .hotPush he
    · rw [step, if_neg hp] at h
      cases h
  | crash p =>
    by_cases hp : p ∈ s.appending
    · rw [step, if_pos hp] at h
      cases h
      exact .crash p
    · rw [step, if_neg hp] at h
      cases h
  | hotWindow r =>
    simp only [step] at h
    split at h
    · cases h
      exact .hotWindow ‹_›
    · cases h
  | coldRead r =>
    simp only [step] at h
    split at h
    · cases h
      exact .coldRead ‹_›
    · cases h
  | hotReplace r =>
    simp only [step] at h
    split at h
    · cases h
      exact .hotReplace ‹_›
    · cases h
  | expire =>
    cases h
    exact .expire

/-- The window holds the newest of the first `m` events, and the others wait for their push. -/
structure EndsAt (P : RetentionPolicy) (s : State ε) (w : List ε) (m : ℕ) : Prop where
  window : w = (s.cold.take m).rtake P.hotWindowEvents
  awaited : ∀ q, m ≤ q → q < s.cold.length → q ∈ s.appending

/-- A push finds no window or one that ends just before its event; a crash finds no window
or one that has the event; a rebuild has every event but those that wait for their push. -/
def Orderly (P : RetentionPolicy) (s : State ε) : Action ε → Prop
  | .hotPush p => ∀ w, s.hot = some w → EndsAt P s w p
  | .crash p => ∀ w, s.hot = some w → ∃ m, p < m ∧ EndsAt P s w m
  | .hotReplace r => ∀ full, s.readers r = .holding full →
      ∀ q, full.length ≤ q → q < s.cold.length → q ∈ s.appending
  | _ => True

def OrderlyRun (P : RetentionPolicy) (acts : List (Action ε)) : Prop :=
  AtEach (fun before a => ∀ s, run P start before = some s → Orderly P s a) acts

structure Inv (P : RetentionPolicy) (s : State ε) : Prop where
  window : ∀ w, s.hot = some w → ∃ m, EndsAt P s w m
  held : ∀ r full, s.readers r = .holding full → full <+: s.cold

section Steps

variable {P : RetentionPolicy} {s s' : State ε}

theorem inv_start : Inv P (start : State ε) where
  window _ h := (by cases h)
  held _ _ h := (by cases h)

theorem held_update {r : ℕ} {x : Reader ε} {cold : List ε} {readers : ℕ → Reader ε}
    (h : ∀ r full, readers r = .holding full → full <+: cold)
    (hx : ∀ full, x = .holding full → full <+: cold) :
    ∀ r' full, Function.update readers r x r' = .holding full → full <+: cold := by
  intro r' full hr
  by_cases he : r' = r
  · subst he
    rw [Function.update_self] at hr
    exact hx full hr
  · rw [Function.update_of_ne he] at hr
    exact h r' full hr

theorem Inv.coldAppend (h : Inv P s) (e : ε) :
    Inv P { s with cold := s.cold ++ [e], appending := s.appending ++ [s.cold.length] } := by
  constructor
  · intro w hw
    obtain ⟨m, hm⟩ := h.window w hw
    refine ⟨min m s.cold.length, ?_, ?_⟩
    · rw [hm.window, List.take_append_of_le_length (Nat.min_le_right _ _), ← List.take_take,
        List.take_length]
    · intro q hq hlt
      simp only [List.length_append, List.length_singleton] at hlt
      by_cases hq' : q = s.cold.length
      · simp [hq']
      · exact List.mem_append_left _ (hm.awaited q (by omega) (by omega))
  · intro r full hr
    exact (h.held r full hr).trans (List.prefix_append _ _)

/-- What waits beyond `m` still waits when an earlier append is over. -/
theorem EndsAt.erase {w : List ε} {m p : ℕ} (h : EndsAt P s w m) (hp : p < m) :
    EndsAt P { s with appending := s.appending.erase p } w m where
  window := h.window
  awaited q hq hlt := (List.mem_erase_of_ne (by omega)).mpr (h.awaited q hq hlt)

theorem Inv.hotPush (h : Inv P s) {p : ℕ} {e : ε} (ho : Orderly P s (.hotPush p))
    (he : s.cold[p]? = some e) :
    Inv P { s with hot := push P s.hot e, appending := s.appending.erase p } := by
  obtain ⟨hlt, rfl⟩ := List.getElem?_eq_some_iff.mp he
  constructor
  · intro w' hw'
    obtain ⟨w, hw, rfl⟩ := Option.map_eq_some_iff.mp hw'
    have hend := ho w hw
    refine ⟨p + 1, ?_, ?_⟩
    · rw [hend.window, rtake_append_singleton _ _ P.pos, List.take_append_getElem hlt]
    · intro q hq hql
      exact (List.mem_erase_of_ne (by omega)).mpr (hend.awaited q (by omega) hql)
  · exact h.held

theorem Inv.crash (h : Inv P s) {p : ℕ} (ho : Orderly P s (.crash p)) :
    Inv P { s with appending := s.appending.erase p } := by
  constructor
  · intro w hw
    obtain ⟨m, hm, hend⟩ := ho w hw
    exact ⟨m, hend.erase hm⟩
  · exact h.held

theorem Inv.setReader (h : Inv P s) {r : ℕ} {x : Reader ε}
    (hx : ∀ full, x = .holding full → full <+: s.cold) : Inv P (setReader s r x) where
  window w hw := by
    obtain ⟨m, hm⟩ := h.window w hw
    exact ⟨m, hm.window, hm.awaited⟩
  held := held_update h.held hx

theorem Inv.hotReplace (h : Inv P s) {r : ℕ} {full : List ε} (ho : Orderly P s (.hotReplace r))
    (hr : s.readers r = .holding full) :
    Inv P { s with hot := replace P (full.rtake P.hotWindowEvents) } where
  window w hw := by
    obtain ⟨rest, hfull⟩ := h.held r full hr
    refine ⟨full.length, ?_, ho full hr⟩
    rw [replace_eq_some hw, ← hfull, List.take_left]
  held := h.held

theorem Inv.step (h : Inv P s) {a : Action ε} (ho : Orderly P s a) (hs : step P s a = some s') :
    Inv P s' := by
  cases step_move hs with
  | coldAppend e => exact h.coldAppend e
  | hotPush he => exact h.hotPush ho he
  | crash p => exact h.crash ho
  | hotWindow hr =>
    apply h.setReader
    intro full hf
    cases hh : s.hot <;> simp [hh] at hf
  | coldRead hr =>
    apply h.setReader
    intro full hf
    cases hf
    exact List.prefix_rfl
  | hotReplace hr =>
    apply (h.hotReplace ho hr).setReader
    intro _ hf
    cases hf
  | expire => exact ⟨fun _ hw => (by cases hw), h.held⟩

theorem run_snoc {acts : List (Action ε)} {a : Action ε} :
    run P s (acts ++ [a]) = (run P s acts).bind fun m => step P m a := by
  simp only [run, List.foldlM_append, List.foldlM_cons, List.foldlM_nil]
  cases acts.foldlM (SessionWindow.step P) s with
  | none => rfl
  | some m =>
    change (SessionWindow.step P m a).bind some = SessionWindow.step P m a
    simp

theorem inv_run {acts : List (Action ε)} :
    ∀ {s : State ε}, OrderlyRun P acts → run P start acts = some s → Inv P s := by
  induction acts using List.reverseRecOn with
  | nil =>
    intro s _ hr
    cases hr
    exact inv_start
  | append_singleton acts a ih =>
    intro s ho hr
    obtain ⟨ho, ha⟩ := atEach_snoc.mp ho
    rw [run_snoc] at hr
    obtain ⟨m, hm, hstep⟩ := Option.bind_eq_some_iff.mp hr
    exact (ih ho hm).step (ha m hm) hstep

theorem Inv.quiet (h : Inv P s) (hq : s.appending = []) {w : List ε} (hw : s.hot = some w) :
    w = s.cold.rtake P.hotWindowEvents := by
  obtain ⟨m, hm⟩ := h.window w hw
  have hlen : s.cold.length ≤ m := by
    by_contra hlt
    have := hm.awaited m le_rfl (Nat.lt_of_not_le hlt)
    rw [hq] at this
    cases this
  rw [hm.window, List.take_of_length_le hlen]

inductive Serving (P : RetentionPolicy) (cold : List ε) : Reader ε → Prop where
  | missed : Serving P cold .missed
  | holding : Serving P cold (.holding cold)
  | returned : Serving P cold (.returned (cold.rtake P.hotWindowEvents))

theorem Serving.update {cold : List ε} {readers : ℕ → Reader ε} {r k : ℕ} {x : Reader ε}
    (h : Serving P cold (readers r)) (hx : k = r → Serving P cold x) :
    Serving P cold (Function.update readers k x r) := by
  by_cases he : r = k
  · subst he
    rw [Function.update_self]
    exact hx rfl
  · rwa [Function.update_of_ne he]

/-- Other reads and the window itself do not matter to a read that missed. -/
theorem serving_step {a : Action ε} {r : ℕ} (ha : ∀ e, a ≠ .coldAppend e)
    (h : Serving P s.cold (s.readers r)) (hs : step P s a = some s') :
    s'.cold = s.cold ∧ Serving P s'.cold (s'.readers r) := by
  cases step_move hs with
  | coldAppend e => exact absurd rfl (ha e)
  | hotPush | crash | expire => exact ⟨rfl, h⟩
  | hotWindow hr =>
    refine ⟨rfl, h.update ?_⟩
    rintro rfl
    rw [hr] at h
    cases h
  | coldRead hr => exact ⟨rfl, h.update fun _ => .holding⟩
  | hotReplace hr =>
    refine ⟨rfl, h.update ?_⟩
    rintro rfl
    rw [hr] at h
    cases h
    exact .returned

theorem serving_run {r : ℕ} {acts : List (Action ε)} :
    ∀ {s s' : State ε}, (∀ e, .coldAppend e ∉ acts) → Serving P s.cold (s.readers r) →
      run P s acts = some s' → Serving P s'.cold (s'.readers r) := by
  induction acts with
  | nil =>
    intro s s' _ h hr
    cases hr
    exact h
  | cons a acts ih =>
    intro s s' ha h hr
    rw [run, List.foldlM_cons] at hr
    obtain ⟨m, hm, hr⟩ := Option.bind_eq_some_iff.mp hr
    have hne : ∀ e, a ≠ .coldAppend e := fun e he => ha e (by simp [he])
    exact ih (fun e he => ha e (List.mem_cons_of_mem _ he)) (serving_step hne h hm).2 hr

end Steps

/-- In every orderly run, a read that starts when all appends have finished or crashed
returns exactly the newest events of the log, and is never stuck on the way. -/
theorem recent_returns_newest (P : RetentionPolicy) (acts : List (Action ε)) (m : State ε)
    (ho : OrderlyRun P acts) (hm : run P start acts = some m) (hq : m.appending = [])
    (r : ℕ) (later : List (Action ε)) (s : State ε) (hl : ∀ e, .coldAppend e ∉ later)
    (hs : run P m (.hotWindow r :: later) = some s) :
    s.readers r = .returned (s.cold.rtake P.hotWindowEvents) ∨
      (s.readers r = .missed ∧ (step P s (.coldRead r)).isSome) ∨
      (s.readers r = .holding s.cold ∧ (step P s (.hotReplace r)).isSome) := by
  rw [run, List.foldlM_cons] at hs
  obtain ⟨k, hk, hs⟩ := Option.bind_eq_some_iff.mp hs
  have hserving : Serving P k.cold (k.readers r) := by
    cases step_move hk with
    | hotWindow hr =>
      simp only [setReader, Function.update_self]
      cases hh : m.hot with
      | none => exact .missed
      | some w =>
        rw [(inv_run ho hm).quiet hq hh]
        exact .returned
  generalize hx : s.readers r = x
  have hfinal := serving_run hl hserving hs
  rw [hx] at hfinal
  cases hfinal with
  | missed => exact .inr (.inl ⟨rfl, by simp [step, hx]⟩)
  | holding => exact .inr (.inr ⟨rfl, by simp [step, hx]⟩)
  | returned => exact .inl rfl

theorem OrderlyRun.snoc {P : RetentionPolicy} {acts : List (Action ε)} {a : Action ε} {m : State ε}
    (h : OrderlyRun P acts) (hm : run P start acts = some m) (ha : Orderly P m a) :
    OrderlyRun P (acts ++ [a]) := by
  refine atEach_snoc.mpr ⟨h, ?_⟩
  intro s hs
  rw [hm] at hs
  cases hs
  exact ha

def windowOfForty : RetentionPolicy := { defaultPolicy with kind := .dragonfly }

def firstRead : List (Action String) :=
  [.coldAppend "a"] ++ [.hotPush 0] ++ [.hotWindow 0] ++ [.coldRead 0] ++ [.hotReplace 0]

theorem firstRead_orderly : OrderlyRun windowOfForty firstRead := by
  have h₁ : OrderlyRun windowOfForty ([] ++ [Action.coldAppend "a"]) :=
    OrderlyRun.snoc atEach_nil rfl trivial
  have h₂ := h₁.snoc (a := .hotPush 0) rfl fun w hw => (by cases hw)
  have h₃ := (h₂.snoc (a := .hotWindow 0) rfl trivial).snoc (a := .coldRead 0) rfl trivial
  refine h₃.snoc rfl ?_
  intro full hf q hq hlt
  cases hf
  exact absurd hlt (Nat.not_lt.mpr hq)

theorem recent_returns_newest_cached : OrderlyRun windowOfForty firstRead ∧
    ∃ m s, run windowOfForty start firstRead = some m ∧ m.appending = [] ∧
      run windowOfForty m [.hotWindow 1] = some s ∧
      (s.readers 1 = .returned (s.cold.rtake windowOfForty.hotWindowEvents) ∨
        (s.readers 1 = .missed ∧ (step windowOfForty s (.coldRead 1)).isSome) ∨
        (s.readers 1 = .holding s.cold ∧ (step windowOfForty s (.hotReplace 1)).isSome)) :=
  ⟨firstRead_orderly, _, _, rfl, rfl, rfl,
    recent_returns_newest windowOfForty firstRead _ firstRead_orderly rfl rfl 1 [] _ (by simp) rfl⟩

/-- An append crashes before its push: the next read is served the old window. -/
theorem crashed_append_hidden :
    ∃ m s, run windowOfForty start (firstRead ++ [.coldAppend "b", .crash 1]) = some m ∧
      m.appending = [] ∧ run windowOfForty m [.hotWindow 1] = some s ∧
      s.readers 1 = .returned ["a"] ∧ s.cold.rtake windowOfForty.hotWindowEvents = ["a", "b"] :=
  ⟨_, _, rfl, rfl, rfl, rfl, rfl⟩

end SessionWindow
