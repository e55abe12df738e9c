import Mathlib.Data.List.DropRight

/-! The conversation history of one session: an append-only cold log, and a hot window that
caches its newest events. An append writes the log first and then extends the window if
there is one; a read serves the window, or rebuilds it from the log. -/
namespace SessionStore

inductive HotWindowKind where
  | inMemory | dragonfly
  deriving DecidableEq, Repr

/-- A push below one event is refused, so a working policy has a positive window. -/
structure RetentionPolicy where
  kind : HotWindowKind
  hotWindowEvents : ℕ
  pos : 0 < hotWindowEvents

def defaultPolicy : RetentionPolicy := ⟨.inMemory, 40, by decide⟩

variable {ε : Type*}

structure Session (ε : Type*) where
  cold : List ε
  hot : Option (List ε)

def push (P : RetentionPolicy) (hot : Option (List ε)) (e : ε) : Option (List ε) :=
  hot.map fun win => (win ++ [e]).rtake P.hotWindowEvents

/-- An empty window is cached in memory; in Dragonfly its key is absent. -/
def replace (P : RetentionPolicy) (events : List ε) : Option (List ε) :=
  match P.kind with
  | .inMemory => some events
  | .dragonfly => if events.isEmpty then none else some events

def append (P : RetentionPolicy) (s : Session ε) (e : ε) : Session ε :=
  ⟨s.cold ++ [e], push P s.hot e⟩

def recent (P : RetentionPolicy) (s : Session ε) : List ε × Session ε :=
  match s.hot with
  | some cached => (cached, s)
  | none =>
    let window := s.cold.rtake P.hotWindowEvents
    (window, { s with hot := replace P window })

def evict (s : Session ε) : Session ε := { s with hot := none }

theorem rtake_rtake (l : List ε) (m n : ℕ) : (l.rtake m).rtake n = l.rtake (min n m) := by
  simp only [List.rtake_eq_reverse_take_reverse, List.reverse_reverse, List.take_take]

theorem length_rtake (l : List ε) (n : ℕ) : (l.rtake n).length = min n l.length := by
  rw [List.rtake_eq_reverse_take_reverse, List.length_reverse, List.length_take,
    List.length_reverse]

/-- Trimming before an append loses nothing that trimming after it keeps. -/
theorem rtake_append_singleton (l : List ε) (e : ε) {n : ℕ} (hn : 0 < n) :
    (l.rtake n ++ [e]).rtake n = (l ++ [e]).rtake n := by
  obtain ⟨k, rfl⟩ := Nat.exists_eq_add_of_lt hn
  rw [Nat.zero_add, List.rtake_concat_succ, List.rtake_concat_succ, rtake_rtake,
    Nat.min_eq_left (Nat.le_succ k)]

theorem replace_eq_some {P : RetentionPolicy} {events w : List ε} (h : replace P events = some w) :
    w = events := by
  unfold replace at h
  cases hk : P.kind with
  | inMemory =>
    rw [hk] at h
    exact (Option.some.inj h).symm
  | dragonfly =>
    simp only [hk] at h
    split at h
    · cases h
    · exact (Option.some.inj h).symm

def Coherent (P : RetentionPolicy) (s : Session ε) : Prop :=
  ∀ w, s.hot = some w → w = s.cold.rtake P.hotWindowEvents

section Client

variable {P : RetentionPolicy} {s : Session ε}

theorem Coherent.append (h : Coherent P s) (e : ε) : Coherent P (append P s e) := by
  intro w hw
  obtain ⟨win, hwin, rfl⟩ := Option.map_eq_some_iff.mp hw
  rw [h win hwin]
  exact rtake_append_singleton s.cold e P.pos

theorem evict_coherent (P : RetentionPolicy) (s : Session ε) : Coherent P (evict s) := by
  intro w hw
  cases hw

theorem recent_cold (P : RetentionPolicy) (s : Session ε) :
    (recent P s).2.cold = s.cold := by
  unfold recent
  cases s.hot <;> rfl

theorem Coherent.recent (h : Coherent P s) :
    (recent P s).1 = s.cold.rtake P.hotWindowEvents ∧ Coherent P (recent P s).2 := by
  unfold SessionStore.recent
  cases hh : s.hot with
  | some cached => exact ⟨h cached hh, h⟩
  | none =>
    refine ⟨rfl, ?_⟩
    intro w hw
    exact replace_eq_some hw

end Client

end SessionStore
