import Mathlib.Data.List.Basic
import Mathlib.Logic.Function.Basic
import Mathlib.Logic.Relation
import Mathlib.Tactic.Common

/-! Derived rows that are kept fresh through a queue. A change of the source rings a doorbell,
which enqueues a message with the key; workers claim messages, read the source again, write
the derived rows one statement at a time and acknowledge. A message that is not acknowledged
may be claimed again, by anyone. -/
namespace RefreshQueue

variable {κ σ ω ι : Type*}

/-- `rings` compares what a key had with what it gets; `program` is what a worker writes for a
content, on inputs of its own such as answers of a service. -/
structure Pipeline (σ ω ι : Type*) where
  rings : Option σ → σ → Bool
  program : ι → σ → List (ω → ω)
  blank : ω

structure Message (κ : Type*) where
  id : ℕ
  key : κ

inductive Worker (κ ω : Type*) where
  | idle
  | polled (todo : List (Message κ))
  | writing (m : Message κ) (left : List (ω → ω)) (todo : List (Message κ))

def Worker.holds : Worker κ ω → List (Message κ)
  | .idle => []
  | .polled todo => todo
  | .writing m _ todo => m :: todo

structure State (κ σ ω : Type*) where
  source : κ → Option σ
  derived : κ → ω
  queue : List (Message κ)
  nextId : ℕ
  workers : List (Worker κ ω)

def State.empty (P : Pipeline σ ω ι) : State κ σ ω := ⟨fun _ => none, fun _ => P.blank, [], 0, []⟩

inductive Work (ι : Type*) where
  | poll (ids : List ℕ)
  | fetch (input : ι)
  | write
  | ack
  | fail
  | crash

inductive Action (κ σ ι : Type*) where
  | put (k : κ) (c : σ)
  | delete (k : κ)
  | spawn
  | work (i : ℕ) (a : Work ι)

section

variable [DecidableEq κ]

def enqueue (s : State κ σ ω) (k : κ) : State κ σ ω :=
  { s with queue := s.queue ++ [⟨s.nextId, k⟩], nextId := s.nextId + 1 }

def plan (P : Pipeline σ ω ι) (input : ι) : Option σ → List (ω → ω)
  | none => []
  | some c => P.program input c

def work (P : Pipeline σ ω ι) (s : State κ σ ω) (a : Work ι) (w : Worker κ ω) :
    (κ → ω) × List (Message κ) × Worker κ ω :=
  match a, w with
  | .poll ids, .idle => (s.derived, s.queue, .polled (s.queue.filter fun m => m.id ∈ ids))
  | .fetch _, .polled [] => (s.derived, s.queue, .idle)
  | .fetch input, .polled (m :: todo) =>
    (s.derived, s.queue, .writing m (plan P input (s.source m.key)) todo)
  | .write, .writing m (f :: left) todo =>
    (Function.update s.derived m.key (f (s.derived m.key)), s.queue, .writing m left todo)
  | .ack, .writing m [] todo => (s.derived, s.queue.filter fun x => x.id ≠ m.id, .polled todo)
  | .fail, .polled (_ :: todo) => (s.derived, s.queue, .polled todo)
  | .fail, .writing _ _ todo => (s.derived, s.queue, .polled todo)
  | .crash, _ => (s.derived, s.queue, .idle)
  | _, w => (s.derived, s.queue, w)

def next (P : Pipeline σ ω ι) (s : State κ σ ω) : Action κ σ ι → State κ σ ω
  | .put k c =>
    let s' := { s with source := Function.update s.source k (some c) }
    if P.rings (s.source k) c then enqueue s' k else s'
  | .delete k =>
    { s with
      source := Function.update s.source k none
      derived := Function.update s.derived k P.blank }
  | .spawn => { s with workers := s.workers ++ [.idle] }
  | .work i a =>
    match s.workers[i]? with
    | none => s
    | some w =>
      { s with
        derived := (work P s a w).1
        queue := (work P s a w).2.1
        workers := s.workers.set i (work P s a w).2.2 }

end

/-- Worker `i` is between reading the source for `m` and acknowledging it. -/
def Busy (s : State κ σ ω) (i : ℕ) (m : Message κ) (left : List (ω → ω)) : Prop :=
  ∃ todo, s.workers[i]? = some (.writing m left todo)

def apply (left : List (ω → ω)) (r : ω) : ω := left.foldl (fun r f => f r) r

/-- What is asked of a pipeline: a whole program makes the rows fresh from any rows, one of its
statements does not spoil fresh rows, and a first content rings. -/
structure Lawful (P : Pipeline σ ω ι) (Fresh : σ → ω → Prop) : Prop where
  complete : ∀ input c r, Fresh c (apply (P.program input c) r)
  harmless : ∀ input c f r, f ∈ P.program input c → Fresh c r → Fresh c (f r)
  first : ∀ c, P.rings none c = true

/-- Two workers do not refresh one key at the same time, a key is not deleted while it is
refreshed, and a change that does not ring leaves the same rows fresh. -/
def Allowed (P : Pipeline σ ω ι) (Fresh : σ → ω → Prop) (s : State κ σ ω) :
    Action κ σ ι → Prop
  | .put k c => ∀ c₀, s.source k = some c₀ → P.rings (some c₀) c = false →
      ∀ r, Fresh c₀ r ↔ Fresh c r
  | .delete k => ∀ i m left, Busy s i m left → m.key ≠ k
  | .spawn => True
  | .work i (.fetch _) => ∀ m todo, s.workers[i]? = some (.polled (m :: todo)) →
      ∀ j m' left, Busy s j m' left → m'.key ≠ m.key
  | .work _ _ => True

def Waiting (s : State κ σ ω) (k : κ) : Prop :=
  ∃ m ∈ s.queue, m.key = k ∧ ∀ i m' left, Busy s i m' left → m'.id ≠ m.id

def Refreshing (Fresh : σ → ω → Prop) (s : State κ σ ω) (k : κ) (c : σ) : Prop :=
  ∃ i m left, Busy s i m left ∧ m.key = k ∧ m ∈ s.queue ∧ Fresh c (apply left (s.derived k))

def Resting (Fresh : σ → ω → Prop) (s : State κ σ ω) (k : κ) (c : σ) : Prop :=
  Fresh c (s.derived k) ∧ ∀ i m left, Busy s i m left → m.key = k →
    ∀ f ∈ left, ∀ r, Fresh c r → Fresh c (f r)

structure Inv (P : Pipeline σ ω ι) (Fresh : σ → ω → Prop) (s : State κ σ ω) : Prop where
  low : ∀ m ∈ s.queue, m.id < s.nextId
  lowHeld : ∀ w ∈ s.workers, ∀ m ∈ w.holds, m.id < s.nextId
  unique : ∀ m ∈ s.queue, ∀ m' ∈ s.queue, m.id = m'.id → m = m'
  agree : ∀ w ∈ s.workers, ∀ m ∈ w.holds, ∀ m' ∈ s.queue, m.id = m'.id → m = m'
  single : ∀ i j m m' left left', Busy s i m left → Busy s j m' left' → m.key = m'.key → i = j
  gone : ∀ k, s.source k = none → s.derived k = P.blank ∧
    ∀ i m left, Busy s i m left → m.key = k → left = []
  kept : ∀ k c, s.source k = some c →
    Waiting s k ∨ Refreshing Fresh s k c ∨ Resting Fresh s k c

section

variable {P : Pipeline σ ω ι} {Fresh : σ → ω → Prop} {s : State κ σ ω}

theorem Busy.mem {i : ℕ} {m : Message κ} {left : List (ω → ω)} (h : Busy s i m left) :
    ∃ w ∈ s.workers, m ∈ w.holds := by
  obtain ⟨todo, h⟩ := h
  exact ⟨_, List.mem_of_getElem? h, List.mem_cons_self⟩

theorem Busy.det {i : ℕ} {m m' : Message κ} {left left' : List (ω → ω)} (h : Busy s i m left)
    (h' : Busy s i m' left') : m = m' ∧ left = left' := by
  obtain ⟨todo, h⟩ := h
  obtain ⟨todo', h'⟩ := h'
  rw [h] at h'
  simp only [Option.some.injEq, Worker.writing.injEq] at h'
  exact ⟨h'.1, h'.2.1⟩

theorem Inv.busy_eq (h : Inv P Fresh s) {i : ℕ} {m m' : Message κ} {left : List (ω → ω)}
    (hb : Busy s i m left) (hm : m' ∈ s.queue) (hid : m.id = m'.id) : m = m' := by
  obtain ⟨w, hw, hin⟩ := hb.mem
  exact h.agree w hw m hin m' hm hid

theorem Inv.fresh (h : Inv P Fresh s) {k : κ} {c : σ} (hc : s.source k = some c)
    (hq : ∀ m ∈ s.queue, m.key ≠ k) : Fresh c (s.derived k) := by
  rcases h.kept k c hc with ⟨m, hm, hk, -⟩ | ⟨i, m, left, -, hk, hm, -⟩ | ⟨hf, -⟩
  · exact absurd hk (hq m hm)
  · exact absurd hk (hq m hm)
  · exact hf

def turn (s : State κ σ ω) (i : ℕ) (d : κ → ω) (q : List (Message κ)) (w : Worker κ ω) :
    State κ σ ω :=
  { s with derived := d, queue := q, workers := s.workers.set i w }

variable {i : ℕ} {w w' : Worker κ ω} {d : κ → ω} {q : List (Message κ)}

theorem busy_turn (hw : s.workers[i]? = some w) {j : ℕ} {m : Message κ} {left : List (ω → ω)} :
    Busy (turn s i d q w') j m left ↔
      (j = i ∧ ∃ todo, w' = .writing m left todo) ∨ (j ≠ i ∧ Busy s j m left) := by
  have hlt := (List.getElem?_eq_some_iff.mp hw).1
  unfold Busy turn
  by_cases hj : j = i
  · subst hj
    simp [List.getElem?_set_self hlt]
  · simp [List.getElem?_set_ne (Ne.symm hj), hj]

structure Messages (P : Pipeline σ ω ι) (Fresh : σ → ω → Prop) (s s' : State κ σ ω) : Prop where
  low : ∀ m ∈ s'.queue, m.id < s'.nextId
  lowHeld : ∀ w ∈ s'.workers, ∀ m ∈ w.holds, m.id < s'.nextId
  unique : ∀ m ∈ s'.queue, ∀ m' ∈ s'.queue, m.id = m'.id → m = m'
  agree : ∀ w ∈ s'.workers, ∀ m ∈ w.holds, ∀ m' ∈ s'.queue, m.id = m'.id → m = m'

theorem Inv.messages (h : Inv P Fresh s) (hw : w ∈ s.workers) (hq : ∀ m ∈ q, m ∈ s.queue)
    (hheld : ∀ m ∈ w'.holds, m ∈ w.holds ∨ m ∈ s.queue) :
    Messages P Fresh s (turn s i d q w') := by
  refine ⟨fun m hm => h.low m (hq m hm), fun x hx m hm => ?_,
    fun m hm m' hm' => h.unique m (hq m hm) m' (hq m' hm'), fun x hx m hm m' hm' hid => ?_⟩
  · rcases List.mem_or_eq_of_mem_set hx with hx | rfl
    · exact h.lowHeld x hx m hm
    · rcases hheld m hm with hm | hm
      · exact h.lowHeld w hw m hm
      · exact h.low m hm
  · rcases List.mem_or_eq_of_mem_set hx with hx | rfl
    · exact h.agree x hx m hm m' (hq m' hm') hid
    · rcases hheld m hm with hm | hm
      · exact h.agree w hw m hm m' (hq m' hm') hid
      · exact h.unique m hm m' (hq m' hm') hid

/-- A turn that neither ends nor begins a refresh and keeps rows and queue. -/
theorem Inv.quiet (h : Inv P Fresh s) (hw : s.workers[i]? = some w)
    (hno : ∀ m left todo, w ≠ .writing m left todo)
    (hno' : ∀ m left todo, w' ≠ .writing m left todo)
    (hheld : ∀ m ∈ w'.holds, m ∈ w.holds ∨ m ∈ s.queue) :
    Inv P Fresh (turn s i s.derived s.queue w') := by
  have hbusy {j : ℕ} {m : Message κ} {left : List (ω → ω)} :
      Busy (turn s i s.derived s.queue w') j m left ↔ Busy s j m left := by
    rw [busy_turn hw]
    constructor
    · rintro (⟨-, todo, hw'⟩ | ⟨-, hb⟩)
      · exact absurd hw' (hno' m left todo)
      · exact hb
    · intro hb
      refine .inr ⟨?_, hb⟩
      rintro rfl
      obtain ⟨todo, hb⟩ := hb
      exact hno m left todo (Option.some.inj (hw.symm.trans hb))
  have hm := h.messages (i := i) (d := s.derived) (List.mem_of_getElem? hw) (fun m hm => hm) hheld
  refine ⟨hm.low, hm.lowHeld, hm.unique, hm.agree, fun j j' m m' l l' hb hb' => ?_,
    fun k hk => ?_, fun k c hc => ?_⟩
  · exact h.single j j' m m' l l' (hbusy.mp hb) (hbusy.mp hb')
  · obtain ⟨hd, hl⟩ := h.gone k hk
    exact ⟨hd, fun j m l hb => hl j m l (hbusy.mp hb)⟩
  · rcases h.kept k c hc with ⟨m, hm, hk, hn⟩ | ⟨j, m, l, hb, hk, hm, hf⟩ | ⟨hf, hn⟩
    · exact .inl ⟨m, hm, hk, fun j m' l hb => hn j m' l (hbusy.mp hb)⟩
    · exact .inr (.inl ⟨j, m, l, hbusy.mpr hb, hk, hm, hf⟩)
    · exact .inr (.inr ⟨hf, fun j m l hb => hn j m l (hbusy.mp hb)⟩)

/-- A worker reads the source for a message. -/
theorem Inv.fetched (h : Inv P Fresh s) {m : Message κ} {todo : List (Message κ)}
    (hw : s.workers[i]? = some (.polled (m :: todo)))
    (halone : ∀ j m' left, Busy s j m' left → m'.key ≠ m.key) {left : List (ω → ω)}
    (hnone : s.source m.key = none → left = [])
    (hsome : ∀ c, s.source m.key = some c → (∀ r, Fresh c (apply left r)) ∧
      ∀ f ∈ left, ∀ r, Fresh c r → Fresh c (f r)) :
    Inv P Fresh (turn s i s.derived s.queue (.writing m left todo)) := by
  have hbusy {j : ℕ} {m' : Message κ} {l : List (ω → ω)} :
      Busy (turn s i s.derived s.queue (.writing m left todo)) j m' l ↔
        (j = i ∧ m' = m ∧ l = left) ∨ (j ≠ i ∧ Busy s j m' l) := by
    rw [busy_turn hw]
    simp [eq_comm]
  have hm : Messages P Fresh s (turn s i s.derived s.queue (.writing m left todo)) :=
    h.messages (List.mem_of_getElem? hw) (fun m hm => hm) (fun x hx => .inl hx)
  refine ⟨hm.low, hm.lowHeld, hm.unique, hm.agree, fun j j' m₁ m₂ l₁ l₂ hb hb' hk => ?_,
    fun k hk => ?_, fun k c hc => ?_⟩
  · rcases hbusy.mp hb with ⟨rfl, rfl, rfl⟩ | ⟨-, hold⟩
    · rcases hbusy.mp hb' with ⟨rfl, rfl, rfl⟩ | ⟨-, hold'⟩
      · rfl
      · exact absurd hk.symm (halone j' m₂ l₂ hold')
    · rcases hbusy.mp hb' with ⟨rfl, rfl, rfl⟩ | ⟨-, hold'⟩
      · exact absurd hk (halone j m₁ l₁ hold)
      · exact h.single j j' m₁ m₂ l₁ l₂ hold hold' hk
  · obtain ⟨hd, hl⟩ := h.gone k hk
    refine ⟨hd, fun j m' l hb hk' => ?_⟩
    rcases hbusy.mp hb with ⟨rfl, rfl, rfl⟩ | ⟨-, hb⟩
    · subst hk'
      exact hnone hk
    · exact hl j m' l hb hk'
  · by_cases hmk : m.key = k
    · subst hmk
      obtain ⟨hfresh, hharm⟩ := hsome c hc
      by_cases hin : m ∈ s.queue
      · exact .inr (.inl ⟨i, m, left, hbusy.mpr (.inl ⟨rfl, rfl, rfl⟩), rfl, hin, hfresh _⟩)
      · rcases h.kept m.key c hc with ⟨m', hm', hk', hn⟩ | ⟨j, m', l, hb, hk', -⟩ | ⟨hf, hn⟩
        · refine .inl ⟨m', hm', hk', fun j x l hb => ?_⟩
          rcases hbusy.mp hb with ⟨rfl, rfl, rfl⟩ | ⟨-, hb⟩
          · intro hid
            have heq := h.agree _ (List.mem_of_getElem? hw) x List.mem_cons_self m' hm' hid
            exact hin (heq ▸ hm')
          · exact hn j x l hb
        · exact absurd hk' (halone j m' l hb)
        · refine .inr (.inr ⟨hf, fun j x l hb hk' => ?_⟩)
          rcases hbusy.mp hb with ⟨rfl, rfl, rfl⟩ | ⟨-, hb⟩
          · exact hharm
          · exact hn j x l hb hk'
    · have hne {j : ℕ} {m' : Message κ} {l : List (ω → ω)} (hb : Busy s j m' l) : j ≠ i := by
        rintro rfl
        obtain ⟨t, hb⟩ := hb
        rw [hw] at hb
        simp at hb
      rcases h.kept k c hc with ⟨m', hm', hk', hn⟩ | ⟨j, m', l, hb, hk', hin, hf⟩ | ⟨hf, hn⟩
      · refine .inl ⟨m', hm', hk', fun j x l hb => ?_⟩
        rcases hbusy.mp hb with ⟨rfl, rfl, rfl⟩ | ⟨-, hb⟩
        · intro hid
          have heq := h.agree _ (List.mem_of_getElem? hw) x List.mem_cons_self m' hm' hid
          exact hmk (heq ▸ hk')
        · exact hn j x l hb
      · exact .inr (.inl ⟨j, m', l, hbusy.mpr (.inr ⟨hne hb, hb⟩), hk', hin, hf⟩)
      · refine .inr (.inr ⟨hf, fun j x l hb hk' => ?_⟩)
        rcases hbusy.mp hb with ⟨rfl, rfl, rfl⟩ | ⟨-, hb⟩
        · exact absurd hk' hmk
        · exact hn j x l hb hk'

theorem Inv.wrote [DecidableEq κ] (h : Inv P Fresh s) {m : Message κ} {f : ω → ω}
    {left : List (ω → ω)} {todo : List (Message κ)}
    (hw : s.workers[i]? = some (.writing m (f :: left) todo)) :
    Inv P Fresh (turn s i (Function.update s.derived m.key (f (s.derived m.key))) s.queue
      (.writing m left todo)) := by
  have hown : Busy s i m (f :: left) := ⟨todo, hw⟩
  have hbusy {j : ℕ} {m' : Message κ} {l : List (ω → ω)} :
      Busy (turn s i (Function.update s.derived m.key (f (s.derived m.key))) s.queue
        (.writing m left todo)) j m' l ↔
        (j = i ∧ m' = m ∧ l = left) ∨ (j ≠ i ∧ Busy s j m' l) := by
    rw [busy_turn hw]
    simp [eq_comm]
  -- whoever was busy with a message still is
  have hback {j : ℕ} {m' : Message κ} {l : List (ω → ω)}
      (hb : Busy (turn s i (Function.update s.derived m.key (f (s.derived m.key))) s.queue
        (.writing m left todo)) j m' l) : ∃ l', Busy s j m' l' ∧ ∀ x ∈ l, x ∈ l' := by
    rcases hbusy.mp hb with ⟨rfl, rfl, rfl⟩ | ⟨-, hold⟩
    · exact ⟨_, hown, fun x hx => List.mem_cons_of_mem f hx⟩
    · exact ⟨l, hold, fun x hx => hx⟩
  have hm : Messages P Fresh s (turn s i (Function.update s.derived m.key (f (s.derived m.key)))
      s.queue (.writing m left todo)) :=
    h.messages (List.mem_of_getElem? hw) (fun m hm => hm) (fun x hx => .inl hx)
  refine ⟨hm.low, hm.lowHeld, hm.unique, hm.agree, fun j j' m₁ m₂ l₁ l₂ hb hb' hk => ?_,
    fun k hk => ?_, fun k c hc => ?_⟩
  · obtain ⟨l₁', hold, -⟩ := hback hb
    obtain ⟨l₂', hold', -⟩ := hback hb'
    exact h.single j j' m₁ m₂ l₁' l₂' hold hold' hk
  · obtain ⟨hd, hl⟩ := h.gone k hk
    have hne : k ≠ m.key := by
      rintro rfl
      exact List.cons_ne_nil f left (hl i m _ hown rfl)
    refine ⟨(Function.update_of_ne hne _ _).trans hd, fun j m' l hb hk' => ?_⟩
    obtain ⟨l', hold, hsub⟩ := hback hb
    have hnil := hl j m' l' hold hk'
    subst hnil
    exact List.eq_nil_iff_forall_not_mem.mpr fun x hx => List.not_mem_nil (hsub x hx)
  · rcases h.kept k c hc with ⟨m', hm', hk', hn⟩ | ⟨j, m', l, hb, hk', hin, hf⟩ | ⟨hf, hn⟩
    · refine .inl ⟨m', hm', hk', fun j x l hb => ?_⟩
      obtain ⟨l', hold, -⟩ := hback hb
      exact hn j x l' hold
    · by_cases hji : j = i
      · subst hji
        obtain ⟨rfl, rfl⟩ := hb.det hown
        refine .inr (.inl ⟨j, m', left, hbusy.mpr (.inl ⟨rfl, rfl, rfl⟩), hk', hin, ?_⟩)
        subst hk'
        simpa [turn, apply] using hf
      · have hne : k ≠ m.key := by
          rintro rfl
          exact hji (h.single j i m' m l _ hb hown hk')
        refine .inr (.inl ⟨j, m', l, hbusy.mpr (.inr ⟨hji, hb⟩), hk', hin, ?_⟩)
        simp only [turn, Function.update_of_ne hne]
        exact hf
    · refine .inr (.inr ⟨?_, fun j x l hb hk' => ?_⟩)
      · by_cases hkm : k = m.key
        · subst hkm
          simp only [turn, Function.update_self]
          exact hn i m _ hown rfl f List.mem_cons_self _ hf
        · simp only [turn, Function.update_of_ne hkm]
          exact hf
      · obtain ⟨l', hold, hsub⟩ := hback hb
        exact fun g hg => hn j x l' hold hk' g (hsub g hg)

/-- A refresh ends: its message is acknowledged after the last statement, or kept. -/
theorem Inv.ended (h : Inv P Fresh s) {m : Message κ} {left : List (ω → ω)}
    {todo : List (Message κ)} (hw : s.workers[i]? = some (.writing m left todo))
    (hno : ∀ m left todo, w' ≠ .writing m left todo) (hheld : ∀ x ∈ w'.holds, x ∈ todo)
    (hq : q = s.queue ∨ left = [] ∧ q = s.queue.filter fun x => x.id ≠ m.id) :
    Inv P Fresh (turn s i s.derived q w') := by
  have hown : Busy s i m left := ⟨todo, hw⟩
  have hbusy {j : ℕ} {m' : Message κ} {l : List (ω → ω)} :
      Busy (turn s i s.derived q w') j m' l ↔ j ≠ i ∧ Busy s j m' l := by
    rw [busy_turn hw]
    simp [hno]
  have hsub : ∀ x ∈ q, x ∈ s.queue := by
    rcases hq with rfl | ⟨-, rfl⟩
    · exact fun x hx => hx
    · exact fun x hx => (List.mem_filter.mp hx).1
  -- what is not this message stays in the queue
  have hstay : ∀ x ∈ s.queue, x ≠ m → x ∈ q := by
    intro x hx hne
    rcases hq with rfl | ⟨-, rfl⟩
    · exact hx
    · refine List.mem_filter.mpr ⟨hx, decide_eq_true fun hid => hne ?_⟩
      exact (h.busy_eq hown hx hid.symm).symm
  have hm := h.messages (i := i) (d := s.derived) (List.mem_of_getElem? hw) hsub
    (fun x hx => .inl (List.mem_cons_of_mem m (hheld x hx)))
  refine ⟨hm.low, hm.lowHeld, hm.unique, hm.agree, fun j j' m₁ m₂ l₁ l₂ hb hb' hk => ?_,
    fun k hk => ?_, fun k c hc => ?_⟩
  · exact h.single j j' m₁ m₂ l₁ l₂ (hbusy.mp hb).2 (hbusy.mp hb').2 hk
  · obtain ⟨hd, hl⟩ := h.gone k hk
    exact ⟨hd, fun j m' l hb => hl j m' l (hbusy.mp hb).2⟩
  · rcases h.kept k c hc with ⟨m', hm', hk', hn⟩ | ⟨j, m', l, hb, hk', hin, hf⟩ | ⟨hf, hn⟩
    · have hne : m' ≠ m := fun heq => hn i m left hown (congrArg Message.id heq.symm)
      exact .inl ⟨m', hstay m' hm' hne, hk', fun j x l hb => hn j x l (hbusy.mp hb).2⟩
    · by_cases hji : j = i
      · subst hji
        obtain ⟨rfl, rfl⟩ := hb.det hown
        -- nobody else works on this key
        have hnone {j' : ℕ} {x : Message κ} {l' : List (ω → ω)}
            (hb' : Busy (turn s j s.derived q w') j' x l') (hx : x.key = m'.key) : False := by
          obtain ⟨hne, hold⟩ := hbusy.mp hb'
          exact hne (h.single j' j x m' l' l hold hb hx)
        rcases hq with rfl | ⟨rfl, rfl⟩
        · refine .inl ⟨m', hin, hk', fun j' x l' hb' hid => ?_⟩
          obtain ⟨-, hold⟩ := hbusy.mp hb'
          have heq := h.busy_eq hold hin hid
          exact hnone hb' (heq ▸ rfl)
        · refine .inr (.inr ⟨hf, fun j' x l' hb' hx => ?_⟩)
          exact (hnone hb' (hx.trans hk'.symm)).elim
      · have hne : m' ≠ m := by
          rintro rfl
          exact hji (h.single j i m' m' l left hb hown rfl)
        exact .inr (.inl ⟨j, m', l, hbusy.mpr ⟨hji, hb⟩, hk', hstay m' hin hne, hf⟩)
    · exact .inr (.inr ⟨hf, fun j x l hb => hn j x l (hbusy.mp hb).2⟩)

theorem inv_empty (P : Pipeline σ ω ι) (Fresh : σ → ω → Prop) :
    Inv P Fresh (State.empty P : State κ σ ω) where
  low := by simp [State.empty]
  lowHeld := by simp [State.empty]
  unique := by simp [State.empty]
  agree := by simp [State.empty]
  single := by
    rintro i j m m' l l' ⟨todo, hb⟩
    simp [State.empty] at hb
  gone := by
    refine fun k _ => ⟨rfl, ?_⟩
    rintro i m l ⟨todo, hb⟩
    simp [State.empty] at hb
  kept := by simp [State.empty]

theorem allowed_fetch_of_single {input : ι} (h : s.workers.length ≤ 1) :
    Allowed P Fresh s (.work i (.fetch input)) := by
  rintro m todo hw j m' left ⟨todo', hb⟩ -
  have hi := (List.getElem?_eq_some_iff.mp hw).1
  have hj := (List.getElem?_eq_some_iff.mp hb).1
  obtain rfl : i = j := by omega
  rw [hw] at hb
  simp at hb

variable [DecidableEq κ]

theorem next_idle {a : Work ι} (hw : s.workers[i]? = none) : next P s (.work i a) = s := by
  simp [next, hw]

theorem next_work {a : Work ι} (hw : s.workers[i]? = some w) :
    next P s (.work i a) = turn s i (work P s a w).1 (work P s a w).2.1 (work P s a w).2.2 := by
  simp [next, hw, turn]

theorem Inv.worked (h : Inv P Fresh s) (hP : Lawful P Fresh) {a : Work ι}
    (hw : s.workers[i]? = some w) (ha : Allowed P Fresh s (.work i a)) :
    Inv P Fresh (turn s i (work P s a w).1 (work P s a w).2.1 (work P s a w).2.2) := by
  have hsame : Inv P Fresh (turn s i s.derived s.queue w) := by
    have hset : s.workers.set i w = s.workers := by
      obtain ⟨hlt, rfl⟩ := List.getElem?_eq_some_iff.mp hw
      exact List.set_getElem_self hlt
    unfold turn
    rw [hset]
    exact h
  cases w with
  | idle =>
    cases a with
    | poll ids =>
      exact h.quiet hw nofun nofun fun m hm => .inr (List.mem_filter.mp hm).1
    | _ => exact hsame
  | polled todo =>
    cases todo with
    | nil =>
      cases a with
      | fetch input => exact h.quiet hw nofun nofun nofun
      | crash => exact h.quiet hw nofun nofun nofun
      | _ => exact hsame
    | cons m todo =>
      cases a with
      | fetch input =>
        refine h.fetched hw (ha m todo hw) (fun hc => ?_) fun c hc => ?_
        · rw [hc]
          rfl
        · rw [hc]
          exact ⟨hP.complete input c, fun f hf r => hP.harmless input c f r hf⟩
      | fail => exact h.quiet hw nofun nofun fun x hx => .inl (List.mem_cons_of_mem m hx)
      | crash => exact h.quiet hw nofun nofun nofun
      | _ => exact hsame
  | writing m left todo =>
    cases a with
    | fail => exact h.ended hw nofun (fun x hx => hx) (.inl rfl)
    | crash => exact h.ended hw nofun nofun (.inl rfl)
    | write =>
      cases left with
      | nil => exact hsame
      | cons f left => exact h.wrote hw
    | ack =>
      cases left with
      | nil => exact h.ended hw nofun (fun x hx => hx) (.inr ⟨rfl, rfl⟩)
      | cons f left => exact hsame
    | _ => exact hsame

theorem Inv.put (h : Inv P Fresh s) (hP : Lawful P Fresh) {k : κ} {c : σ}
    (ha : Allowed P Fresh s (.put k c)) : Inv P Fresh (next P s (.put k c)) := by
  unfold next
  by_cases hr : P.rings (s.source k) c = true
  · simp only [hr, if_true]
    refine ⟨fun m hm => ?_, fun w hw m hm => Nat.lt_succ_of_lt (h.lowHeld w hw m hm),
      fun m hm m' hm' hid => ?_, fun w hw m hm m' hm' hid => ?_, h.single, fun k' hk' => ?_,
      fun k' c' hc' => ?_⟩
    · rcases List.mem_append.mp hm with hm | hm
      · exact Nat.lt_succ_of_lt (h.low m hm)
      · rw [List.mem_singleton.mp hm]
        exact Nat.lt_succ_self _
    · rcases List.mem_append.mp hm with hm | hm <;> rcases List.mem_append.mp hm' with hm' | hm'
      · exact h.unique m hm m' hm' hid
      · rw [List.mem_singleton.mp hm'] at hid
        exact absurd hid (Nat.ne_of_lt (h.low m hm))
      · rw [List.mem_singleton.mp hm] at hid
        exact absurd hid.symm (Nat.ne_of_lt (h.low m' hm'))
      · rw [List.mem_singleton.mp hm, List.mem_singleton.mp hm']
    · rcases List.mem_append.mp hm' with hm' | hm'
      · exact h.agree w hw m hm m' hm' hid
      · rw [List.mem_singleton.mp hm'] at hid
        exact absurd hid (Nat.ne_of_lt (h.lowHeld w hw m hm))
    · by_cases hk : k' = k
      · subst hk
        simp [enqueue] at hk'
      · exact h.gone k' (by simpa [enqueue, Function.update_of_ne hk] using hk')
    · by_cases hk : k' = k
      · subst hk
        refine .inl ⟨⟨s.nextId, k'⟩, List.mem_append_right _ (List.mem_singleton.mpr rfl), rfl,
          fun j m left hb => ?_⟩
        obtain ⟨w, hw, hm⟩ := Busy.mem hb
        exact Nat.ne_of_lt (h.lowHeld w hw m hm)
      · have hc : s.source k' = some c' := by
          simpa [enqueue, Function.update_of_ne hk] using hc'
        rcases h.kept k' c' hc with ⟨m, hm, hrest⟩ | ⟨j, m, l, hb, hmk, hm, hf⟩ | hrest
        · exact .inl ⟨m, List.mem_append_left _ hm, hrest⟩
        · exact .inr (.inl ⟨j, m, l, hb, hmk, List.mem_append_left _ hm, hf⟩)
        · exact .inr (.inr hrest)
  · simp only [hr, Bool.false_eq_true, if_false]
    refine ⟨h.low, h.lowHeld, h.unique, h.agree, h.single, fun k' hk' => ?_,
      fun k' c' hc' => ?_⟩
    · by_cases hk : k' = k
      · subst hk
        simp at hk'
      · exact h.gone k' (by simpa [Function.update_of_ne hk] using hk')
    · by_cases hk : k' = k
      · subst hk
        obtain rfl : c = c' := by simpa using hc'
        cases hc₀ : s.source k' with
        | none =>
          rw [hc₀, hP.first] at hr
          exact absurd rfl hr
        | some c₀ =>
          have hsilent : P.rings (some c₀) c = false := by
            rw [← hc₀]
            exact (Bool.not_eq_true _).mp hr
          have heq := ha c₀ hc₀ hsilent
          rcases h.kept k' c₀ hc₀ with hwait | ⟨j, m, l, hb, hmk, hm, hf⟩ | ⟨hf, hn⟩
          · exact .inl hwait
          · exact .inr (.inl ⟨j, m, l, hb, hmk, hm, (heq _).mp hf⟩)
          · refine .inr (.inr ⟨(heq _).mp hf, fun j m l hb hmk f hfl r hr => ?_⟩)
            exact (heq _).mp (hn j m l hb hmk f hfl r ((heq r).mpr hr))
      · exact h.kept k' c' (by simpa [Function.update_of_ne hk] using hc')

theorem Inv.deleted (h : Inv P Fresh s) {k : κ} (ha : Allowed P Fresh s (.delete k)) :
    Inv P Fresh (next P s (.delete k)) := by
  refine ⟨h.low, h.lowHeld, h.unique, h.agree, h.single, fun k' hk' => ?_, fun k' c' hc' => ?_⟩
  · by_cases hk : k' = k
    · subst hk
      exact ⟨Function.update_self _ _ _, fun j m l hb hmk => absurd hmk (ha j m l hb)⟩
    · obtain ⟨hd, hl⟩ := h.gone k' (by simpa [next, Function.update_of_ne hk] using hk')
      exact ⟨(Function.update_of_ne hk _ _).trans hd, hl⟩
  · by_cases hk : k' = k
    · subst hk
      simp [next] at hc'
    · have hc : s.source k' = some c' := by simpa [next, Function.update_of_ne hk] using hc'
      rcases h.kept k' c' hc with hwait | ⟨j, m, l, hb, hmk, hm, hf⟩ | ⟨hf, hn⟩
      · exact .inl hwait
      · refine .inr (.inl ⟨j, m, l, hb, hmk, hm, ?_⟩)
        simpa [next, Function.update_of_ne hk] using hf
      · refine .inr (.inr ⟨?_, hn⟩)
        simpa [next, Function.update_of_ne hk] using hf

theorem Inv.spawned (h : Inv P Fresh s) : Inv P Fresh (next P s .spawn) := by
  have hbusy {j : ℕ} {m : Message κ} {l : List (ω → ω)} (hb : Busy (next P s .spawn) j m l) :
      Busy s j m l := by
    obtain ⟨todo, hb⟩ := hb
    refine ⟨todo, ?_⟩
    simp only [next] at hb
    rcases List.getElem?_eq_some_iff.mp hb with ⟨hlt, he⟩
    rcases List.mem_append.mp (he ▸ List.getElem_mem hlt) with hin | hin
    · rw [List.getElem_append] at he
      split at he
      · next hl => exact List.getElem?_eq_some_iff.mpr ⟨hl, he⟩
      · simp at he
    · simp at hin
  have hbusy' {j : ℕ} {m : Message κ} {l : List (ω → ω)} (hb : Busy s j m l) :
      Busy (next P s .spawn) j m l := by
    obtain ⟨todo, hb⟩ := hb
    exact ⟨todo, (List.getElem?_append_left (List.getElem?_eq_some_iff.mp hb).1).trans hb⟩
  refine ⟨h.low, fun w hw m hm => ?_, h.unique, fun w hw m hm => ?_,
    fun j j' m m' l l' hb hb' => h.single j j' m m' l l' (hbusy hb) (hbusy hb'),
    fun k hk => ⟨(h.gone k hk).1, fun j m l hb => (h.gone k hk).2 j m l (hbusy hb)⟩,
    fun k c hc => ?_⟩
  · rcases List.mem_append.mp hw with hw | hw
    · exact h.lowHeld w hw m hm
    · rw [List.mem_singleton.mp hw] at hm
      cases hm
  · rcases List.mem_append.mp hw with hw | hw
    · exact h.agree w hw m hm
    · rw [List.mem_singleton.mp hw] at hm
      cases hm
  · rcases h.kept k c hc with ⟨m, hm, hk, hn⟩ | ⟨j, m, l, hb, hmk, hm, hf⟩ | ⟨hf, hn⟩
    · exact .inl ⟨m, hm, hk, fun j m' l hb => hn j m' l (hbusy hb)⟩
    · exact .inr (.inl ⟨j, m, l, hbusy' hb, hmk, hm, hf⟩)
    · exact .inr (.inr ⟨hf, fun j m l hb => hn j m l (hbusy hb)⟩)

theorem Inv.next (h : Inv P Fresh s) (hP : Lawful P Fresh) {a : Action κ σ ι}
    (ha : Allowed P Fresh s a) : Inv P Fresh (next P s a) := by
  cases a with
  | put k c => exact h.put hP ha
  | delete k => exact h.deleted ha
  | spawn => exact h.spawned
  | work i a =>
    cases hw : s.workers[i]? with
    | none =>
      rw [next_idle hw]
      exact h
    | some w =>
      rw [next_work hw]
      exact h.worked hP hw ha

/-- Runs whose every action is allowed where it is taken. -/
inductive Reachable (P : Pipeline σ ω ι) (Fresh : σ → ω → Prop) : State κ σ ω → Prop where
  | start : Reachable P Fresh (State.empty P)
  | next {s : State κ σ ω} (a : Action κ σ ι) : Reachable P Fresh s → Allowed P Fresh s a →
      Reachable P Fresh (next P s a)

theorem Reachable.inv (hP : Lawful P Fresh) (h : Reachable P Fresh s) : Inv P Fresh s := by
  induction h with
  | start => exact inv_empty P Fresh
  | next a _ ha ih => exact ih.next hP ha

def Tame (Wf : ω → Prop) (s : State κ σ ω) : Prop :=
  (∀ k, Wf (s.derived k)) ∧ ∀ i m left, Busy s i m left → ∀ f ∈ left, ∀ r, Wf r → Wf (f r)

/-- Rows are well formed at every time, whatever overlaps. -/
theorem tame_next {Wf : ω → Prop} (hblank : Wf P.blank)
    (hprogram : ∀ input c f r, f ∈ P.program input c → Wf r → Wf (f r)) (h : Tame Wf s)
    (a : Action κ σ ι) : Tame Wf (next P s a) := by
  obtain ⟨hrows, hleft⟩ := h
  cases a with
  | put k c =>
    by_cases hr : P.rings (s.source k) c = true
    · simp only [next, hr, if_true]
      exact ⟨hrows, hleft⟩
    · simp only [next, hr]
      exact ⟨hrows, hleft⟩
  | delete k =>
    refine ⟨fun k' => ?_, hleft⟩
    by_cases hk : k' = k
    · subst hk
      simpa [next] using hblank
    · simpa [next, Function.update_of_ne hk] using hrows k'
  | spawn =>
    refine ⟨hrows, ?_⟩
    rintro i m left ⟨todo, hb⟩
    simp only [next, List.getElem?_append] at hb
    split at hb
    · exact hleft i m left ⟨todo, hb⟩
    · cases hk : i - s.workers.length <;> simp [hk] at hb
  | work i a =>
    cases hw : s.workers[i]? with
    | none =>
      rw [next_idle hw]
      exact ⟨hrows, hleft⟩
    | some w =>
      rw [next_work hw]
      have hturn (d : κ → ω) (q : List (Message κ)) (w' : Worker κ ω) (hd : ∀ k, Wf (d k))
          (hw' : ∀ m left todo, w' = .writing m left todo → ∀ f ∈ left, ∀ r, Wf r → Wf (f r)) :
          Tame Wf (turn s i d q w') := by
        refine ⟨hd, fun j m left hb => ?_⟩
        rcases (busy_turn hw).mp hb with ⟨-, todo, he⟩ | ⟨-, hold⟩
        · exact hw' m left todo he
        · exact hleft j m left hold
      have hown : ∀ m left todo, w = .writing m left todo → ∀ f ∈ left, ∀ r, Wf r → Wf (f r) := by
        rintro m left todo rfl
        exact hleft i m left ⟨todo, hw⟩
      cases a with
      | poll ids =>
        cases w with
        | idle => exact hturn _ _ _ hrows nofun
        | _ => exact hturn _ _ _ hrows hown
      | fetch input =>
        cases w with
        | polled todo =>
          cases todo with
          | nil => exact hturn _ _ _ hrows nofun
          | cons m todo =>
            refine hturn _ _ _ hrows fun m' left todo' he f hf r hr => ?_
            simp only [work, Worker.writing.injEq] at he
            obtain ⟨-, rfl, -⟩ := he
            cases hc : s.source m.key with
            | none => simp [hc, plan] at hf
            | some c =>
              rw [hc] at hf
              exact hprogram input c f r hf hr
        | _ => exact hturn _ _ _ hrows hown
      | write =>
        cases w with
        | writing m left todo =>
          cases left with
          | nil => exact hturn _ _ _ hrows hown
          | cons f left =>
            have hf := hown m _ todo rfl
            refine hturn _ _ _ (fun k => ?_) fun m' left' todo' he g hg => ?_
            · by_cases hk : k = m.key
              · subst hk
                simpa [work] using hf f List.mem_cons_self _ (hrows _)
              · simpa [work, Function.update_of_ne hk] using hrows k
            · simp only [work, Worker.writing.injEq] at he
              obtain ⟨-, rfl, -⟩ := he
              exact hf g (List.mem_cons_of_mem f hg)
        | _ => exact hturn _ _ _ hrows hown
      | ack =>
        cases w with
        | writing m left todo =>
          cases left with
          | nil => exact hturn _ _ _ hrows nofun
          | cons f left => exact hturn _ _ _ hrows hown
        | _ => exact hturn _ _ _ hrows hown
      | fail =>
        cases w with
        | idle => exact hturn _ _ _ hrows hown
        | polled todo => cases todo <;> exact hturn _ _ _ hrows nofun
        | writing m left todo => exact hturn _ _ _ hrows nofun
      | crash => cases w <;> exact hturn _ _ _ hrows nofun

theorem Reachable.tame {Wf : ω → Prop} (hblank : Wf P.blank)
    (hprogram : ∀ input c f r, f ∈ P.program input c → Wf r → Wf (f r))
    (h : Reachable P Fresh s) : Tame Wf s := by
  induction h with
  | start =>
    refine ⟨fun _ => hblank, ?_⟩
    rintro i m left ⟨todo, hb⟩
    simp [State.empty] at hb
  | next a _ _ ih => exact tame_next hblank hprogram ih a

end

end RefreshQueue
