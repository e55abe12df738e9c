import OneOps.ExecutorWaveLoop

/-! The superstep budget of a turn. A wave costs two supersteps, and a turn takes as many
waves as its longest chain of steps that wait for each other, because the loop dispatches a
step in the first wave in which nothing holds it back. The budget counts one wave for each
generation level, so it covers generated steps that wait for planned steps and their own
ancestors, and not those that wait for other generated steps. -/
namespace ExecutorRecursionLimit

open ExecutorPlan
open ExecutorNodes
open ExecutorWaves
open ExecutorGeneration
open ExecutorWaveLoop
open BoundedTree
open RowMerge

def superstepsPerWave : ℕ := 2
def fixedSuperstepOverhead : ℕ := 10
def initialPlanWaveAllowance : ℕ := 16

def safeRecursionLimit (B : Budgets) (configured : ℤ) : ℤ :=
  let waves := initialPlanWaveAllowance + B.maxGenerationDepth
  let floor := fixedSuperstepOverhead + superstepsPerWave * waves
  if configured < floor then floor else configured

theorem floor_le (B : Budgets) (c : ℤ) :
    10 + 2 * (16 + (B.maxGenerationDepth : ℤ)) ≤ safeRecursionLimit B c := by
  unfold safeRecursionLimit fixedSuperstepOverhead superstepsPerWave initialPlanWaveAllowance
  dsimp only
  by_cases h : c < ((10 + 2 * (16 + B.maxGenerationDepth) : ℕ) : ℤ)
  · rw [if_pos h]
    push_cast
    exact le_rfl
  · rw [if_neg h]
    push_cast at h
    omega

inductive Node where
  | loadSession | updateFocus | controlGate | route | wave | runStep | aggregate | boundary
  | persist | finished
  deriving DecidableEq, Repr

/-- What the conditional edges before the wave loop read. -/
structure Entry where
  fastPath : Bool
  gateFired : Bool
  routed : Bool

def nextNode (e : Entry) (s : ExecutorState) : Node → Node
  | .loadSession => .updateFocus
  | .updateFocus => if e.fastPath then .wave else .controlGate
  | .controlGate => if e.gateFired then .persist else .route
  | .route => if e.routed then .wave else .boundary
  | .wave =>
    match dispatchWave s with
    | .aggregate => .aggregate
    | .sends _ => .runStep
  | .runStep => .wave
  | .aggregate => .persist
  | .boundary => .persist
  | .persist => .finished
  | .finished => .finished

structure GraphTurn where
  node : Node
  turn : Turn

/-- One superstep: the current node runs, then its edge is followed. `run_step` stands for
the whole fan-out of a wave. -/
def superstep (e : Entry) (S : ℕ → Services) (B : Budgets) (g : GraphTurn) : GraphTurn :=
  let turn := if g.node = .runStep then advance (S g.turn.waves) B g.turn else g.turn
  ⟨nextNode e turn.state g.node, turn⟩

/-- The plan is in the state from the start; no node before the loop reads it. -/
def graphAfter (e : Entry) (S : ℕ → Services) (B : Budgets) (s : ExecutorState) : ℕ → GraphTurn
  | 0 => ⟨.loadSession, ⟨s, [], 0⟩⟩
  | k + 1 => superstep e S B (graphAfter e S B s k)

def chatTurn : Entry := ⟨false, false, true⟩

/-- The turn is over within the recursion limit, counted in the nodes of the graph. LangGraph
counts its start too, so it cuts off a turn whose last node is the last that fits. -/
def Fits (S : ℕ → Services) (B : Budgets) (s : ExecutorState) (c : ℤ) : Prop :=
  ∃ k : ℕ, (k : ℤ) ≤ safeRecursionLimit B c ∧ (graphAfter chatTurn S B s k).node = .finished

section History

variable {S : ℕ → Services} {B : Budgets} {s : ExecutorState}

def waveRuns (S : ℕ → Services) (B : Budgets) (s : ExecutorState) (n : ℕ) : List StepRun :=
  match dispatchWave (after S B s n).state with
  | .aggregate => []
  | .sends xs => xs.map (ExecutorNodes.runStep (S n) B)

theorem runs_succ (n : ℕ) :
    (after S B s (n + 1)).runs = (after S B s n).runs ++ waveRuns S B s n := by
  change (advance (S n) B (after S B s n)).runs = _
  unfold advance waveRuns
  cases dispatchWave (after S B s n).state with
  | aggregate => simp
  | sends xs => rfl

theorem mem_runs {n : ℕ} {r : StepRun} :
    r ∈ (after S B s n).runs ↔ ∃ m < n, r ∈ waveRuns S B s m := by
  induction n with
  | zero => simp [after]
  | succ n ih =>
    rw [runs_succ, List.mem_append, ih]
    constructor
    · rintro (⟨m, hm, hr⟩ | hr)
      · exact ⟨m, by omega, hr⟩
      · exact ⟨n, by omega, hr⟩
    · rintro ⟨m, hm, hr⟩
      by_cases hmn : m = n
      · exact .inr (hmn ▸ hr)
      · exact .inl ⟨m, by omega, hr⟩

theorem mem_waveRuns {n : ℕ} {r : StepRun} (h : r ∈ waveRuns S B s n) :
    r.send.step ∈ runnable (after S B s n).state := by
  unfold waveRuns at h
  cases hx : dispatchWave (after S B s n).state with
  | aggregate => simp [hx] at h
  | sends xs =>
    rw [hx] at h
    obtain ⟨x, hxm, rfl⟩ := List.mem_map.mp h
    obtain ⟨_, rfl⟩ := dispatch_sends hx
    obtain ⟨p, hp, rfl⟩ := List.mem_map.mp hxm
    rw [runStep_send]
    exact hp

theorem waveRuns_of_runnable {n : ℕ} {p : Step} (h : p ∈ runnable (after S B s n).state) :
    ∃ r ∈ waveRuns S B s n, r.send.step = p := by
  unfold waveRuns
  have hne : runnable (after S B s n).state ≠ [] := List.ne_nil_of_mem h
  have hx : dispatchWave (after S B s n).state = .sends ((runnable (after S B s n).state).map
      fun p => ⟨p, (after S B s n).state.request, depResults (after S B s n).state p⟩) := if_neg hne
  rw [hx]
  refine ⟨_, List.mem_map_of_mem (List.mem_map_of_mem h), ?_⟩
  rw [runStep_send]

theorem completed_iff (hs : Initial s) {n : ℕ} {k : String} :
    k ∈ completed (after S B s n).state ↔
      ∃ m < n, ∃ r ∈ waveRuns S B s m, r.send.step.stepId = k := by
  rw [(sound_after hs.startable S n).completed_eq, hs.completed_nil, List.nil_append, runIds,
    List.mem_map]
  constructor
  · rintro ⟨r, hr, rfl⟩
    obtain ⟨m, hm, hr⟩ := mem_runs.mp hr
    exact ⟨m, hm, r, hr, rfl⟩
  · rintro ⟨m, hm, r, hr, rfl⟩
    exact ⟨r, mem_runs.mpr ⟨m, hm, hr⟩, rfl⟩

/-- A step id runs in one wave only. -/
theorem wave_unique (hs : Initial s) {i j : ℕ} {a b : StepRun} (ha : a ∈ waveRuns S B s i)
    (hb : b ∈ waveRuns S B s j) (he : a.send.step.stepId = b.send.step.stepId) : i = j := by
  have later : ∀ {i j : ℕ} {a b : StepRun}, a ∈ waveRuns S B s i → b ∈ waveRuns S B s j →
      a.send.step.stepId = b.send.step.stepId → ¬ i < j := by
    intro i j a b ha hb he hij
    apply (mem_runnable.mp (mem_waveRuns hb)).2.1
    exact (completed_iff hs).mpr ⟨i, hij, a, ha, he⟩
  have h₁ := later ha hb he
  have h₂ := later hb ha he.symm
  omega

/-- `q` names `p` as a dependency, or came into the plan with the pass of `p`. -/
def Waits (s : ExecutorState) (t : Turn) (p q : Step) : Prop :=
  p.stepId ∈ q.dependsOn ∨ q ∈ spawned s t p

def RanIn (S : ℕ → Services) (B : Budgets) (s : ExecutorState) (n : ℕ) (p : Step) : Prop :=
  ∃ r ∈ waveRuns S B s n, r.send.step = p

theorem waits_later (hs : Initial s) {n i j : ℕ} {p q : Step} (hp : RanIn S B s i p)
    (hq : RanIn S B s j q) (h : Waits s (after S B s n) p q) : i < j := by
  obtain ⟨a, ha, rfl⟩ := hp
  obtain ⟨b, hb, rfl⟩ := hq
  obtain ⟨hplan, _, hdeps⟩ := mem_runnable.mp (mem_waveRuns hb)
  rcases h with h | h
  · obtain ⟨m, hm, r, hr, he⟩ := (completed_iff hs).mp (hdeps _ h)
    rw [wave_unique hs ha hr he.symm]
    exact hm
  · -- the plan of wave `j` has `b` from a pass before `j`, and ids name their parent
    obtain ⟨⟨a', ha', hid, hgen⟩, hnew⟩ := mem_spawned.mp h
    have hsj := sound_after (B := B) hs.startable S j
    rw [hsj.plan_eq] at hplan
    rcases List.mem_append.mp hplan with hplan | hplan
    · exact absurd (List.mem_map_of_mem hplan) hnew
    · obtain ⟨r, hr, hgr⟩ := List.mem_flatMap.mp (List.mem_filter.mp hplan).1
      obtain ⟨k, hk⟩ := (hsj.spec r hr).2.named _ hgr
      obtain ⟨l, hl⟩ := ((sound_after (B := B) hs.startable S n).spec a' ha').2.named _ hgen
      have hpar := (generatedId_inj (hk.symm.trans hl)).1
      obtain ⟨m, hm, hr⟩ := mem_runs.mp hr
      rw [wave_unique hs ha hr (hid.symm.trans hpar.symm)]
      exact hm

/-- A step of a later wave was held back by one of the wave before. -/
theorem held_back (hs : Initial s) {n j : ℕ} {q : Step} (hj : j < n)
    (hq : RanIn S B s (j + 1) q) : ∃ p, RanIn S B s j p ∧ Waits s (after S B s n) p q := by
  obtain ⟨b, hb, rfl⟩ := hq
  obtain ⟨hplan, hnew, hdeps⟩ := mem_runnable.mp (mem_waveRuns hb)
  have hbefore : b.send.step.stepId ∉ completed (after S B s j).state := by
    intro hc
    obtain ⟨m, hm, r, hr, he⟩ := (completed_iff hs).mp hc
    exact hnew ((completed_iff hs).mpr ⟨m, by omega, r, hr, he⟩)
  by_cases hold : b.send.step ∈ (after S B s j).state.plan
  · -- it was planned already, so a dependency was missing
    have hnot : ¬ ∀ d ∈ b.send.step.dependsOn, d ∈ completed (after S B s j).state := by
      intro hall
      obtain ⟨r, hr, he⟩ := waveRuns_of_runnable (mem_runnable.mpr ⟨hold, hbefore, hall⟩)
      have := wave_unique hs hr hb (by rw [he])
      omega
    push Not at hnot
    obtain ⟨d, hd, hmiss⟩ := hnot
    obtain ⟨m, hm, r, hr, he⟩ := (completed_iff hs).mp (hdeps d hd)
    have hmj : m = j := by
      by_contra hne
      exact hmiss ((completed_iff hs).mpr ⟨m, by omega, r, hr, he⟩)
    subst hmj
    exact ⟨r.send.step, ⟨r, hr, rfl⟩, .inl (by rw [he]; exact hd)⟩
  · -- it is new, so its parent ran in the wave before
    have hsj := sound_after (B := B) hs.startable S (j + 1)
    rw [hsj.plan_eq] at hplan
    rcases List.mem_append.mp hplan with hplan | hplan
    · rw [(sound_after (B := B) hs.startable S j).plan_eq] at hold
      exact absurd (List.mem_append_left _ hplan) hold
    · obtain ⟨hoff, hfresh⟩ := List.mem_filter.mp hplan
      obtain ⟨r, hr, hgr⟩ := List.mem_flatMap.mp hoff
      rw [runs_succ, List.mem_append] at hr
      rcases hr with hr | hr
      · apply absurd _ hold
        rw [(sound_after (B := B) hs.startable S j).plan_eq]
        apply List.mem_append_right
        exact List.mem_filter.mpr ⟨List.mem_flatMap.mpr ⟨r, hr, hgr⟩, hfresh⟩
      · refine ⟨r.send.step, ⟨r, hr, rfl⟩, .inr (mem_spawned.mpr ⟨⟨r, ?_, rfl, hgr⟩, ?_⟩)⟩
        · exact mem_runs.mpr ⟨j, hj, hr⟩
        · simpa using hfresh

structure WaitChain (s : ExecutorState) (t : Turn) (ps : List Step) : Prop where
  ran : ∀ p ∈ ps, ∃ r ∈ t.runs, r.send.step = p
  linked : ps.IsChain (Waits s t)

theorem ranIn_of_ran {n : ℕ} {p : Step} (h : ∃ r ∈ (after S B s n).runs, r.send.step = p) :
    ∃ m < n, RanIn S B s m p := by
  obtain ⟨r, hr, he⟩ := h
  obtain ⟨m, hm, hr⟩ := mem_runs.mp hr
  exact ⟨m, hm, r, hr, he⟩

theorem WaitChain.length_le (hs : Initial s) {n : ℕ} :
    ∀ {ps : List Step} {p : Step} {i : ℕ}, WaitChain s (after S B s n) (p :: ps) →
      RanIn S B s i p → i < n → i + (p :: ps).length ≤ n := by
  intro ps
  induction ps with
  | nil =>
    intro p i _ _ hi
    simp only [List.length_cons, List.length_nil]
    omega
  | cons q ps ih =>
    intro p i h hp hi
    obtain ⟨hw, hrest⟩ := List.isChain_cons_cons.mp h.linked
    obtain ⟨j, hj, hq⟩ := ranIn_of_ran (h.ran q (by simp))
    have hij := waits_later hs hp hq hw
    have := ih ⟨fun x hx => h.ran x (List.mem_cons_of_mem _ hx), hrest⟩ hq hj
    simp only [List.length_cons] at this ⊢
    omega

theorem exists_chain (hs : Initial s) {n : ℕ} :
    ∀ (j : ℕ) {q : Step}, j < n → RanIn S B s j q →
      ∃ ps, WaitChain s (after S B s n) (ps ++ [q]) ∧ ps.length = j := by
  intro j
  have ranAt : ∀ {m : ℕ} {p : Step}, m < n → RanIn S B s m p →
      ∃ r ∈ (after S B s n).runs, r.send.step = p := by
    rintro m p hm ⟨r, hr, he⟩
    exact ⟨r, mem_runs.mpr ⟨m, hm, hr⟩, he⟩
  induction j with
  | zero =>
    intro q hn hq
    refine ⟨[], ⟨?_, by simp⟩, rfl⟩
    intro p hp
    rw [List.nil_append, List.mem_singleton] at hp
    exact hp ▸ ranAt hn hq
  | succ j ih =>
    intro q hn hq
    obtain ⟨p, hp, hw⟩ := held_back (n := n) hs (by omega) hq
    obtain ⟨ps, hc, hl⟩ := ih (by omega) hp
    refine ⟨ps ++ [p], ⟨?_, ?_⟩, by simp [hl]⟩
    · intro x hx
      rcases List.mem_append.mp hx with hx | hx
      · exact hc.ran x hx
      · exact List.mem_singleton.mp hx ▸ ranAt hn hq
    · apply List.isChain_append.mpr
      refine ⟨hc.linked, by simp, ?_⟩
      intro x hx y hy
      simp only [List.getLast?_append, List.getLast?_singleton, Option.some_or, Option.mem_def,
        Option.some.injEq, List.head?_cons] at hx hy
      exact hx ▸ hy ▸ hw

theorem advance_ended {n : ℕ} (h : dispatchWave (after S B s n).state = .aggregate) (k : ℕ) :
    after S B s (n + k) = after S B s n := by
  induction k with
  | zero => rfl
  | succ k ih =>
    change advance (S (n + k)) B (after S B s (n + k)) = _
    rw [ih]
    unfold advance
    rw [h]

/-- The first wave number at which the loop goes on to `aggregate`. -/
structure LastWave (S : ℕ → Services) (B : Budgets) (s : ExecutorState) (w : ℕ) : Prop where
  ended : dispatchWave (after S B s w).state = .aggregate
  going : ∀ m < w, dispatchWave (after S B s m).state ≠ .aggregate

theorem exists_lastWave (hs : Initial s) (S : ℕ → Services) :
    ∃ w ≤ planBound B s, LastWave S B s w := by
  classical
  have hex : ∃ n, dispatchWave (after S B s n).state = .aggregate := by
    obtain ⟨n, _, hn⟩ := loop_ends (B := B) hs.startable S
    exact ⟨n, hn⟩
  obtain ⟨n, hle, hn⟩ := loop_ends (B := B) hs.startable S
  refine ⟨Nat.find hex, (Nat.find_min' hex hn).trans hle, Nat.find_spec hex, ?_⟩
  intro m hm
  exact Nat.find_min hex hm

def finalTurn (S : ℕ → Services) (B : Budgets) (s : ExecutorState) : Turn :=
  after S B s (planBound B s)

theorem LastWave.finalTurn {w : ℕ} (h : LastWave S B s w) (hle : w ≤ planBound B s) :
    finalTurn S B s = after S B s w := by
  obtain ⟨k, hk⟩ := Nat.exists_eq_add_of_le hle
  rw [ExecutorRecursionLimit.finalTurn, hk]
  exact advance_ended h.ended k

theorem LastWave.chain_le (hs : Initial s) {w : ℕ} {ps : List Step}
    (h : WaitChain s (after S B s w) ps) : ps.length ≤ w := by
  cases ps with
  | nil => exact Nat.zero_le _
  | cons p ps =>
    obtain ⟨i, hi, hp⟩ := ranIn_of_ran (h.ran p List.mem_cons_self)
    have := h.length_le hs hp hi
    omega

theorem LastWave.exists_longest (hs : Initial s) {w : ℕ} (h : LastWave S B s w) :
    ∃ ps, WaitChain s (after S B s w) ps ∧ ps.length = w := by
  cases w with
  | zero => exact ⟨[], ⟨fun _ hp => (by cases hp), by simp⟩, rfl⟩
  | succ w =>
    have hne : runnable (after S B s w).state ≠ [] := by
      intro he
      exact h.going w (by omega) (if_pos he)
    obtain ⟨q, hq⟩ := List.exists_mem_of_ne_nil _ hne
    obtain ⟨ps, hc, hl⟩ := exists_chain (n := w + 1) hs w (by omega) (waveRuns_of_runnable hq)
    exact ⟨ps ++ [q], hc, by simp [hl]⟩

theorem LastWave.at_wave {w : ℕ} (h : LastWave S B s w) :
    ∀ m ≤ w, graphAfter chatTurn S B s (4 + 2 * m) = ⟨.wave, after S B s m⟩ := by
  intro m
  induction m with
  | zero => intro _; rfl
  | succ m ih =>
    intro hm
    have hgo := h.going m (by omega)
    have hw : (after S B s m).waves = m := waves_of_going fun k hk => h.going k (by omega)
    change superstep chatTurn S B (superstep chatTurn S B (graphAfter chatTurn S B s (4 + 2 * m))) =
      _
    rw [ih (by omega)]
    have hnode : nextNode chatTurn (after S B s m).state .wave = .runStep := by
      simp only [nextNode]
      split
      · rename_i hx
        exact absurd hx hgo
      · rfl
    have hfirst : superstep chatTurn S B ⟨.wave, after S B s m⟩ = ⟨.runStep, after S B s m⟩ := by
      simp only [superstep, reduceCtorEq, if_false, hnode]
    rw [hfirst]
    simp only [superstep, if_true, nextNode, hw]
    rfl

theorem LastWave.persist_at {w : ℕ} (h : LastWave S B s w) :
    graphAfter chatTurn S B s (6 + 2 * w) = ⟨.persist, after S B s w⟩ := by
  have hk : 6 + 2 * w = 4 + 2 * w + 2 := by omega
  rw [hk]
  change superstep chatTurn S B (superstep chatTurn S B (graphAfter chatTurn S B s (4 + 2 * w))) = _
  rw [h.at_wave w le_rfl]
  have hnode : nextNode chatTurn (after S B s w).state .wave = .aggregate := by
    simp only [nextNode, h.ended]
  have hfirst : superstep chatTurn S B ⟨.wave, after S B s w⟩ = ⟨.aggregate, after S B s w⟩ := by
    simp only [superstep, reduceCtorEq, if_false, hnode]
  rw [hfirst]
  rfl

theorem finished_stays {k : ℕ} (h : (graphAfter chatTurn S B s k).node = .finished) (j : ℕ) :
    (graphAfter chatTurn S B s (k + j)).node = .finished := by
  induction j with
  | zero => exact h
  | succ j ih =>
    change (superstep chatTurn S B (graphAfter chatTurn S B s (k + j))).node = _
    simp only [superstep, ih, nextNode]

/-- The turn takes four supersteps to the loop, two for each wave and three after it. -/
theorem LastWave.finished_iff {w : ℕ} (h : LastWave S B s w) (k : ℕ) :
    (graphAfter chatTurn S B s k).node = .finished ↔ 7 + 2 * w ≤ k := by
  have hp := h.persist_at
  have hend : (graphAfter chatTurn S B s (7 + 2 * w)).node = .finished := by
    have hk : 7 + 2 * w = 6 + 2 * w + 1 := by omega
    rw [hk]
    change (superstep chatTurn S B (graphAfter chatTurn S B s (6 + 2 * w))).node = _
    rw [hp]
    rfl
  constructor
  · intro hf
    by_contra hlt
    obtain ⟨j, hj⟩ := Nat.exists_eq_add_of_le (show k ≤ 6 + 2 * w by omega)
    have := finished_stays hf j
    rw [← hj, hp] at this
    cases this
  · intro hle
    obtain ⟨j, rfl⟩ := Nat.exists_eq_add_of_le hle
    exact finished_stays hend j

theorem LastWave.fits_iff {w : ℕ} (h : LastWave S B s w) (c : ℤ) :
    Fits S B s c ↔ 7 + 2 * (w : ℤ) ≤ safeRecursionLimit B c := by
  constructor
  · rintro ⟨k, hk, hf⟩
    have := (h.finished_iff k).mp hf
    omega
  · intro hle
    exact ⟨7 + 2 * w, by push_cast; exact hle, (h.finished_iff _).mpr le_rfl⟩

structure PlanChain (plan ps : List Step) : Prop where
  planned : ∀ p ∈ ps, p ∈ plan
  linked : ps.IsChain fun p q => p.stepId ∈ q.dependsOn

def DepthAtMost (plan : List Step) (k : ℕ) : Prop := ∀ ps, PlanChain plan ps → ps.length ≤ k

def PlatformBudgets (s : ExecutorState) : Prop :=
  ∀ p ∈ s.plan, p.genDepth = 0 ∧ p.genMaxDepth = none ∧ p.genMaxWidth = none

instance (s : ExecutorState) : Decidable (PlatformBudgets s) :=
  inferInstanceAs (Decidable (∀ p ∈ s.plan, _))

def WaitsUpward (s : ExecutorState) (t : Turn) : Prop :=
  ∀ a ∈ t.runs, ∀ b ∈ t.runs, a.send.step.stepId ∈ b.send.step.dependsOn →
    a.send.step ∈ s.plan ∨ Descends (spawned s t) a.send.step b.send.step

def InBudget (B : Budgets) (t : Turn) (p : Step) : Prop :=
  p ∈ t.state.plan ∧ maxWidth B p = B.maxGeneratedPerStep ∧ maxDepth B p = B.maxGenerationDepth

variable {t : Turn}

theorem kept_not_initial {p : Step} (h : p ∈ kept s t) : p ∉ s.plan := by
  intro hp
  have := (List.mem_filter.mp h).2
  rw [decide_eq_true_eq] at this
  exact this (List.mem_map_of_mem hp)

theorem descends_kept {p q : Step} (h : Descends (spawned s t) p q) : q ∈ kept s t := by
  cases h with
  | single hc => exact Sound.spawned_kept hc
  | tail _ hc => exact Sound.spawned_kept hc

theorem planned_inBudget (hb : PlatformBudgets s) (h : Sound B s t) {p : Step} (hp : p ∈ s.plan) :
    InBudget B t p ∧ levels B p = B.maxGenerationDepth := by
  obtain ⟨h₀, h₁, h₂⟩ := hb p hp
  have hin : p ∈ t.state.plan := by
    rw [h.plan_eq]
    exact List.mem_append_left _ hp
  refine ⟨⟨hin, ?_, ?_⟩, ?_⟩
  · simp [maxWidth, override, h₂]
  · simp [maxDepth, override, h₁]
  · simp [levels, maxDepth, override, h₀, h₁]

theorem generated_inBudget (hs : Initial s) (hb : PlatformBudgets s) (h : Sound B s t) {p : Step}
    (hp : p ∈ kept s t) : InBudget B t p ∧ levels B p < B.maxGenerationDepth := by
  obtain ⟨o, ho, hd⟩ := h.descends _ p rfl hp
  obtain ⟨hin, hl⟩ := planned_inBudget hb h ho
  have := (h.graded hs.startable _ _).descends hin hd
  exact ⟨this.1, hl ▸ this.2⟩

/-- Once a chain has left the initial plan it goes down the generation levels. -/
theorem generated_chain_le (hs : Initial s) (h : Sound B s t)
    (hup : WaitsUpward s t) : ∀ {ps : List Step} {p : Step}, WaitChain s t (p :: ps) →
      p ∈ kept s t → InBudget B t p → (p :: ps).length ≤ levels B p + 1 := by
  intro ps
  induction ps with
  | nil => intro p _ _ _; simp
  | cons q ps ih =>
    intro p hc hk hin
    obtain ⟨hw, hrest⟩ := List.isChain_cons_cons.mp hc.linked
    have hd : Descends (spawned s t) p q := by
      rcases hw with hw | hw
      · obtain ⟨a, ha, rfl⟩ := hc.ran p (by simp)
        obtain ⟨b, hb, rfl⟩ := hc.ran q (by simp)
        exact (hup a ha b hb hw).resolve_left (kept_not_initial hk)
      · exact .single hw
    obtain ⟨hq, hl⟩ := (h.graded hs.startable _ _).descends hin hd
    have := ih ⟨fun x hx => hc.ran x (List.mem_cons_of_mem _ hx), hrest⟩ (descends_kept hd) hq
    simp only [List.length_cons] at this ⊢
    omega

/-- A chain starts inside the initial plan and ends outside it. -/
theorem chain_split (h : Sound B s t) : ∀ {ps : List Step}, WaitChain s t ps →
    ∃ init gens, ps = init ++ gens ∧ PlanChain s.plan init ∧
      ∀ g ∈ gens.head?, g ∈ kept s t := by
  intro ps
  induction ps with
  | nil => exact fun _ => ⟨[], [], rfl, ⟨fun _ hp => (by cases hp), by simp⟩, by simp⟩
  | cons p ps ih =>
    intro hc
    obtain ⟨r, hr, rfl⟩ := hc.ran _ List.mem_cons_self
    have hp := h.planned r hr
    rw [h.plan_eq] at hp
    rcases List.mem_append.mp hp with hp | hp
    · obtain ⟨init, gens, rfl, hi, hg⟩ :=
        ih ⟨fun x hx => hc.ran x (List.mem_cons_of_mem _ hx), hc.linked.tail⟩
      refine ⟨r.send.step :: init, gens, rfl, ⟨?_, ?_⟩, hg⟩
      · intro x hx
        rcases List.mem_cons.mp hx with rfl | hx
        · exact hp
        · exact hi.planned x hx
      · cases init with
        | nil => simp
        | cons q init =>
          refine List.isChain_cons_cons.mpr ⟨?_, hi.linked⟩
          rcases (List.isChain_cons_cons.mp hc.linked).1 with hw | hw
          · exact hw
          · exact absurd (hi.planned q List.mem_cons_self)
              (kept_not_initial (Sound.spawned_kept hw))
    · exact ⟨[], r.send.step :: ps, rfl, ⟨fun _ hp => (by cases hp), by simp⟩, by simpa using hp⟩

theorem upward_chain_le (hs : Initial s) (hb : PlatformBudgets s) (h : Sound B s t)
    (hup : WaitsUpward s t) {k : ℕ} (hd : DepthAtMost s.plan k) {ps : List Step}
    (hc : WaitChain s t ps) : ps.length ≤ k + B.maxGenerationDepth := by
  obtain ⟨init, gens, rfl, hi, hg⟩ := chain_split h hc
  have hinit := hd init hi
  have hgens : gens.length ≤ B.maxGenerationDepth := by
    cases gens with
    | nil => exact Nat.zero_le _
    | cons g gens =>
      obtain ⟨hin, hl⟩ := generated_inBudget hs hb h (hg g rfl)
      have htail : WaitChain s t (g :: gens) :=
        ⟨fun x hx => hc.ran x (List.mem_append_right _ hx), hc.linked.right_of_append⟩
      have := generated_chain_le hs h hup htail (hg g rfl) hin
      omega
  rw [List.length_append]
  omega

end History

/-- A chat turn fits its recursion limit exactly when no chain of steps that wait for each
other is longer than the limit has waves for. Where generated steps wait only for planned
steps and their own ancestors, every plan of depth sixteen fits. -/
theorem recursion_limit_iff (S : ℕ → Services) (B : Budgets) (s : ExecutorState) (c : ℤ)
    (hs : Initial s) :
    (Fits S B s c ↔ ∀ ps, WaitChain s (finalTurn S B s) ps →
      7 + 2 * (ps.length : ℤ) ≤ safeRecursionLimit B c) ∧
    (DepthAtMost s.plan 16 → PlatformBudgets s → WaitsUpward s (finalTurn S B s) →
      Fits S B s c) := by
  obtain ⟨w, hle, hw⟩ := exists_lastWave (B := B) hs S
  have hiff : Fits S B s c ↔ ∀ ps, WaitChain s (finalTurn S B s) ps →
      7 + 2 * (ps.length : ℤ) ≤ safeRecursionLimit B c := by
    rw [hw.fits_iff, hw.finalTurn hle]
    constructor
    · intro hl ps hc
      have := LastWave.chain_le hs hc
      omega
    · intro hall
      obtain ⟨ps, hc, hlen⟩ := hw.exists_longest hs
      exact hlen ▸ hall ps hc
  refine ⟨hiff, fun hd hb hup => hiff.mpr fun ps hc => ?_⟩
  have hlen := upward_chain_le hs hb (sound_after (B := B) hs.startable S _) hup hd hc
  have hfloor := floor_le B c
  omega

theorem depthAtMost_of_rank {plan : List Step} {k : ℕ} (rank : Step → ℕ)
    (hr : ∀ p ∈ plan, ∀ q ∈ plan, p.stepId ∈ q.dependsOn → rank p < rank q)
    (hk : ∀ p ∈ plan, rank p < k) : DepthAtMost plan k := by
  have main : ∀ (ps : List Step) (p : Step), PlanChain plan (p :: ps) →
      rank p + (p :: ps).length ≤ k := by
    intro ps
    induction ps with
    | nil =>
      intro p h
      exact hk p (h.planned p List.mem_cons_self)
    | cons q ps ih =>
      intro p h
      obtain ⟨hpq, hrest⟩ := List.isChain_cons_cons.mp h.linked
      have hlt := hr p (h.planned p (by simp)) q (h.planned q (by simp)) hpq
      have := ih q ⟨fun x hx => h.planned x (List.mem_cons_of_mem _ hx), hrest⟩
      simp only [List.length_cons] at this ⊢
      omega
  intro ps h
  cases ps with
  | nil => exact Nat.zero_le _
  | cons p ps => exact le_trans (Nat.le_add_left _ _) (main ps p h)

def queueOf (parent : String) : List RawStep :=
  (List.range 8).map fun i => ⟨"uc_b", [], if i = 0 then [] else [generatedId parent (i - 1)]⟩

def queueingServices : Services :=
  { failingServices with
    run := fun step _ _ _ => .replied .success .null none "" none
      (if step.stepId ∈ ["step_3", "step_3.g7", "step_3.g7.g7"] then queueOf step.stepId else []) }

def shortPlan : ExecutorState :=
  startOf [plainStep "step_1" "uc_b" [], plainStep "step_2" "uc_b" ["step_1"],
    plainStep "step_3" "uc_b" ["step_2"]]

theorem shortPlan_initial : Initial shortPlan := ⟨by decide, rfl⟩

theorem shortPlan_depth : DepthAtMost shortPlan.plan 16 :=
  depthAtMost_of_rank (fun p => shortPlan.plan.findIdx fun q => q.stepId = p.stepId) (by decide)
    (by decide)

theorem recursion_limit_iff_shortPlan :
    Initial shortPlan ∧ Fits (fun _ => failingServices) defaultBudgets shortPlan 0 ∧
    ∀ ps, WaitChain shortPlan (finalTurn (fun _ => failingServices) defaultBudgets shortPlan) ps →
      7 + 2 * (ps.length : ℤ) ≤ safeRecursionLimit defaultBudgets 0 := by
  have hf : Fits (fun _ => failingServices) defaultBudgets shortPlan 0 :=
    ⟨13, by decide, by decide +kernel⟩
  exact ⟨shortPlan_initial, hf,
    (recursion_limit_iff (fun _ => failingServices) defaultBudgets shortPlan 0
      shortPlan_initial).1.mp hf⟩

/-- Three planned steps and three levels of eight siblings in a queue are 27 waves, 61
supersteps; the default limit of 60 cuts the turn off. -/
theorem queued_siblings_exceed_limit :
    Initial shortPlan ∧ DepthAtMost shortPlan.plan 16 ∧ PlatformBudgets shortPlan ∧
    safeRecursionLimit defaultBudgets 60 = 60 ∧
    ¬ Fits (fun _ => queueingServices) defaultBudgets shortPlan 60 := by
  have hlimit : safeRecursionLimit defaultBudgets 60 = 60 := by decide
  refine ⟨shortPlan_initial, shortPlan_depth, by decide, hlimit, ?_⟩
  rintro ⟨k, hk, hf⟩
  rw [hlimit] at hk
  obtain ⟨j, hj⟩ := Nat.exists_eq_add_of_le (show k ≤ 60 by omega)
  have hend := finished_stays hf j
  rw [← hj] at hend
  have hnode : (graphAfter chatTurn (fun _ => queueingServices) defaultBudgets shortPlan 60).node =
      .persist := by
    decide +kernel
  rw [hnode] at hend
  cases hend

end ExecutorRecursionLimit
