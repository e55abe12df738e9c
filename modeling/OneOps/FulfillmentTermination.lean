import Mathlib.Algebra.BigOperators.Group.List.Lemmas
import Mathlib.Algebra.GroupWithZero.Nat
import OneOps.FairExecution
import OneOps.FulfillmentWaves

/-! One `execute_plan` call ends. Every await moves the call down a measure: the waves that
are left, the phase within the wave, and the awaits left in the children. Only an execution
that leaves a call at the same await forever goes on. -/
namespace FulfillmentTermination

open FairExecution
open FulfillmentContracts
open FulfillmentDb
open FulfillmentInspection
open FulfillmentWorker
open FulfillmentSystem
open FulfillmentWaves

def ended : Phase → Bool
  | .returned _ | .raised _ => true
  | _ => false

def awaits : Child → ℕ
  | .claim _ => 4
  | .approve _ _ | .dispatch _ _ => 3
  | .calling _ _ => 2
  | .settle _ => 1
  | .finished _ | .raised => 0

def wavesLeft (wave : ℕ) : ℕ := 4 * (maxWaves - wave)

def rank : Phase → ℕ × ℕ
  | .readRitm => (wavesLeft 0 + 13, 0)
  | .startRitm _ => (wavesLeft 0 + 12, 0)
  | .recover => (wavesLeft 0 + 11, 0)
  | .list wave => (wavesLeft wave + 10, 0)
  | .cascade wave todo => (wavesLeft wave + 9, todo.length)
  | .relist wave => (wavesLeft wave + 8, 0)
  | .running wave children => (wavesLeft wave + 7, (children.map awaits).sum)
  | .finalRead _ => (6, 0)
  | .finalList _ _ => (5, 0)
  | .finalWrite _ _ => (4, 0)
  | .finalRun _ _ => (3, 0)
  | .finalStamp _ _ _ => (2, 0)
  | .snapshot => (4, 0)
  | .partialRead _ => (3, 0)
  | .partialApprovals _ _ => (2, 0)
  | .partialRun _ _ _ => (1, 0)
  | .returned _ | .raised _ => (0, 0)

def Below (p q : Phase) : Prop := Prod.Lex (· < ·) (· < ·) (rank p) (rank q)

theorem Below.of_fst {p q : Phase} (h : (rank p).1 < (rank q).1) : Below p q :=
  Prod.lex_def.mpr (.inl h)

theorem Below.of_snd {p q : Phase} (h : (rank p).1 = (rank q).1) (h' : (rank p).2 < (rank q).2) :
    Below p q := Prod.lex_def.mpr (.inr ⟨h, h'⟩)

theorem below_wf : WellFounded fun k l : Worker => Below k.phase l.phase :=
  InvImage.wf (fun k : Worker => rank k.phase)
    (WellFounded.prod_lex Nat.lt_wfRel.wf Nat.lt_wfRel.wf)

theorem awaits_afterClaim (tenantId : String) (task : TaskRow) (version : ℕ) :
    awaits (afterClaim tenantId task version) < 4 := by
  unfold afterClaim
  split_ifs <;> simp [awaits]

theorem childStep_awaits (cfg : Config) (tenantId ritmId : String) (inp : ChildInput) (w : World)
    (c : Child) : (childStep cfg tenantId ritmId inp w c).2 = c ∨
      awaits (childStep cfg tenantId ritmId inp w c).2 < awaits c := by
  unfold childStep
  split
  · split
    · exact .inr (by simp [awaits])
    · exact .inr (awaits_afterClaim ..)
  · split <;> exact .inr (by simp [awaits])
  · split <;> exact .inr (by simp [awaits])
  · exact .inr (by simp [awaits])
  · exact .inr (by simp [awaits])
  · exact .inr (by simp [awaits])
  · exact .inr (by simp [awaits])
  · exact .inl rfl
  · cases c
    case finished s => exact .inl (by simp_all)
    case raised => exact .inl rfl
    all_goals exact .inr (by simp [awaits])
  · exact .inl rfl

theorem sum_awaits_set {c d : Child} (h : awaits d < awaits c) :
    ∀ {children : List Child} {j : ℕ}, children[j]? = some c →
      ((children.set j d).map awaits).sum < (children.map awaits).sum := by
  intro children
  induction children with
  | nil => intro j hc; cases hc
  | cons e children ih =>
    intro j hc
    cases j with
    | zero =>
      cases hc
      simp only [List.set_cons_zero, List.map_cons, List.sum_cons]
      omega
    | succ j =>
      have := ih (j := j) hc
      simp only [List.set_cons_succ, List.map_cons, List.sum_cons]
      omega

theorem rank_report (k : Worker) (ritm : RitmRow) (o : FulfillmentOutcome) (run : Option String)
    (tasks : List TaskRow) (display : String) :
    rank (report k ritm o run tasks display) = (0, 0) := by
  unfold report
  split <;> rfl

theorem below_report {p : Phase} (h : 0 < (rank p).1) (k : Worker) (ritm : RitmRow)
    (o : FulfillmentOutcome) (run : Option String) (tasks : List TaskRow) (display : String) :
    Below (report k ritm o run tasks display) p :=
  .of_fst (by rw [rank_report]; exact h)

theorem rank_decideWave (wave : ℕ) (tasks : List TaskRow) :
    (rank (decideWave wave tasks)).1 ≤ wavesLeft wave + 7 := by
  unfold decideWave
  split
  · simp only [rank]; omega
  · split_ifs
    · simp only [rank]; omega
    · simp only [rank]; omega

theorem rank_nextWave (wave : ℕ) : (rank (nextWave wave)).1 < wavesLeft wave + 7 := by
  unfold nextWave
  split_ifs with h
  · simp only [rank, wavesLeft]; omega
  · simp only [rank]; omega

/-- A statement of the main coroutine leaves the call where it is only while `gather` waits
for children, and once the call has ended. -/
def Stays : Phase → Prop
  | .running _ children => children.all Child.ended = false
  | .returned _ | .raised _ => True
  | _ => False

theorem mainStep_rank (cfg : Config) (w : World) (k : Worker) :
    Below (mainStep cfg w k).2 k.phase ∨ (mainStep cfg w k).2 = k.phase ∧ Stays k.phase := by
  unfold mainStep
  split
  all_goals rename_i hp; try rw [hp]
  · exact .inl (.of_fst (by simp [rank]))
  · split
    · exact .inl (.of_fst (by simp [rank]))
    · dsimp only
      split_ifs
      · exact .inl (.of_fst (by simp [rank]))
      · exact .inl (.of_fst (by simp [rank]))
  · exact .inl (.of_fst (by simp [rank]))
  · exact .inl (.of_fst (by simp [rank]))
  · refine .inl (.of_fst ?_)
    dsimp only
    split_ifs
    · exact Nat.lt_of_le_of_lt (rank_decideWave ..) (by simp [rank])
    · simp [rank]
  · exact .inl (.of_fst (by simp [rank]))
  · exact .inl (.of_snd rfl (by simp [rank]))
  · exact .inl (.of_fst (Nat.lt_of_le_of_lt (rank_decideWave ..) (by simp [rank])))
  · dsimp only
    split_ifs with h
    · exact .inl (.of_fst (rank_nextWave _))
    · exact .inr ⟨rfl, Bool.eq_false_iff.mpr h⟩
  · split
    · exact .inl (.of_fst (by simp [rank]))
    · dsimp only
      split_ifs
      · exact .inl (.of_fst (by simp [rank]))
      · exact .inl (.of_fst (by simp [rank]))
  · exact .inl (.of_fst (by simp [rank]))
  · exact .inl (.of_fst (by simp [rank]))
  · split
    · exact .inl (below_report (by simp [rank]) ..)
    · exact .inl (.of_fst (by simp [rank]))
  · split
    · exact .inl (.of_fst (by simp [rank]))
    · exact .inl (below_report (by simp [rank]) ..)
  · exact .inl (.of_fst (by simp [rank]))
  · exact .inl (.of_fst (by simp [rank]))
  · exact .inl (.of_fst (by simp [rank]))
  · exact .inl (below_report (by simp [rank]) ..)
  · exact .inr ⟨rfl, trivial⟩
  · exact .inr ⟨rfl, trivial⟩

theorem workerStep_rank (cfg : Config) (inp : WorkerInput) (w : World) (k : Worker) :
    (workerStep cfg inp w k).2 = k ∨ Below (workerStep cfg inp w k).2.phase k.phase := by
  cases workerActs cfg w k inp with
  | main =>
    rcases mainStep_rank cfg w k with h | ⟨h, _⟩
    · exact .inr h
    · exact .inl (congrArg (Worker.mk k.tenantId k.ritmId) h)
  | child j ci wave children c hp hc =>
    rw [workerStep_child hp hc]
    rcases childStep_awaits cfg k.tenantId k.ritmId ci w c with h | h
    · obtain ⟨hj, rfl⟩ := List.getElem?_eq_some_iff.mp hc
      refine .inl ?_
      rw [h, List.set_getElem_self hj, ← hp]
    · rw [hp]
      exact .inr (.of_snd rfl (sum_awaits_set h hc))
  | idle inp h => rw [h]; exact .inl rfl

/-- The call reaches its next await again and again until it has ended: statements return,
and an adapter call is answered or runs into its timeout. -/
def FairCall (f : ℕ → World × Worker) : Prop :=
  Fair Prod.snd (fun k : Worker => ended k.phase = true) f

theorem call_ends {cfg : Config} {f : ℕ → World × Worker} (hf : Execution (Solo cfg) f)
    (hfair : FairCall f) : ∃ n, ended (f n).2.phase = true := by
  refine fair_done below_wf ?_ hf hfair
  rintro x y ⟨n, inp, rfl⟩
  exact workerStep_rank cfg inp (tick n x.1) x.2

theorem Below.ne {k l : Worker} (h : Below k.phase l.phase) : k ≠ l := by
  rintro rfl
  exact below_wf.irrefl.irrefl k h

theorem awaits_pos {c : Child} (h : c.ended = false) : 0 < awaits c := by
  cases c <;> simp_all [awaits, Child.ended]

theorem childStep_fault (cfg : Config) (tenantId ritmId : String) (w : World) {c : Child}
    (h : c.ended = false) : (childStep cfg tenantId ritmId .fault w c).2 = .raised := by
  cases c <;> first | rfl | cases h

/-- No await is a dead end: whatever the state, some input moves a call that has not ended. -/
theorem call_progress (cfg : Config) (w : World) (k : Worker) (he : ended k.phase = false) :
    ∃ inp, (workerStep cfg inp w k).2 ≠ k := by
  rcases mainStep_rank cfg w k with h | ⟨_, h⟩
  · exact ⟨.stmt, Below.ne h⟩
  · cases hp : k.phase with
    | running wave children =>
      rw [hp] at h
      obtain ⟨c, hc, hlive⟩ := List.all_eq_false.mp h
      have hlive : c.ended = false := Bool.eq_false_iff.mpr hlive
      obtain ⟨j, hj⟩ := List.getElem?_of_mem hc
      refine ⟨.child j .fault, Below.ne ?_⟩
      rw [workerStep_child hp hj, childStep_fault cfg k.tenantId k.ritmId w hlive, hp]
      exact .of_snd rfl (sum_awaits_set (d := .raised) (awaits_pos hlive) hj)
    | returned o => rw [hp] at he; cases he
    | raised e => rw [hp] at he; cases he
    | _ => rw [hp] at h; exact h.elim

/-- An input for a child that is not there leaves the call alone. -/
theorem worker_idle (cfg : Config) (w : World) (k : Worker) :
    ∃ j, workerStep cfg (.child j (.stmt "")) w k = (w, k) := by
  cases hp : k.phase with
  | running wave children => exact ⟨children.length, by simp [workerStep, hp]⟩
  | _ => exact ⟨0, by simp [workerStep, hp]⟩

theorem solo_idle (cfg : Config) (x : World × Worker) : Solo cfg x x := by
  obtain ⟨j, hj⟩ := worker_idle cfg x.1 x.2
  exact ⟨0, .child j (.stmt ""), hj.symm⟩

theorem exists_fairCall (cfg : Config) (x : World × Worker) :
    ∃ f, f 0 = x ∧ Execution (Solo cfg) f ∧ FairCall f := by
  refine exists_fair (solo_idle cfg) (fun y => ?_) x
  cases he : ended y.2.phase with
  | true => exact .inl rfl
  | false =>
    obtain ⟨inp, h⟩ := call_progress cfg (tick 0 y.1) y.2 he
    exact .inr ⟨_, ⟨0, inp, rfl⟩, h⟩

def played (cfg : Config) (x : World × Worker) (inps : List WorkerInput) (i : ℕ) : World × Worker :=
  soloPlay cfg x (inps.take i)

theorem played_all {cfg : Config} {x : World × Worker} {inps : List WorkerInput} {i : ℕ}
    (h : inps.length ≤ i) : played cfg x inps i = soloPlay cfg x inps := by
  rw [played, List.take_of_length_le h]

theorem played_step (cfg : Config) (x : World × Worker) (inps : List WorkerInput) (i : ℕ) :
    (∃ inp ∈ inps, played cfg x inps (i + 1) =
      workerStep cfg inp (played cfg x inps i).1 (played cfg x inps i).2) ∨
    played cfg x inps (i + 1) = played cfg x inps i := by
  rcases Nat.lt_or_ge i inps.length with h | h
  · refine .inl ⟨inps[i], List.getElem_mem h, ?_⟩
    simp only [played, soloPlay, List.take_add_one, List.getElem?_eq_getElem h, List.foldl_append]
    rfl
  · rw [played_all h, played_all (Nat.le_succ_of_le h)]
    exact .inr rfl

theorem played_execution (cfg : Config) (x : World × Worker) (inps : List WorkerInput) :
    Execution (Solo cfg) (played cfg x inps) := by
  intro i
  rcases played_step cfg x inps i with ⟨inp, _, h⟩ | h
  · exact ⟨0, inp, h⟩
  · rw [h]
    exact solo_idle cfg _

theorem played_fair {cfg : Config} {x : World × Worker} {inps : List WorkerInput}
    (h : ended (soloPlay cfg x inps).2.phase = true) : FairCall (played cfg x inps) := by
  refine fair_of_done (n := inps.length) fun i hi => ?_
  rw [played_all hi]
  exact h

end FulfillmentTermination
