import OneOps.FulfillmentTaskProtocol

/-! The lifecycle of a request item. Four writers share the row: the entry and the
finaliser of `execute_plan`, `compensate_ritm` and `decide_approval`. The first part says
what any step of the service does to a row; the second part adds the discipline under
which closed request items stay closed. -/
namespace FulfillmentLifecycle

open KeyedTable
open ProcessPool
open FulfillmentContracts
open FulfillmentDb
open FulfillmentPlanning
open FulfillmentInspection
open FulfillmentWorker
open FulfillmentSaga
open FulfillmentApproval
open FulfillmentSubmission
open FulfillmentSystem
open FulfillmentTaskProtocol

structure SameRitm (r r' : RitmRow) : Prop where
  tenantId : r'.tenantId = r.tenantId
  ritmId : r'.ritmId = r.ritmId
  requestId : r'.requestId = r.requestId
  catalogItemId : r'.catalogItemId = r.catalogItemId
  requestedFor : r'.requestedFor = r.requestedFor
  openedAt : r'.openedAt = r.openedAt
  totalTasks : r'.totalTasks = r.totalTasks
  idempotencyKey : r'.idempotencyKey = r.idempotencyKey

/-- The moves of the entry of `execute_plan`, of `decide_approval` and of
`compensate_ritm`; `cancelled` can come from any other state. -/
inductive Forward : RitmState → RitmState → Prop where
  | stay (s : RitmState) : Forward s s
  | start : Forward .requested .inProgress
  | approve : Forward .requested .approved
  | reject : Forward .requested .rejected
  | cancel (s : RitmState) (h : s ≠ .cancelled) : Forward s .cancelled

def Verdict (s : RitmState) : Prop := s = .fulfilled ∨ s = .failed

/-- The closing a worker carries never names `blocked`, and a saga only writes over a
request item it read as not cancelled. -/
def closingOf : Phase → Option Closing
  | .finalRead c => some c
  | .finalList c _ => some c
  | .finalWrite c _ => some c
  | .finalRun c _ => some c
  | .finalStamp c _ _ => some c
  | _ => none

def WriterWf : Proc → Prop
  | .execute k => ∀ c ∈ closingOf k.phase, c.outcome ≠ .blocked
  | .compensate k => ∀ ritm results, k.phase = .write ritm results → ritm.state ≠ .cancelled
  | _ => True

section Steps

variable {cfg : Config} {format : String → JsonObject → Except FormatError String}
  {tenantId ritmId : String} {w : World}

theorem childStep_ritm (cfg : Config) (tenantId ritmId : String) (w : World) (c : Child)
    (inp : ChildInput) :
    (childStep cfg tenantId ritmId inp w c).1.db.requestItem = w.db.requestItem := by
  unfold childStep
  split
  · split
    all_goals
      rename_i h
      exact congrArg (fun x => x.2.requestItem) h.symm
  · split
    · rfl
    · rename_i h
      obtain ⟨row, _, hrow⟩ := Option.bind_eq_some_iff.mp h
      exact (insertApproval_items hrow).requestItem
  · split <;> rfl
  all_goals rfl

/-- The two statements of the wave loop that write the request item. -/
theorem mainStep_ritm_cases (cfg : Config) (w : World) (k : Worker) :
    (mainStep cfg w k).1.db.requestItem = w.db.requestItem ∨
      (∃ v, k.phase = .startRitm v ∧
        (mainStep cfg w k).1.db = (transitionRitmState (startWrite k v) w.db).2) ∨
      ∃ c r, k.phase = .finalWrite c r ∧ r.state ≠ ritmStateOf c.outcome ∧
        (mainStep cfg w k).1.db = (transitionRitmState (closeWrite k c r) w.db).2 := by
  unfold mainStep
  split
  · exact .inl rfl
  · split <;> exact .inl rfl
  · rename_i v h
    exact .inr (.inl ⟨v, h, rfl⟩)
  · exact .inl rfl
  · exact .inl rfl
  · exact .inl rfl
  · exact .inl rfl
  · exact .inl rfl
  · exact .inl rfl
  · split <;> exact .inl rfl
  · exact .inl rfl
  · rename_i c r h
    dsimp only
    split_ifs with hs
    · exact .inl rfl
    · exact .inr (.inr ⟨c, r, h, hs, rfl⟩)
  · split <;> exact .inl rfl
  · split
    · exact .inl rfl
    · rename_i h
      exact .inl (finaliseRun_items h).requestItem
  all_goals exact .inl rfl

theorem sagaStep_ritm_cases (cfg : Config) (r : UndoResult) (db : Db) (k : Saga) :
    (sagaStep cfg r db k).1.requestItem = db.requestItem ∨
      ∃ ritm results, k.phase = .write ritm results ∧
        (sagaStep cfg r db k).1 = (transitionRitmState (cancelWrite k ritm) db).2 := by
  unfold sagaStep
  split
  · exact .inl rfl
  · exact .inl rfl
  · split <;> exact .inl rfl
  · split <;> exact .inl rfl
  · rename_i ritm results h
    exact .inr ⟨ritm, results, h, rfl⟩
  · exact .inl rfl
  · exact .inl rfl

/-- The transaction moves the request item of the decided approval, and that one only. -/
theorem decisionTransact_ritm_cases (db : Db) (d : Decision) (a : ApprovalRow) :
    (decisionTransact db d a).1.requestItem = db.requestItem ∨
      ∃ ap, db.approval.lookup (d.tenantId, d.approvalId) = some ap ∧
        (decisionTransact db d a).1.requestItem =
          (applyApprovalOutcome d.tenantId ap.ritmId
            (d.decision = "approved") db).2.requestItem := by
  unfold decisionTransact
  dsimp only
  split
  · rename_i h
    exact .inl (congrArg (fun x => x.2.requestItem) h.symm)
  · rename_i ritm db₁ h
    have h₁ : db₁.requestItem = db.requestItem := congrArg (fun x => x.2.requestItem) h.symm
    have h₂ : db₁.now = db.now := congrArg (fun x => x.2.now) h.symm
    obtain ⟨ap, hap, hritm⟩ := Option.map_eq_some_iff.mp (congrArg Prod.fst h)
    have hkey := List.find?_some hap
    simp only [pendingApproval, decide_eq_true_eq] at hkey
    refine .inr ⟨ap, Table.lookup_eq_some.mpr ⟨List.mem_of_find?_eq_some hap, ?_⟩, ?_⟩
    · simp [approvalKey, hkey.1, hkey.2.1]
    · subst hritm
      have hgoal : ∀ db₂ : Db, db₂.requestItem = db.requestItem → db₂.now = db.now →
          (applyApprovalOutcome d.tenantId ap.ritmId (d.decision = "approved") db₂).2.requestItem =
          (applyApprovalOutcome d.tenantId ap.ritmId
            (d.decision = "approved") db).2.requestItem := by
        intro db₂ hi hn
        simp only [applyApprovalOutcome, updateRitms, hi, hn]
      split
      · split
        · exact hgoal _ h₁ h₂
        · exact hgoal _ h₁ h₂
      · split
        · exact hgoal _ h₁ h₂
        · exact hgoal _ h₁ h₂

end Steps

theorem SameRitm.refl (r : RitmRow) : SameRitm r r := ⟨rfl, rfl, rfl, rfl, rfl, rfl, rfl, rfl⟩

/-- Every request item survives a step, moved forward or, under the keys `F`, by a
finaliser's verdict. -/
def RitmEvolves (F : String → String → Prop) (db db' : Db) : Prop :=
  ∀ t m r, getRitm t m db = some r → ∃ r', getRitm t m db' = some r' ∧ SameRitm r r' ∧
    (Forward r.state r'.state ∨ (F t m ∧ Verdict r'.state))

variable {F : String → String → Prop}

theorem evolves_of_rows {db db' : Db}
    (h : ∀ t m r, getRitm t m db = some r → getRitm t m db' = some r) : RitmEvolves F db db' :=
  fun t m r hr => ⟨r, h t m r hr, .refl r, .inl (.stay _)⟩

theorem evolves_of_same {db db' : Db} (h : db'.requestItem = db.requestItem) :
    RitmEvolves F db db' := by
  refine evolves_of_rows fun t m r hr => ?_
  rw [← hr]
  simp only [getRitm, h]

theorem evolves_transition {a : RitmTransition} {db db' : Db}
    (h : db' = (transitionRitmState a db).2)
    (hm : Forward a.fromState a.toState ∨ (F a.tenantId a.ritmId ∧ Verdict a.toState)) :
    RitmEvolves F db db' := by
  intro t m r hr
  rw [h, getRitm_transitionRitm, hr]
  refine ⟨_, rfl, ?_⟩
  dsimp only
  split
  · rename_i hmatch
    obtain ⟨hk, hs, _⟩ := RitmTransition.matches_iff.mp hmatch
    have hkey := (Table.key_of_lookup hr).symm.trans hk
    simp only [Prod.mk.injEq] at hkey
    refine ⟨⟨rfl, rfl, rfl, rfl, rfl, rfl, rfl, rfl⟩, ?_⟩
    rw [hs, hkey.1, hkey.2]
    exact hm
  · exact ⟨.refl r, .inl (.stay _)⟩

theorem evolves_approval {tenantId ritmId : String} {approved : Bool} {db db' : Db}
    (h : db'.requestItem = (applyApprovalOutcome tenantId ritmId approved db).2.requestItem) :
    RitmEvolves F db db' := by
  intro t m r hr
  have hget : getRitm t m db' =
      getRitm t m (applyApprovalOutcome tenantId ritmId approved db).2 := by
    simp only [getRitm, h]
  rw [hget, getRitm_applyApproval, hr]
  refine ⟨_, rfl, ?_⟩
  dsimp only
  split
  · rename_i hmatch
    simp only [approvalOutcomeMatches, decide_eq_true_eq] at hmatch
    refine ⟨⟨rfl, rfl, rfl, rfl, rfl, rfl, rfl, rfl⟩, ?_⟩
    rw [hmatch.2.2]
    cases approved
    · exact .inl .reject
    · exact .inl .approve
  · exact ⟨.refl r, .inl (.stay _)⟩

theorem evolves_park {tenantId ritmId : String} {g : ApprovalGateState} {db db₁ db' : Db}
    (h₁ : db₁.requestItem = db.requestItem)
    (h : db'.requestItem = (setRitmApprovalState tenantId ritmId g db₁).requestItem) :
    RitmEvolves F db db' := by
  intro t m r hr
  have hget : getRitm t m db' = getRitm t m (setRitmApprovalState tenantId ritmId g db₁) := by
    simp only [getRitm, h]
  have hr₁ : getRitm t m db₁ = some r := by
    rw [← hr]
    simp only [getRitm, h₁]
  rw [hget, getRitm_setApprovalState, hr₁]
  refine ⟨_, rfl, ?_⟩
  dsimp only
  split
  · exact ⟨⟨rfl, rfl, rfl, rfl, rfl, rfl, rfl, rfl⟩, .inl (.stay _)⟩
  · exact ⟨.refl r, .inl (.stay _)⟩

theorem evolves_insert {q : RitmRow} {hq : q.ritmId.length = 14} {db db' : Db}
    (h : insertRequestItem q hq db = .ok db') : RitmEvolves F db db' := by
  refine evolves_of_rows fun t m r hr => ?_
  have hins := (insertRequestItem_ok h).1
  obtain ⟨hmem, hk⟩ := Table.lookup_eq_some.mp hr
  have hne : ritmKey q ≠ (t, m) := by
    intro he
    exact (Table.insert_eq_some hins).2.1 (he ▸ hk ▸ List.mem_map_of_mem hmem)
  rw [getRitm, Table.lookup_insert hins, if_neg hne]
  exact hr

section Evolves

variable {cfg : Config} {format : String → JsonObject → Except FormatError String} {w : World}

theorem verdict_closeWrite {k : Worker} {c : Closing} {r : RitmRow} (hc : c.outcome ≠ .blocked) :
    Verdict (closeWrite k c r).toState := by
  simp only [closeWrite]
  cases ho : c.outcome with
  | fulfilled => exact .inl rfl
  | partialFailure => exact .inr rfl
  | failed => exact .inr rfl
  | blocked => exact absurd ho hc

def Finalises (p : Proc) (inp : Input) (t m : String) : Prop :=
  ∃ k c ritm, p = .execute k ∧ inp = .worker .stmt ∧ k.phase = .finalWrite c ritm ∧
    k.tenantId = t ∧ k.ritmId = m

theorem mainStep_evolves {k : Worker} (hk : WriterWf (.execute k)) :
    RitmEvolves (Finalises (.execute k) (.worker .stmt)) w.db (mainStep cfg w k).1.db := by
  rcases mainStep_ritm_cases cfg w k with h | ⟨v, _, h⟩ | ⟨c, r, hp, _, h⟩
  · exact evolves_of_same h
  · exact evolves_transition h (.inl .start)
  · have hc : c.outcome ≠ .blocked := hk c (by rw [hp]; rfl)
    exact evolves_transition h (.inr ⟨⟨k, c, r, rfl, rfl, hp, rfl, rfl⟩, verdict_closeWrite hc⟩)

theorem fulfilStep_evolves (req : FulfillmentRequest) (d : Draw) (db : Db) (p : FulfilPhase) :
    RitmEvolves F db (fulfilStep format req d db p).1 := by
  unfold fulfilStep
  split
  · exact evolves_of_same rfl
  · split <;> exact evolves_of_same rfl
  · split
    · exact evolves_of_same rfl
    · split <;> exact evolves_of_same rfl
  · split <;> exact evolves_of_same rfl
  · split
    · rename_i h
      exact evolves_insert h
    · exact evolves_of_same rfl
    · exact evolves_of_same rfl
  · exact evolves_of_same rfl
  · split
    · rename_i h
      exact evolves_of_same (insertTask_ok h).2.1
    · exact evolves_of_same rfl
    · exact evolves_of_same rfl
  · split
    · exact evolves_of_same rfl
    · rename_i h
      exact evolves_of_same (insertRun_items h).requestItem
  · exact evolves_of_same rfl
  · exact evolves_of_same rfl

theorem createStep_evolves (cc : CreateConfig) (a : CreateArgs) (inp : SubmitInput) (db : Db)
    (p : CreatePhase) : RitmEvolves F db (createStep format cc a inp db p).1 := by
  unfold createStep
  split
  · split
    · exact evolves_of_same rfl
    · split <;> exact evolves_of_same rfl
  · split
    · split
      · exact evolves_of_same rfl
      · rename_i h
        split <;> exact evolves_of_same (insertRequest_some h).2.1.requestItem
    · exact evolves_of_same rfl
  · exact evolves_of_same rfl
  · exact evolves_of_same rfl
  · exact fulfilStep_evolves _ _ _ _
  · split <;> exact evolves_of_same rfl
  · exact evolves_park rfl rfl
  · exact evolves_of_same rfl
  · split
    · exact evolves_of_same rfl
    · rename_i h
      exact evolves_park (insertApprovals_items h).requestItem rfl
  · exact evolves_of_same rfl
  · exact evolves_of_same rfl
  · exact evolves_of_same rfl

theorem procStep_evolves {p : Proc} (hp : WriterWf p) (inp : Input) :
    RitmEvolves (Finalises p inp) w.db (procStep cfg format inp w p).1.db := by
  cases acts cfg format w p inp with
  | main k => exact mainStep_evolves hp
  | child k j ci wave children c hph hc =>
    refine evolves_of_same ?_
    simp only [procStep, workerStep_child hph hc]
    exact childStep_ritm ..
  | saga k r =>
    rcases sagaStep_ritm_cases cfg r w.db k with h | ⟨ritm, results, hph, h⟩
    · exact evolves_of_same h
    · exact evolves_transition h (.inl (.cancel _ (hp ritm results hph)))
  | decision d =>
    show RitmEvolves _ w.db (decisionStep w.db d).1
    unfold decisionStep
    split
    · exact evolves_of_same rfl
    · rename_i a _
      rcases decisionTransact_ritm_cases w.db d a with h | ⟨_, _, h⟩
      · exact evolves_of_same h
      · exact evolves_approval h
    · exact evolves_of_same rfl
  | fulfil req q d => exact fulfilStep_evolves req d w.db q
  | create cc a q inp => exact createStep_evolves cc a inp w.db q
  | crash p h => rw [h]; exact evolves_of_same rfl
  | idle p inp h => rw [h]; exact evolves_of_same rfl

theorem closing_decideWave (wave : ℕ) (tasks : List TaskRow) :
    ∀ c ∈ closingOf (decideWave wave tasks), c.outcome ≠ .blocked := by
  unfold decideWave
  split
  · rename_i outcome h
    rintro c hc
    cases hc
    rintro rfl
    exact isTerminal_ne_blocked tasks h
  · split_ifs <;> simp [closingOf]

theorem closingOf_report (k : Worker) (ritm : RitmRow) (o : FulfillmentOutcome)
    (run : Option String) (tasks : List TaskRow) (display : String) :
    closingOf (report k ritm o run tasks display) = none := by
  unfold report
  split <;> rfl

theorem mainStep_writerWf {k : Worker} (hk : WriterWf (.execute k)) :
    ∀ c ∈ closingOf (mainStep cfg w k).2, c.outcome ≠ .blocked := by
  unfold mainStep
  split
  · simp [closingOf]
  · split
    · simp [closingOf]
    · dsimp only
      split <;> simp [closingOf]
  · simp [closingOf]
  · simp [closingOf]
  · dsimp only
    split
    · exact closing_decideWave _ _
    · simp [closingOf]
  · simp [closingOf]
  · simp [closingOf]
  · exact closing_decideWave _ _
  · dsimp only
    split
    · unfold nextWave
      split <;> simp [closingOf]
    · simp [closingOf]
  all_goals rename_i hp; simp only [WriterWf, hp, closingOf] at hk
  · split
    · simp [closingOf]
    · dsimp only
      split <;> exact hk
  · simpa [closingOf] using hk
  · exact hk
  · split
    · simp [closeReport, closingOf_report]
    · exact hk
  · split
    · simp [closingOf]
    · simp [closeReport, closingOf_report]
  · simp [closingOf]
  · simp [closingOf]
  · simp [closingOf]
  · simp [partialReport, closingOf_report]
  · simp [closingOf]
  · simp [closingOf]

theorem procStep_writerWf {p : Proc} (hp : WriterWf p) (inp : Input) :
    WriterWf (procStep cfg format inp w p).2 := by
  cases acts cfg format w p inp with
  | main k => exact mainStep_writerWf hp
  | child k j ci wave children c hph hc =>
    simp only [procStep, workerStep_child hph hc, WriterWf, closingOf]
    simp
  | saga k r =>
    intro ritm results h
    simp only [sagaStep] at h
    split at h
    · cases h
    · cases h
    · split at h <;> cases h
    · split at h
      · cases h
      · dsimp only at h
        split_ifs at h with hs
        cases h
        exact hs
    · cases h
    · cases h
    · cases h
  | decision d => trivial
  | fulfil req q d => trivial
  | create cc a q inp => trivial
  | crash p h => rw [h]; trivial
  | idle p inp h => rw [h]; exact hp

theorem entry_writerWf {p : Proc} (h : Entry p) : WriterWf p := by
  cases h with
  | execute t m => simp [WriterWf, closingOf]
  | contended t m => simp [WriterWf, closingOf]
  | compensate t m => intro ritm results h; cases h
  | decide d h => trivial
  | fulfil req => trivial
  | create cc a => trivial

end Evolves

section Service

variable (cfg : Config) (format : String → JsonObject → Except FormatError String) {s : Service}

def AllWriters (s : Service) : Prop := ∀ p ∈ s.procs, WriterWf p

def FinalisedBy (s : Service) (e : ServiceEvent) (t m : String) : Prop :=
  ∃ i inp p, e = .act i inp ∧ s.procs[i]? = some p ∧ Finalises p inp t m

theorem next_evolves (hs : AllWriters s) (e : ServiceEvent) :
    RitmEvolves (FinalisedBy s e) s.shared.db (next (service cfg format) s e).shared.db := by
  cases e with
  | spawn p => exact evolves_of_same rfl
  | env n => exact evolves_of_same rfl
  | act i inp =>
    cases hp : s.procs[i]? with
    | none => rw [next_idle hp]; exact evolves_of_same rfl
    | some p =>
      rw [next_act hp]
      intro t m r hr
      obtain ⟨r', hr', hsame, hmove⟩ :=
        procStep_evolves (hs p (List.mem_of_getElem? hp)) inp t m r hr
      exact ⟨r', hr', hsame, hmove.imp_right fun ⟨hf, hv⟩ => ⟨⟨i, inp, p, rfl, hp, hf⟩, hv⟩⟩

theorem next_writers {e : ServiceEvent} (hg : Admissible s e) (hs : AllWriters s) :
    AllWriters (next (service cfg format) s e) := by
  intro q hq
  cases e with
  | spawn p =>
    rcases List.mem_append.mp hq with hq | hq
    · exact hs q hq
    · rw [List.mem_singleton.mp hq]
      exact entry_writerWf (hg p rfl)
  | env n => exact hs q hq
  | act i inp =>
    cases hp : s.procs[i]? with
    | none => rw [next_idle hp] at hq; exact hs q hq
    | some p =>
      rw [next_act hp] at hq
      rcases List.mem_or_eq_of_mem_set hq with hq | rfl
      · exact hs q hq
      · exact procStep_writerWf (hs p (List.mem_of_getElem? hp)) inp

end Service

/-- Phases in which an `execute_plan` call may still write rows or issue calls. -/
def driving : Phase → Bool
  | .readRitm | .startRitm _ | .recover | .list _ | .cascade _ _ | .relist _ | .running _ _
  | .finalRead _ | .finalList _ _ | .finalWrite _ _ => true
  | _ => false

def drives : Proc → List (String × String)
  | .execute k => if driving k.phase then [(k.tenantId, k.ritmId)] else []
  | _ => []

def Driven (s : Service) (t m : String) : Prop := (t, m) ∈ held drives s.procs

def Shut (r : RitmRow) : Prop :=
  r.state = .cancelled ∨ r.state = .rejected ∨ r.approvalState = some .requested

def Operates : Proc → Prop
  | .execute _ | .compensate _ | .decide _ | .stopped => True
  | _ => False

/-- `execute_plan` starts on a request item only while it is not shut and no other call
drives it, a cancellation or a rejection commits only while none drives it, and no
cancellation commits over a rejected request item. -/
structure Disciplined (s : Service) (e : ServiceEvent) : Prop where
  admissible : Admissible s e
  scope : ∀ p, e = .spawn p → Operates p
  start : ∀ t m, e = .spawn (.execute ⟨t, m, .readRitm⟩) →
    ¬ Driven s t m ∧ ∀ r, getRitm t m s.shared.db = some r → ¬ Shut r
  cancel : ∀ (i : ℕ) (x : UndoResult) (k : Saga) ritm results, e = .act i (.saga x) →
    s.procs[i]? = some (.compensate k) → k.phase = .write ritm results →
    ¬ Driven s k.tenantId k.ritmId
  spares : ∀ (i : ℕ) (x : UndoResult) (k : Saga) ritm results, e = .act i (.saga x) →
    s.procs[i]? = some (.compensate k) → k.phase = .write ritm results →
    ∀ r, getRitm k.tenantId k.ritmId s.shared.db = some r → r.state ≠ .rejected
  reject : ∀ (i : ℕ) (d : Decision) (a ap : ApprovalRow), e = .act i .decision →
    s.procs[i]? = some (.decide d) → d.phase = .transact a → d.decision ≠ "approved" →
    getApproval d.tenantId d.approvalId s.shared.db = some ap → ¬ Driven s d.tenantId ap.ritmId

def AllSatisfied (db : Db) (t m : String) : Prop :=
  ∀ task ∈ listTasksForRitm t m db, Satisfied task.state

def RitmFulfilled (db : Db) (t m : String) : Prop :=
  ∃ r, getRitm t m db = some r ∧ r.state = .fulfilled

/-- A verdict `fulfilled` is backed by the rows, and no other verdict is carried over a
fulfilled request item. -/
def VerdictOk (db : Db) (t m : String) (c : Closing) : Prop :=
  (c.outcome = .fulfilled → AllSatisfied db t m) ∧
    (RitmFulfilled db t m → c.outcome = .fulfilled)

def DriverOk (db : Db) (t m : String) : Phase → Prop
  | .finalRead c => VerdictOk db t m c
  | .finalList c _ => VerdictOk db t m c
  | .finalWrite c _ => VerdictOk db t m c
  | .running _ _ => ¬ RitmFulfilled db t m
  | .cascade _ _ => ¬ RitmFulfilled db t m
  | .relist _ => ¬ RitmFulfilled db t m
  | _ => True

section Steps

variable {cfg : Config} {format : String → JsonObject → Except FormatError String} {w : World}

theorem childStep_keys (cfg : Config) (tenantId ritmId : String) (w : World) (c : Child)
    (inp : ChildInput) :
    (childStep cfg tenantId ritmId inp w c).1.db.task.rows.map taskKey =
      w.db.task.rows.map taskKey := by
  unfold childStep
  split
  · split
    all_goals
      rename_i h
      have hdb := congrArg (fun x => x.2.task.rows.map taskKey) h
      exact hdb.symm.trans (keys_transitionTask _ _)
  · split
    · rfl
    · rename_i h
      obtain ⟨row, _, hrow⟩ := Option.bind_eq_some_iff.mp h
      rw [(insertApproval_items hrow).task]
  · split <;> rfl
  · rfl
  · rfl
  · rfl
  · exact keys_transitionTask _ _
  all_goals rfl

theorem mainStep_keys (cfg : Config) (w : World) (k : Worker) :
    (mainStep cfg w k).1.db.task.rows.map taskKey = w.db.task.rows.map taskKey := by
  rcases mainStep_task_cases cfg w k with h | ⟨_, h⟩ | ⟨wave, x, todo, _, h⟩
  · rw [h]
  · rw [h]
    exact keys_recoverStuck ..
  · rw [h]
    exact keys_transitionTask ..

/-- The calls of the lifecycle insert no task. -/
theorem procStep_keys {p : Proc} (hp : Operates p) (inp : Input) :
    (procStep cfg format inp w p).1.db.task.rows.map taskKey = w.db.task.rows.map taskKey := by
  cases acts cfg format w p inp with
  | main k => exact mainStep_keys cfg w k
  | child k j ci wave children c hph hc =>
    simp only [procStep, workerStep_child hph hc]
    exact childStep_keys cfg k.tenantId k.ritmId w c ci
  | saga k r => exact congrArg (fun t => t.rows.map taskKey) (sagaStep_task r w.db k)
  | decision d => exact congrArg (fun t => t.rows.map taskKey) (decisionStep_task w.db d)
  | fulfil req q d => exact hp.elim
  | create cc a q inp => exact hp.elim
  | crash p h => rw [h]
  | idle p inp h => rw [h]

/-- Satisfied rows stay satisfied, and no row is added. -/
theorem allSatisfied_stable {db db' : Db} (hw : TaskWrite db db')
    (hkeys : db'.task.rows.map taskKey = db.task.rows.map taskKey) {t m : String}
    (h : AllSatisfied db t m) : AllSatisfied db' t m := by
  intro task' ht'
  obtain ⟨hmem', htenant, hritm⟩ := mem_listTasks.mp ht'
  have hin : taskKey task' ∈ db.task.rows.map taskKey := hkeys ▸ List.mem_map_of_mem hmem'
  obtain ⟨task, hmem, hkey⟩ := List.mem_map.mp hin
  obtain ⟨q, hq, hadv⟩ := taskWrite_row hw (Table.lookup_key hmem)
  rw [hkey, Table.lookup_key hmem'] at hq
  cases hq
  rcases hadv with rfl | hadv
  · exact h task' (mem_listTasks.mpr ⟨hmem, htenant, hritm⟩)
  · have hs := h task (mem_listTasks.mpr ⟨hmem, hadv.same.tenantId ▸ htenant,
      hadv.same.ritmId ▸ hritm⟩)
    have hno := not_absorbing_of_moves hadv.moves
    unfold Satisfied at hs
    unfold Absorbing at hno
    rcases hs with hs | hs <;> simp [hs] at hno

inductive RitmWrite (db : Db) : Proc → Input → Db → Prop where
  | keep {p : Proc} {inp : Input} {db' : Db} (h : db'.requestItem = db.requestItem) :
      RitmWrite db p inp db'
  | start {db' : Db} (k : Worker) (v : ℕ) (hp : k.phase = .startRitm v)
      (h : db' = (transitionRitmState (startWrite k v) db).2) :
      RitmWrite db (.execute k) (.worker .stmt) db'
  | close {db' : Db} (k : Worker) (c : Closing) (r : RitmRow) (hp : k.phase = .finalWrite c r)
      (h : db' = (transitionRitmState (closeWrite k c r) db).2) :
      RitmWrite db (.execute k) (.worker .stmt) db'
  | cancel {db' : Db} (k : Saga) (x : UndoResult) (r : RitmRow) (results : List Compensation)
      (hp : k.phase = .write r results)
      (h : db' = (transitionRitmState (cancelWrite k r) db).2) :
      RitmWrite db (.compensate k) (.saga x) db'
  | decide {db' : Db} (d : Decision) (a ap : ApprovalRow) (hp : d.phase = .transact a)
      (hap : getApproval d.tenantId d.approvalId db = some ap)
      (h : db'.requestItem =
        (applyApprovalOutcome d.tenantId ap.ritmId (d.decision = "approved") db).2.requestItem) :
      RitmWrite db (.decide d) .decision db'

theorem procStep_ritmWrite {p : Proc} (hp : Operates p) (inp : Input) :
    RitmWrite w.db p inp (procStep cfg format inp w p).1.db := by
  cases acts cfg format w p inp with
  | main k =>
    rcases mainStep_ritm_cases cfg w k with h | ⟨v, hph, h⟩ | ⟨c, r, hph, _, h⟩
    · exact .keep h
    · exact .start k v hph h
    · exact .close k c r hph h
  | child k j ci wave children c hph hc =>
    refine .keep ?_
    simp only [procStep, workerStep_child hph hc]
    exact childStep_ritm ..
  | saga k r =>
    rcases sagaStep_ritm_cases cfg r w.db k with h | ⟨ritm, results, hph, h⟩
    · exact .keep h
    · exact .cancel k r ritm results hph h
  | decision d =>
    cases hph : d.phase with
    | read => exact .keep (by simp [procStep, decisionStep, hph])
    | transact a =>
      have hdb : (procStep cfg format .decision w (.decide d)).1.db =
          (decisionTransact w.db d a).1 := by
        simp [procStep, decisionStep, hph]
      rcases decisionTransact_ritm_cases w.db d a with h | ⟨ap, hap, h⟩
      · exact .keep (hdb ▸ h)
      · exact .decide d a ap hph hap (hdb ▸ h)
    | returned o => exact .keep (by simp [procStep, decisionStep, hph])
  | fulfil req q d => exact hp.elim
  | create cc a q inp => exact hp.elim
  | crash p h => exact .keep (by rw [h])
  | idle p inp h => exact .keep (by rw [h])

theorem getRitm_congr {db db' : Db} (h : db'.requestItem = db.requestItem) (t m : String) :
    getRitm t m db' = getRitm t m db := by
  simp only [getRitm, h]

/-- A guarded UPDATE leaves the row or sets it, and sets it only under its own key. -/
theorem ritm_after {a : RitmTransition} {db : Db} {t m : String} {r' : RitmRow}
    (h : getRitm t m (transitionRitmState a db).2 = some r') :
    ∃ r, getRitm t m db = some r ∧
      (r' = r ∨ (r.state = a.fromState ∧ r' = a.set db.now r ∧ a.tenantId = t ∧ a.ritmId = m)) := by
  rw [getRitm_transitionRitm] at h
  obtain ⟨r, hr, rfl⟩ := Option.map_eq_some_iff.mp h
  refine ⟨r, hr, ?_⟩
  split
  · rename_i hm
    obtain ⟨hk, hs, _⟩ := RitmTransition.matches_iff.mp hm
    have hkey := (Table.key_of_lookup hr).symm.trans hk
    simp only [Prod.mk.injEq] at hkey
    exact .inr ⟨hs, rfl, hkey.1.symm, hkey.2.symm⟩
  · exact .inl rfl

theorem ritm_after_decision {tenantId ritmId : String} {approved : Bool} {db : Db}
    {t m : String} {r' : RitmRow}
    (h : getRitm t m (applyApprovalOutcome tenantId ritmId approved db).2 = some r') :
    ∃ r, getRitm t m db = some r ∧
      (r' = r ∨ (r' = approvalOutcomeSet approved db.now r ∧ tenantId = t ∧ ritmId = m)) := by
  rw [getRitm_applyApproval] at h
  obtain ⟨r, hr, rfl⟩ := Option.map_eq_some_iff.mp h
  refine ⟨r, hr, ?_⟩
  split
  · rename_i hm
    simp only [approvalOutcomeMatches, decide_eq_true_eq] at hm
    obtain ⟨ht, hm'⟩ := getRitm_key hr
    exact .inr ⟨rfl, hm.1.symm.trans ht, hm.2.1.symm.trans hm'⟩
  · exact .inl rfl

/-- What a step makes of the row of a request item: it stays, or its one writer sets it. -/
theorem RitmWrite.row {p : Proc} {inp : Input} {db db' : Db} (hw : RitmWrite db p inp db')
    {t m : String} {r' : RitmRow} (hr' : getRitm t m db' = some r') :
    ∃ r, getRitm t m db = some r ∧ (r' = r ∨
      (∃ k v, r' = (startWrite k v).set db.now r) ∨
      (∃ k c q, p = .execute k ∧ inp = .worker .stmt ∧ k.phase = .finalWrite c q ∧
        r' = (closeWrite k c q).set db.now r ∧ k.tenantId = t ∧ k.ritmId = m) ∨
      (∃ k x q results, p = .compensate k ∧ inp = .saga x ∧ k.phase = .write q results ∧
        r' = (cancelWrite k q).set db.now r ∧ k.tenantId = t ∧ k.ritmId = m) ∨
      ∃ d a ap, p = .decide d ∧ inp = .decision ∧ d.phase = .transact a ∧
        getApproval d.tenantId d.approvalId db = some ap ∧
        r' = approvalOutcomeSet (d.decision = "approved") db.now r ∧ d.tenantId = t ∧
        ap.ritmId = m) := by
  cases hw with
  | keep h => exact ⟨r', getRitm_congr h t m ▸ hr', .inl rfl⟩
  | start k v hp h =>
    subst h
    obtain ⟨r, hr, hset | ⟨_, hset, _⟩⟩ := ritm_after hr'
    · exact ⟨r, hr, .inl hset⟩
    · exact ⟨r, hr, .inr (.inl ⟨k, v, hset⟩)⟩
  | close k c q hp h =>
    subst h
    obtain ⟨r, hr, hset | ⟨_, hset, ht, hm⟩⟩ := ritm_after hr'
    · exact ⟨r, hr, .inl hset⟩
    · exact ⟨r, hr, .inr (.inr (.inl ⟨k, c, q, rfl, rfl, hp, hset, ht, hm⟩))⟩
  | cancel k x q results hp h =>
    subst h
    obtain ⟨r, hr, hset | ⟨_, hset, ht, hm⟩⟩ := ritm_after hr'
    · exact ⟨r, hr, .inl hset⟩
    · exact ⟨r, hr, .inr (.inr (.inr (.inl ⟨k, x, q, results, rfl, rfl, hp, hset, ht, hm⟩)))⟩
  | decide d a ap hp hap h =>
    obtain ⟨r, hr, hset | ⟨hset, ht, hm⟩⟩ :=
      ritm_after_decision ((getRitm_congr h t m).symm.trans hr')
    · exact ⟨r, hr, .inl hset⟩
    · exact ⟨r, hr, .inr (.inr (.inr (.inr ⟨d, a, ap, rfl, rfl, hp, hap, hset, ht, hm⟩)))⟩

theorem fulfilled_from {p : Proc} {inp : Input} {db db' : Db} (hw : RitmWrite db p inp db')
    {t m : String} (h : RitmFulfilled db' t m) :
    RitmFulfilled db t m ∨ ∃ k c r, p = .execute k ∧ inp = .worker .stmt ∧
      k.phase = .finalWrite c r ∧ c.outcome = .fulfilled ∧ k.tenantId = t ∧ k.ritmId = m := by
  obtain ⟨r', hr', hs'⟩ := h
  obtain ⟨r, hr, hset⟩ := hw.row hr'
  rcases hset with rfl | ⟨k, v, rfl⟩ | ⟨k, c, q, hp, hinp, hph, rfl, ht, hm⟩ |
    ⟨k, x, q, results, _, _, _, rfl, _⟩ | ⟨d, a, ap, _, _, _, _, rfl, _⟩
  · exact .inl ⟨r', hr, hs'⟩
  · cases hs'
  · refine .inr ⟨k, c, q, hp, hinp, hph, ?_, ht, hm⟩
    cases ho : c.outcome with
    | fulfilled => rfl
    | _ => simp [RitmTransition.set, closeWrite, ho, ritmStateOf] at hs'
  · cases hs'
  · simp only [approvalOutcomeSet] at hs'
    split_ifs at hs'

def ShutBy (db : Db) (p : Proc) (inp : Input) (t m : String) : Prop :=
  (∃ k x r results, p = .compensate k ∧ inp = .saga x ∧ k.phase = .write r results ∧
    k.tenantId = t ∧ k.ritmId = m) ∨
  ∃ d a ap, p = .decide d ∧ inp = .decision ∧ d.phase = .transact a ∧ d.decision ≠ "approved" ∧
    getApproval d.tenantId d.approvalId db = some ap ∧ d.tenantId = t ∧ ap.ritmId = m

theorem shut_from {p : Proc} {inp : Input} {db db' : Db} (hw : RitmWrite db p inp db')
    (hwf : WriterWf p) {t m : String} {r' : RitmRow} (hr' : getRitm t m db' = some r')
    (hs' : Shut r') : (∃ r, getRitm t m db = some r ∧ Shut r) ∨ ShutBy db p inp t m := by
  obtain ⟨r, hr, hset⟩ := hw.row hr'
  rcases hset with rfl | ⟨k, v, rfl⟩ | ⟨k, c, q, hp, _, hph, rfl, _⟩ |
    ⟨k, x, q, results, hp, hinp, hph, rfl, ht, hm⟩ | ⟨d, a, ap, hp, hinp, hph, hap, rfl, ht, hm⟩
  · exact .inl ⟨r', hr, hs'⟩
  · refine .inl ⟨r, hr, ?_⟩
    rcases hs' with h | h | h
    · cases h
    · cases h
    · exact .inr (.inr h)
  · subst hp
    refine .inl ⟨r, hr, ?_⟩
    have hv := verdict_closeWrite (k := k) (r := q) (hwf c (by rw [hph]; rfl))
    rcases hs' with h | h | h
    · rcases hv with hv | hv <;> simp [RitmTransition.set, hv] at h
    · rcases hv with hv | hv <;> simp [RitmTransition.set, hv] at h
    · exact .inr (.inr h)
  · exact .inr (.inl ⟨k, x, q, results, hp, hinp, hph, ht, hm⟩)
  · refine .inr (.inr ⟨d, a, ap, hp, hinp, hph, ?_, hap, ht, hm⟩)
    intro happ
    simp [Shut, approvalOutcomeSet, happ] at hs'

/-- Over rows that are all done or skipped there is nothing to cascade. -/
theorem blocked_nil_of_satisfied {tasks : List TaskRow} (h : ∀ t ∈ tasks, Satisfied t.state) :
    transitivelyBlockedTaskIds tasks = [] := by
  rw [List.eq_nil_iff_forall_not_mem]
  intro x hx
  obtain ⟨t, ht, _, hw, _⟩ := mem_transitivelyBlocked.mp hx
  have hs := h t ht
  unfold Satisfied at hs
  unfold Waiting at hw
  rcases hs with hs | hs <;> simp [hs] at hw

theorem driverOk_decideWave {db : Db} {t m : String} (wave : ℕ)
    (hset : RitmFulfilled db t m → AllSatisfied db t m) :
    DriverOk db t m (decideWave wave (listTasksForRitm t m db)) := by
  unfold decideWave
  split
  · rename_i outcome hterm
    refine ⟨?_, ?_⟩
    · intro h
      exact isTerminal_fulfilled.mp (hterm.trans (congrArg some h))
    · intro h
      exact Option.some.inj (hterm.symm.trans (isTerminal_fulfilled.mpr (hset h)))
  · rename_i hterm
    split_ifs
    · trivial
    · intro h
      rw [isTerminal_fulfilled.mpr (hset h)] at hterm
      cases hterm

theorem driverOk_report (db : Db) (t m : String) (k : Worker) (ritm : RitmRow)
    (o : FulfillmentOutcome) (run : Option String) (tasks : List TaskRow) (display : String) :
    DriverOk db t m (report k ritm o run tasks display) := by
  unfold report
  split <;> trivial

/-- A statement of the wave loop keeps its own driver consistent. -/
theorem mainStep_driverOk {k : Worker}
    (hset : RitmFulfilled w.db k.tenantId k.ritmId → AllSatisfied w.db k.tenantId k.ritmId)
    (hk : DriverOk w.db k.tenantId k.ritmId k.phase) :
    DriverOk (mainStep cfg w k).1.db k.tenantId k.ritmId (mainStep cfg w k).2 := by
  unfold mainStep
  split
  · trivial
  · split
    · trivial
    · dsimp only
      split <;> trivial
  · trivial
  · trivial
  · dsimp only
    split
    · exact driverOk_decideWave _ hset
    · rename_i hne
      intro h
      apply hne
      rw [blocked_nil_of_satisfied (hset h)]
      rfl
  all_goals rename_i hp; rw [hp] at hk
  · exact hk
  · rintro ⟨r, hr, hs⟩
    exact hk ⟨r, hr, hs⟩
  · exact driverOk_decideWave _ hset
  · dsimp only
    split
    · unfold nextWave
      split
      · trivial
      · exact ⟨fun h => (by cases h), fun h => absurd h hk⟩
    · exact hk
  · split
    · trivial
    · dsimp only
      split <;> exact hk
  · exact hk
  · trivial
  · split
    · exact driverOk_report ..
    · trivial
  · split
    · trivial
    · exact driverOk_report ..
  · trivial
  · trivial
  · trivial
  · exact driverOk_report ..
  · trivial
  · trivial

/-- Steps of others that add no verdict leave a driver consistent. -/
theorem driverOk_stable {db db' : Db} {t m : String} (hw : TaskWrite db db')
    (hkeys : db'.task.rows.map taskKey = db.task.rows.map taskKey)
    (hf : RitmFulfilled db' t m → RitmFulfilled db t m) {ph : Phase} (h : DriverOk db t m ph) :
    DriverOk db' t m ph := by
  have hv : ∀ c, VerdictOk db t m c → VerdictOk db' t m c := fun c hc =>
    ⟨fun ho => allSatisfied_stable hw hkeys (hc.1 ho), fun hful => hc.2 (hf hful)⟩
  cases ph with
  | finalRead c => exact hv c h
  | finalList c r => exact hv c h
  | finalWrite c r => exact hv c h
  | running wave children => exact fun hful => h (hf hful)
  | cascade wave todo => exact fun hful => h (hf hful)
  | relist wave => exact fun hful => h (hf hful)
  | _ => trivial

theorem driverOk_of_not_driving {db : Db} {t m : String} {ph : Phase} (h : driving ph = false) :
    DriverOk db t m ph := by
  cases ph <;> trivial

theorem not_driving_report (k : Worker) (ritm : RitmRow) (o : FulfillmentOutcome)
    (run : Option String) (tasks : List TaskRow) (display : String) :
    driving (report k ritm o run tasks display) = false := by
  unfold report
  split <;> rfl

theorem mainStep_driving {k : Worker} (h : driving k.phase = false) :
    driving (mainStep cfg w k).2 = false := by
  unfold mainStep
  split
  all_goals rename_i hp; rw [hp] at h
  · rfl
  any_goals cases h
  · split
    · exact not_driving_report ..
    · rfl
  · split
    · rfl
    · exact not_driving_report ..
  · rfl
  · rfl
  · rfl
  · exact not_driving_report ..
  · rfl
  · rfl

theorem procStep_drives (p : Proc) (inp : Input) (x : String × String) :
    (drives (procStep cfg format inp w p).2).count x ≤ (drives p).count x := by
  cases acts cfg format w p inp with
  | main k =>
    show (drives (.execute { k with phase := (mainStep cfg w k).2 })).count x ≤ _
    cases hd : driving k.phase with
    | true =>
      simp only [drives, hd, if_true]
      split <;> simp
    | false => simp [drives, mainStep_driving hd]
  | child k j ci wave children c hph hc =>
    simp only [procStep, workerStep_child hph hc, drives, hph, driving]
    exact Nat.le_refl _
  | saga k r => exact Nat.le_refl _
  | decision d => exact Nat.le_refl _
  | fulfil req q d => exact Nat.le_refl _
  | create cc a q inp => exact Nat.le_refl _
  | crash p h => simp [h, drives]
  | idle p inp h => rw [h]

theorem procStep_operates {p : Proc} (hp : Operates p) (inp : Input) :
    Operates (procStep cfg format inp w p).2 := by
  cases acts cfg format w p inp with
  | fulfil req q d => exact hp.elim
  | create cc a q inp => exact hp.elim
  | crash p h => rw [h]; trivial
  | idle p inp h => rw [h]; exact hp
  | _ => trivial

end Steps

structure LifecycleInvariant (s : Service) : Prop where
  wf : AllWf s
  writers : AllWriters s
  scope : ∀ p ∈ s.procs, Operates p
  one : ∀ x, (held drives s.procs).count x ≤ 1
  quiet : ∀ t m r, Driven s t m → getRitm t m s.shared.db = some r → ¬ Shut r
  settled : ∀ t m, RitmFulfilled s.shared.db t m → AllSatisfied s.shared.db t m
  drivers : ∀ (i : ℕ) (k : Worker), s.procs[i]? = some (.execute k) →
    DriverOk s.shared.db k.tenantId k.ritmId k.phase

/-- The service before any call, over request items as they were submitted. -/
structure Submitted (s : Service) : Prop where
  initial : Initial s
  requested : ∀ r ∈ s.shared.db.requestItem.rows, r.state = .requested

theorem submitted_invariant {s : Service} (h : Submitted s) : LifecycleInvariant s := by
  have hp := h.initial.procs
  refine ⟨by simp [AllWf, hp], by simp [AllWriters, hp], by simp [hp], by simp [held, hp], ?_, ?_,
    by simp [hp]⟩
  · intro t m r hd
    simp [Driven, held, hp] at hd
  · rintro t m ⟨r, hr, hs⟩
    have := h.requested r (Table.lookup_eq_some.mp hr).1
    simp [this] at hs

section Pool

variable {cfg : Config} {format : String → JsonObject → Except FormatError String} {s : Service}

theorem driven_of_mem {i : ℕ} {p : Proc} (hp : s.procs[i]? = some p) {t m : String}
    (h : (t, m) ∈ drives p) : Driven s t m :=
  List.mem_flatMap.mpr ⟨p, List.mem_of_getElem? hp, h⟩

theorem mem_drives {k : Worker} {t m : String} (hd : driving k.phase = true)
    (ht : k.tenantId = t) (hm : k.ritmId = m) : (t, m) ∈ drives (.execute k) := by
  simp [drives, hd, ht, hm]

theorem act_lifecycle (hs : LifecycleInvariant s) {i : ℕ} {p : Proc} {inp : Input}
    (hp : s.procs[i]? = some p) (hg : Disciplined s (.act i inp)) :
    LifecycleInvariant (next (service cfg format) s (.act i inp)) := by
  have hmem := List.mem_of_getElem? hp
  have hop := hs.scope p hmem
  have hwf := next_wf cfg format hg.admissible hs.wf
  have hwr := next_writers cfg format hg.admissible hs.writers
  have htask : TaskWrite s.shared.db (procStep cfg format inp s.shared p).1.db :=
    procStep_task (hs.wf p hmem) inp
  have hkeys : (procStep cfg format inp s.shared p).1.db.task.rows.map taskKey =
      s.shared.db.task.rows.map taskKey := procStep_keys hop inp
  have hritm : RitmWrite s.shared.db p inp (procStep cfg format inp s.shared p).1.db :=
    procStep_ritmWrite hop inp
  have hcount : ∀ x, (held drives (s.procs.set i (procStep cfg format inp s.shared p).2)).count x ≤
      (held drives s.procs).count x := by
    intro x
    have h₁ : (drives (procStep cfg format inp s.shared p).2).count x ≤ (drives p).count x :=
      procStep_drives p inp x
    have h₂ := count_held_set drives x hp (procStep cfg format inp s.shared p).2
    omega
  rw [next_act hp] at hwf hwr ⊢
  refine ⟨hwf, hwr, ?_, fun x => (hcount x).trans (hs.one x), ?_, ?_, ?_⟩
  · intro q hq
    rcases List.mem_or_eq_of_mem_set hq with hq | rfl
    · exact hs.scope q hq
    · exact procStep_operates hop inp
  · intro t m r' hd hr' hshut
    have hdriven : Driven s t m :=
      List.count_pos_iff.mp (Nat.lt_of_lt_of_le (List.count_pos_iff.mpr hd) (hcount _))
    rcases shut_from hritm (hs.writers p hmem) hr' hshut with ⟨r, hr, hr₂⟩ |
      ⟨k, x, r, results, rfl, rfl, hph, rfl, rfl⟩ | ⟨d, a, ap, rfl, rfl, hph, hdec, hap, rfl, rfl⟩
    · exact hs.quiet t m r hdriven hr hr₂
    · exact hg.cancel i x k r results rfl hp hph hdriven
    · exact hg.reject i d a ap rfl hp hph hdec hap hdriven
  · intro t m hful
    refine allSatisfied_stable htask hkeys ?_
    rcases fulfilled_from hritm hful with h | ⟨k, c, r, rfl, _, hph, ho, rfl, rfl⟩
    · exact hs.settled t m h
    · have := hs.drivers i k hp
      rw [hph] at this
      exact this.1 ho
  · intro j k hset
    rcases getElem?_set_cases hset with ⟨rfl, hkk⟩ | ⟨hij, hk⟩
    · cases acts cfg format s.shared p inp with
      | main k₀ =>
        cases hkk
        exact mainStep_driverOk (hs.settled _ _) (hs.drivers i k₀ hp)
      | child k₀ j ci wave children c hph hc =>
        have hpr : (service cfg format).step (.worker (.child j ci)) s.shared (.execute k₀) =
            procStep cfg format (.worker (.child j ci)) s.shared (.execute k₀) := rfl
        rw [hpr] at hkk ⊢
        simp only [procStep, workerStep_child hph hc] at hkk ⊢
        cases hkk
        have hold := hs.drivers i k₀ hp
        rw [hph] at hold
        rintro ⟨r, hr, hst⟩
        exact hold ⟨r, (getRitm_congr (childStep_ritm ..) _ _).symm.trans hr, hst⟩
      | saga k r => cases hkk
      | decision d => cases hkk
      | fulfil req q d => cases hkk
      | create cc a q inp => cases hkk
      | crash p h =>
        simp only [service, h] at hkk
        cases hkk
      | idle p inp h =>
        simp only [service, h] at hkk ⊢
        subst hkk
        exact hs.drivers i k hp
    · cases hd : driving k.phase with
      | false => exact driverOk_of_not_driving hd
      | true =>
        refine driverOk_stable htask hkeys ?_ (hs.drivers j k hk)
        intro hful
        rcases fulfilled_from hritm hful with h | ⟨k₂, c, r, rfl, _, hph, _, ht, hm⟩
        · exact h
        · have h₂ : (k.tenantId, k.ritmId) ∈ drives (.execute k₂) :=
            mem_drives (by rw [hph]; rfl) ht hm
          exact absurd (holder_unique drives (hs.one _) hp hk h₂ (mem_drives hd rfl rfl)) hij

theorem next_lifecycle (hs : LifecycleInvariant s) {e : ServiceEvent} (hg : Disciplined s e) :
    LifecycleInvariant (next (service cfg format) s e) := by
  have hwf := next_wf cfg format hg.admissible hs.wf
  have hwr := next_writers cfg format hg.admissible hs.writers
  cases e with
  | env n => exact ⟨hwf, hwr, hs.scope, hs.one, hs.quiet, hs.settled, hs.drivers⟩
  | act i inp =>
    cases hp : s.procs[i]? with
    | none => rw [next_idle hp]; exact hs
    | some p => exact act_lifecycle hs hp hg
  | spawn p =>
    have hcount : ∀ x, (held drives (s.procs ++ [p])).count x =
        (held drives s.procs).count x + (drives p).count x :=
      fun x => count_held_append drives x s.procs p
    -- only the lock holder of a fresh call drives, and its request item is free and not shut
    have hnew : ∀ x ∈ drives p, ¬ Driven s x.1 x.2 ∧
        (drives p).count x ≤ 1 ∧ ∀ r, getRitm x.1 x.2 s.shared.db = some r → ¬ Shut r := by
      cases hg.admissible p rfl with
      | execute t m =>
        intro x hx
        have hx' : x = (t, m) := by simpa [drives, driving] using hx
        subst hx'
        exact ⟨(hg.start t m rfl).1, by simp [drives, driving], (hg.start t m rfl).2⟩
      | contended t m => intro x hx; simp [drives, driving] at hx
      | compensate t m => intro x hx; cases hx
      | decide d h => intro x hx; cases hx
      | fulfil req => intro x hx; cases hx
      | create cc a => intro x hx; cases hx
    refine ⟨hwf, hwr, ?_, ?_, ?_, hs.settled, ?_⟩
    · intro q hq
      rcases List.mem_append.mp hq with hq | hq
      · exact hs.scope q hq
      · rw [List.mem_singleton.mp hq]
        exact hg.scope p rfl
    · intro x
      have hold := hs.one x
      rw [next, hcount]
      by_cases hx : x ∈ drives p
      · have hzero : (held drives s.procs).count x = 0 :=
          List.count_eq_zero_of_not_mem (hnew x hx).1
        have := (hnew x hx).2.1
        omega
      · rw [List.count_eq_zero_of_not_mem hx]
        exact hold
    · intro t m r hd hr
      rcases List.mem_flatMap.mp hd with ⟨q, hq, hqx⟩
      rcases List.mem_append.mp hq with hq | hq
      · exact hs.quiet t m r (List.mem_flatMap.mpr ⟨q, hq, hqx⟩) hr
      · rw [List.mem_singleton.mp hq] at hqx
        exact (hnew (t, m) hqx).2.2 r hr
    · intro j k hk
      rcases Nat.lt_or_ge j s.procs.length with hlt | hge
      · rw [next, List.getElem?_append_left hlt] at hk
        exact hs.drivers j k hk
      · rw [next, List.getElem?_append_right hge] at hk
        have hpk : .execute k = p := by simpa using List.mem_of_getElem? hk
        subst hpk
        cases hg.admissible _ rfl <;> trivial

theorem Forward.of_cancelled {x : RitmState} (h : Forward .cancelled x) : x = .cancelled := by
  cases h <;> rfl

theorem Forward.of_fulfilled {x : RitmState} (h : Forward .fulfilled x) :
    x = .fulfilled ∨ x = .cancelled := by
  cases h <;> simp

structure StaysClosed (x y : RitmState) : Prop where
  cancelled : x = .cancelled → y = .cancelled
  rejected : x = .rejected → y = .rejected
  fulfilled : x = .fulfilled → y = .fulfilled ∨ y = .cancelled

theorem StaysClosed.trans {x y z : RitmState} (h : StaysClosed x y) (h' : StaysClosed y z) :
    StaysClosed x z := by
  refine ⟨fun hx => h'.cancelled (h.cancelled hx), fun hx => h'.rejected (h.rejected hx), ?_⟩
  · intro hx
    rcases h.fulfilled hx with hy | hy
    · exact h'.fulfilled hy
    · exact .inr (h'.cancelled hy)

/-- A driver over a fulfilled request item can only confirm it. -/
theorem fulfilled_confirmed (hs : LifecycleInvariant s) {i : ℕ} {p : Proc} {inp : Input}
    (hp : s.procs[i]? = some p) {t m : String} {r r' : RitmRow}
    (hr : getRitm t m s.shared.db = some r) (hst : r.state = .fulfilled)
    (hf : Finalises p inp t m)
    (hr' : getRitm t m (procStep cfg format inp s.shared p).1.db = some r') :
    r'.state = .fulfilled := by
  obtain ⟨k, c, ritm, rfl, rfl, hph, rfl, rfl⟩ := hf
  have hok := hs.drivers i k hp
  rw [hph] at hok
  have ho : c.outcome = .fulfilled := hok.2 ⟨r, hr, hst⟩
  have hmain : getRitm k.tenantId k.ritmId (mainStep cfg s.shared k).1.db = some r' := hr'
  rcases mainStep_ritm_cases cfg s.shared k with h | ⟨v, hv, _⟩ | ⟨c', q, hc, _, h⟩
  · rw [getRitm_congr h, hr] at hmain
    cases hmain
    exact hst
  · rw [hph] at hv
    cases hv
  · rw [hph] at hc
    cases hc
    rw [h] at hmain
    obtain ⟨r₀, hr₀, rfl | ⟨_, rfl, _⟩⟩ := ritm_after hmain
    · rw [hr] at hr₀
      cases hr₀
      exact hst
    · simp [RitmTransition.set, closeWrite, ho, ritmStateOf]

/-- A rejected request item is not driven, and no cancellation is written over it. -/
theorem rejected_stays (hs : LifecycleInvariant s) {e : ServiceEvent} (hg : Disciplined s e)
    {t m : String} {r r' : RitmRow} (hr : getRitm t m s.shared.db = some r)
    (hr' : getRitm t m (next (service cfg format) s e).shared.db = some r')
    (hforward : Forward r.state r'.state) (hst : r.state = .rejected) : r'.state = .rejected := by
  have hsame : getRitm t m s.shared.db = some r' → r'.state = .rejected := by
    intro h
    rw [hr] at h
    cases h
    exact hst
  cases e with
  | spawn p => exact hsame hr'
  | env o => exact hsame hr'
  | act i inp =>
    cases hp : s.procs[i]? with
    | none =>
      rw [next_idle hp] at hr'
      exact hsame hr'
    | some p =>
      rw [next_act hp] at hr'
      have hw : RitmWrite s.shared.db p inp (procStep cfg format inp s.shared p).1.db :=
        procStep_ritmWrite (hs.scope p (List.mem_of_getElem? hp)) inp
      obtain ⟨q, hq, hset⟩ := hw.row hr'
      rw [hr] at hq
      cases hq
      -- among the writers only a cancellation moves the row forward from `rejected`
      rw [hst] at hforward
      rcases hset with rfl | ⟨k, v, rfl⟩ | ⟨k, c, q, rfl, _, hph, rfl, ht, hm⟩ |
        ⟨k, x, q, results, rfl, rfl, hph, _, rfl, rfl⟩ | ⟨d, a, ap, _, _, _, _, rfl, _⟩
      · exact hst
      · cases hforward
      · have hdriven := driven_of_mem hp (mem_drives (by rw [hph]; rfl) ht hm)
        exact absurd (.inr (.inl hst)) (hs.quiet t m r hdriven hr)
      · exact absurd hst (hg.spares i x k q results rfl hp hph r hr)
      · simp only [approvalOutcomeSet] at hforward ⊢
        split_ifs at hforward ⊢
        · cases hforward
        · rfl

theorem next_staysClosed (hs : LifecycleInvariant s) {e : ServiceEvent} (hg : Disciplined s e)
    {t m : String} {r : RitmRow} (hr : getRitm t m s.shared.db = some r) :
    ∃ r', getRitm t m (next (service cfg format) s e).shared.db = some r' ∧
      StaysClosed r.state r'.state := by
  obtain ⟨r', hr', _, hmove⟩ := next_evolves cfg format hs.writers e t m r hr
  refine ⟨r', hr', ?_⟩
  rcases hmove with hmove | ⟨⟨i, inp, p, rfl, hp, hf⟩, _⟩
  · exact ⟨fun h => (h ▸ hmove).of_cancelled, rejected_stays hs hg hr hr' hmove,
      fun h => (h ▸ hmove).of_fulfilled⟩
  · have hdriven : Driven s t m := by
      obtain ⟨k, c, ritm, rfl, _, hph, ht, hm⟩ := hf
      exact driven_of_mem hp (mem_drives (by rw [hph]; rfl) ht hm)
    have hopen := hs.quiet t m r hdriven hr
    refine ⟨fun h => absurd (.inl h) hopen, fun h => absurd (.inr (.inl h)) hopen, ?_⟩
    intro h
    rw [next_act hp] at hr'
    exact .inl (fulfilled_confirmed hs hp hr h hf hr')

theorem childStep_calls (cfg : Config) (tenantId ritmId : String) (w : World) (c : Child)
    (inp : ChildInput) :
    (childStep cfg tenantId ritmId inp w c).1.calls = w.calls ∨
      ∃ x : IssuedCall, (childStep cfg tenantId ritmId inp w c).1.calls = w.calls ++ [x] ∧
        x.call.tenantId = tenantId ∧ x.call.ritmId = ritmId := by
  unfold childStep
  split
  · split <;> exact .inl rfl
  · split <;> exact .inl rfl
  · split
    · exact .inr ⟨_, rfl, rfl, rfl⟩
    · exact .inl rfl
  all_goals exact .inl rfl

/-- Adapter calls are issued by driving workers, for the request item they drive. -/
theorem next_calls (cfg : Config) (format : String → JsonObject → Except FormatError String)
    (s : Service) (e : ServiceEvent) :
    (next (service cfg format) s e).shared.calls = s.shared.calls ∨
      ∃ x : IssuedCall, (next (service cfg format) s e).shared.calls = s.shared.calls ++ [x] ∧
        Driven s x.call.tenantId x.call.ritmId := by
  cases e with
  | spawn p => exact .inl rfl
  | env n => exact .inl rfl
  | act i inp =>
    cases hp : s.procs[i]? with
    | none => rw [next_idle hp]; exact .inl rfl
    | some p =>
      rw [next_act hp]
      show (procStep cfg format inp s.shared p).1.calls = _ ∨
        ∃ x, (procStep cfg format inp s.shared p).1.calls = _ ∧ _
      cases acts cfg format s.shared p inp with
      | main k => exact .inl (mainStep_logs cfg s.shared k).2.1
      | child k j ci wave children c hph hc =>
        simp only [procStep, workerStep_child hph hc]
        rcases childStep_calls cfg k.tenantId k.ritmId s.shared c ci with h | ⟨x, h, ht, hm⟩
        · exact .inl h
        · exact .inr ⟨x, h, driven_of_mem hp (mem_drives (by rw [hph]; rfl) ht.symm hm.symm)⟩
      | saga k r => exact .inl rfl
      | decision d => exact .inl rfl
      | fulfil req q d => exact .inl rfl
      | create cc a q inp => exact .inl rfl
      | crash p h => rw [h]; exact .inl rfl
      | idle p inp h => rw [h]; exact .inl rfl

theorem run_lifecycle {t : Service} (h : Run (service cfg format) Disciplined s t)
    (hs : LifecycleInvariant s) : LifecycleInvariant t :=
  h.invariant hs fun _ _ hg hi => next_lifecycle hi hg

theorem run_staysClosed {t : Service} (h : Run (service cfg format) Disciplined s t)
    (hs : LifecycleInvariant s) {a b : String} {r : RitmRow}
    (hr : getRitm a b s.shared.db = some r) :
    ∃ r', getRitm a b t.shared.db = some r' ∧ StaysClosed r.state r'.state := by
  induction h with
  | refl => exact ⟨r, hr, fun h => h, fun h => h, .inl⟩
  | tail hrun hstep ih =>
    obtain ⟨e, hg, rfl⟩ := hstep
    obtain ⟨q, hq, hclosed⟩ := ih
    obtain ⟨r', hr', hclosed'⟩ := next_staysClosed (run_lifecycle hrun hs) hg hq
    exact ⟨r', hr', hclosed.trans hclosed'⟩

theorem run_writers {t : Service} (h : Run (service cfg format) Admissible s t)
    (hs : AllWriters s) : AllWriters t :=
  h.invariant hs fun _ _ hg hi => next_writers cfg format hg hi

end Pool

/-- Over every interleaving a request item moves forward, to `cancelled` from any other
state, or by a verdict of the finaliser. In disciplined runs a cancelled or rejected request
item never changes, a fulfilled one can only be cancelled, and no adapter call is issued
while it is cancelled, rejected or parked. -/
theorem ritm_lifecycle (cfg : Config)
    (format : String → JsonObject → Except FormatError String) :
    (∀ s₀ s e, Initial s₀ → Run (service cfg format) Admissible s₀ s →
      RitmEvolves (FinalisedBy s e) s.shared.db (next (service cfg format) s e).shared.db) ∧
    ∀ s₀ s t, Submitted s₀ → Run (service cfg format) Disciplined s₀ s →
      Run (service cfg format) Disciplined s t →
      (∀ a b r, getRitm a b s.shared.db = some r →
        ∃ r', getRitm a b t.shared.db = some r' ∧ StaysClosed r.state r'.state) ∧
      ∀ e, (next (service cfg format) t e).shared.calls = t.shared.calls ∨
        ∃ x : IssuedCall, (next (service cfg format) t e).shared.calls = t.shared.calls ++ [x] ∧
          ∀ r, getRitm x.call.tenantId x.call.ritmId t.shared.db = some r → ¬ Shut r := by
  constructor
  · intro s₀ s e h₀ hs
    have hw : AllWriters s₀ := by simp [AllWriters, h₀.procs]
    exact next_evolves cfg format (run_writers hs hw) e
  · intro s₀ s t h₀ hs ht
    have inv := run_lifecycle hs (submitted_invariant h₀)
    refine ⟨fun a b r hr => run_staysClosed ht inv hr, fun e => ?_⟩
    have inv' := run_lifecycle ht inv
    exact (next_calls cfg format t e).imp_right fun ⟨x, hx, hd⟩ =>
      ⟨x, hx, fun r hr => inv'.quiet _ _ r hd hr⟩

def compensateOrder : ServiceEvent := .spawn (.compensate ⟨"t", "RITM0000000001", .list⟩)

def undo (i : ℕ) : ServiceEvent := .act i (.saga (.answer true))

def cancelOrder : List ServiceEvent := [compensateOrder, undo 0, undo 0, undo 0, undo 0]

theorem disciplined_undo {s : Service} {i : ℕ} (h : held drives s.procs = [])
    (hr : ∀ r ∈ s.shared.db.requestItem.rows, r.state ≠ .rejected) : Disciplined s (undo i) := by
  refine ⟨admissible_act, ?_, ?_, ?_, ?_, ?_⟩
  · intro p he
    cases he
  · intro t m he
    cases he
  · intro i' x k ritm results _ _ _ hd
    simp [Driven, h] at hd
  · intro i' x k ritm results _ _ _ r hrow
    exact hr r (Table.lookup_eq_some.mp hrow).1
  · intro i' d a ap he
    cases he

theorem disciplined_compensate {s : Service} : Disciplined s compensateOrder := by
  refine ⟨admissible_spawn (.compensate _ _), ?_, ?_, ?_, ?_, ?_⟩
  · intro p he
    cases he
    trivial
  · intro t m he
    cases he
  · intro i x k ritm results he
    cases he
  · intro i x k ritm results he
    cases he
  · intro i d a ap he
    cases he

theorem cancelOrder_admits :
    Admits (service sampleConfig plainFormat) Disciplined (quiet oneOrder) cancelOrder :=
  ⟨disciplined_compensate, disciplined_undo rfl (by decide), disciplined_undo rfl (by decide),
    disciplined_undo rfl (by decide), disciplined_undo rfl (by decide), trivial⟩

def stateOf (s : Service) : Option RitmState :=
  (getRitm "t" "RITM0000000001" s.shared.db).map (·.state)

theorem oneOrder_submitted : Submitted (quiet oneOrder) :=
  ⟨quiet_initial _, by decide⟩

theorem ritm_lifecycle_cancelled :
    stateOf (play (service sampleConfig plainFormat) (quiet oneOrder) cancelOrder) =
      some .cancelled ∧
    ∀ t, Run (service sampleConfig plainFormat) Disciplined
      (play (service sampleConfig plainFormat) (quiet oneOrder) cancelOrder) t →
      ∀ r, getRitm "t" "RITM0000000001" (play (service sampleConfig plainFormat) (quiet oneOrder)
        cancelOrder).shared.db = some r →
      ∃ r', getRitm "t" "RITM0000000001" t.shared.db = some r' ∧ StaysClosed r.state r'.state :=
  ⟨by decide, fun t ht r hr => ((ritm_lifecycle sampleConfig plainFormat).2 _ _ t
    oneOrder_submitted (run_play cancelOrder cancelOrder_admits) ht).1 _ _ r hr⟩

def parkedOrder : Db :=
  { sampleDb { sampleRitm .requested 1 with approvalState := some .requested }
      [sampleTask "a" .automated (some "order_hardware_asset") []]
      requestedOne_length oneTask_keys oneTask_alts (by decide) with
    approval := ⟨[⟨"t", "APP1", "RITM0000000001", none, "manager", "", "bob", .pending, none, none,
      1⟩], by decide, by decide⟩ }

def rejection : Decision := ⟨"t", "APP1", "rejected", "bob", none, .read⟩

def rejectOrder : List ServiceEvent :=
  [.spawn (.decide rejection), .act 0 .decision, .act 0 .decision]

def rejectThenCancel : List ServiceEvent :=
  rejectOrder ++ [compensateOrder, undo 1, undo 1, undo 1, undo 1]

def cancelThenCall : List ServiceEvent := cancelOrder ++
  [.spawn (.execute ⟨"t", "RITM0000000001", .readRitm⟩), execute 1, execute 1, execute 1,
    child 1 0 (.stmt ""), child 1 0 (.stmt "")]

def cancelThenExecute : List ServiceEvent := cancelThenCall ++
  [child 1 0 (.result (.answer ⟨true, none, none, none⟩)), child 1 0 (.stmt ""), execute 1,
    execute 1, execute 1, execute 1]

theorem rejectThenCancel_run : Run (service sampleConfig plainFormat) Admissible (quiet parkedOrder)
    (play (service sampleConfig plainFormat) (quiet parkedOrder) rejectThenCancel) := by
  refine run_play _ (admits_entries _ _ ?_)
  intro p hp
  simp only [rejectThenCancel, rejectOrder, compensateOrder, undo, List.cons_append,
    List.nil_append,
    List.mem_cons, Event.spawn.injEq, reduceCtorEq, or_false, false_or, List.not_mem_nil] at hp
  rcases hp with rfl | rfl
  · exact .decide rejection rfl
  · exact .compensate _ _

theorem cancelThenExecute_run : Run (service sampleConfig plainFormat) Admissible (quiet oneOrder)
    (play (service sampleConfig plainFormat) (quiet oneOrder) cancelThenExecute) := by
  refine run_play _ (admits_entries _ _ ?_)
  intro p hp
  simp only [cancelThenExecute, cancelThenCall, cancelOrder, compensateOrder, undo, execute, child,
    List.cons_append, List.nil_append, List.mem_cons, Event.spawn.injEq, reduceCtorEq, or_false,
    false_or, List.not_mem_nil] at hp
  rcases hp with rfl | rfl
  · exact .compensate _ _
  · exact .execute _ _

theorem closed_ritm_moves :
    (Submitted (quiet parkedOrder) ∧
    Run (service sampleConfig plainFormat) Admissible (quiet parkedOrder)
      (play (service sampleConfig plainFormat) (quiet parkedOrder) rejectThenCancel) ∧
    stateOf (play (service sampleConfig plainFormat) (quiet parkedOrder) rejectOrder) =
      some .rejected ∧
    stateOf (play (service sampleConfig plainFormat) (quiet parkedOrder) rejectThenCancel) =
      some .cancelled) ∧
    Submitted (quiet oneOrder) ∧
    Run (service sampleConfig plainFormat) Admissible (quiet oneOrder)
      (play (service sampleConfig plainFormat) (quiet oneOrder) cancelThenExecute) ∧
    stateOf (play (service sampleConfig plainFormat) (quiet oneOrder) cancelThenCall) =
      some .cancelled ∧
    (play (service sampleConfig plainFormat) (quiet oneOrder) cancelThenCall).shared.calls.length =
      1 ∧
    stateOf (play (service sampleConfig plainFormat) (quiet oneOrder) cancelThenExecute) =
      some .fulfilled :=
  ⟨⟨⟨quiet_initial _, by decide⟩, rejectThenCancel_run, by decide, by decide⟩,
    oneOrder_submitted, cancelThenExecute_run, by decide, by decide, by decide⟩

end FulfillmentLifecycle
