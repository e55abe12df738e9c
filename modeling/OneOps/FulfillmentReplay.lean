import OneOps.FulfillmentDuplicateGate

/-! Idempotent submission. Calls that repeat an idempotency key pass the duplicate gate
before the key is looked up, and the lookup is a read apart from the insert. -/
namespace FulfillmentReplay

open KeyedTable
open ProcessPool
open FulfillmentContracts
open FulfillmentDb
open FulfillmentPlanning
open FulfillmentWorker
open FulfillmentSubmission
open FulfillmentSystem
open FulfillmentTaskProtocol
open FulfillmentLifecycle
open FulfillmentDuplicateGate

def Keyed (db : Db) (t k m : String) : Prop :=
  ∃ r ∈ db.requestItem.rows, r.tenantId = t ∧ r.idempotencyKey = some k ∧ r.ritmId = m

theorem keyed_unique {db : Db} {t k : String} {r r' : RitmRow} (hr : r ∈ db.requestItem.rows)
    (hr' : r' ∈ db.requestItem.rows) (h : r.tenantId = t ∧ r.idempotencyKey = some k)
    (h' : r'.tenantId = t ∧ r'.idempotencyKey = some k) : r = r' := by
  have halt : ∀ q : RitmRow, q.tenantId = t ∧ q.idempotencyKey = some k →
      ritmAlt q = some (t, k) := by
    rintro q ⟨ht, hk⟩
    simp [ritmAlt, ht, hk]
  exact db.requestItem.eq_of_alt hr hr' (halt r h) (halt r' h')

theorem Keyed.unique {db : Db} {t k m m' : String} (h : Keyed db t k m) (h' : Keyed db t k m') :
    m = m' := by
  obtain ⟨r, hr, ht, hk, rfl⟩ := h
  obtain ⟨r', hr', ht', hk', rfl⟩ := h'
  rw [keyed_unique hr hr' ⟨ht, hk⟩ ⟨ht', hk'⟩]

theorem findRitmByKey_some {db : Db} {t k m : String} :
    findRitmByKey t k db = some m ↔ Keyed db t k m := by
  constructor
  · intro h
    obtain ⟨r, hr, rfl⟩ := Option.map_eq_some_iff.mp h
    have hp := List.find?_some hr
    simp only [decide_eq_true_eq] at hp
    exact ⟨r, List.mem_of_find?_eq_some hr, hp.1, hp.2, rfl⟩
  · intro h
    cases hf : findRitmByKey t k db with
    | none =>
      obtain ⟨r, hr, ht, hk, _⟩ := h
      rw [findRitmByKey, Option.map_eq_none_iff] at hf
      simpa [ht, hk] using List.find?_eq_none.mp hf r hr
    | some m' =>
      obtain ⟨r, hr, rfl⟩ := Option.map_eq_some_iff.mp hf
      have hp := List.find?_some hr
      simp only [decide_eq_true_eq] at hp
      rw [h.unique ⟨r, List.mem_of_find?_eq_some hr, hp.1, hp.2, rfl⟩]

theorem Keyed.getRitm {db : Db} {t k m : String} (h : Keyed db t k m) :
    (t, m) ∈ db.requestItem.rows.map ritmKey := by
  obtain ⟨r, hr, rfl, _, rfl⟩ := h
  exact List.mem_map_of_mem hr

def RequestKnown (db : Db) (req : FulfillmentRequest) : Prop :=
  (req.tenantId, req.requestId) ∈ db.request.rows.map requestKey

theorem requestExists_iff {db : Db} {t m : String} :
    requestExists t m db = true ↔ (t, m) ∈ db.request.rows.map requestKey := by
  rw [requestExists, Option.isSome_iff_ne_none, ne_eq, Table.lookup_eq_none, not_not]

def Plannable (format : String → JsonObject → Except FormatError String) (db : Db)
    (req : FulfillmentRequest) : Prop :=
  ∃ template plan, loadCatalogTemplate req.tenantId req.catalogItemId db = .ok template ∧
    materialisePlanFromTemplate format template req.requestVariables = .ok plan

/-- What every step of the service preserves of the tables a submission reads. -/
structure Survives (db db' : Db) : Prop where
  catalogItem : db'.catalogItem = db.catalogItem
  request : ∀ x ∈ db.request.rows.map requestKey, x ∈ db'.request.rows.map requestKey
  requestItem : RitmEvolves (fun _ _ => True) db db'

section Survives

variable {format : String → JsonObject → Except FormatError String} {db db' : Db}
  {req : FulfillmentRequest}

theorem Keyed.survives (h : Survives db db') {t k m : String} (hk : Keyed db t k m) :
    Keyed db' t k m := by
  obtain ⟨r, hr, rfl, hkey, rfl⟩ := hk
  obtain ⟨r', hr', hsame, _⟩ := h.requestItem r.tenantId r.ritmId r (Table.lookup_key hr)
  exact ⟨r', (Table.lookup_eq_some.mp hr').1, hsame.tenantId, hsame.idempotencyKey.trans hkey,
    hsame.ritmId⟩

theorem RequestKnown.survives (h : Survives db db') (hr : RequestKnown db req) :
    RequestKnown db' req := h.request _ hr

theorem Plannable.survives (h : Survives db db') (hp : Plannable format db req) :
    Plannable format db' req := by
  obtain ⟨template, plan, hload, hplan⟩ := hp
  refine ⟨template, plan, ?_, hplan⟩
  rw [← hload]
  simp only [loadCatalogTemplate, h.catalogItem]

end Survives

def beyondAssert : FulfilPhase → Bool
  | .assertRequest | .raised _ => false
  | _ => true

def beyondLoad : FulfilPhase → Bool
  | .assertRequest | .duplicateGate | .loadTemplate | .raised _ => false
  | _ => true

def itemOf : FulfilPhase → Option String
  | .insertTasks _ m _ _ => some m
  | .insertRun _ m _ => some m
  | .returned o => some o.ritmId
  | _ => none

structure Established (format : String → JsonObject → Except FormatError String) (db : Db)
    (req : FulfillmentRequest) (k : String) (q : FulfilPhase) : Prop where
  request : beyondAssert q = true → RequestKnown db req
  plan : beyondLoad q = true → Plannable format db req
  item : ∀ m, itemOf q = some m → Keyed db req.tenantId k m

def Carries (req : FulfillmentRequest) (k : String) : Prop :=
  req.idempotencyKey = some k ∧ k ≠ ""

theorem Carries.keyGiven {req : FulfillmentRequest} {k : String} (h : Carries req k) :
    keyGiven req = true := by
  simp [FulfillmentSubmission.keyGiven, h.1, h.2]

section Established

variable {format : String → JsonObject → Except FormatError String} {db db' : Db}
  {req : FulfillmentRequest} {k : String} {q : FulfilPhase}

theorem Established.survives (h : Survives db db') (hq : Established format db req k q) :
    Established format db' req k q :=
  ⟨fun hb => (hq.request hb).survives h, fun hb => (hq.plan hb).survives h,
    fun m hm => (hq.item m hm).survives h⟩

theorem established_raised (e : FulfillmentError) : Established format db req k (.raised e) :=
  ⟨fun h => (by cases h), fun h => (by cases h), fun _ h => (by cases h)⟩

theorem keyed_newRitm {plan : FulfillmentPlan} {d : Draw} (hk : Carries req k)
    (h : insertRequestItem (newRitm req plan d db.now) (ritmIdOf_length d) db = .ok db') :
    Keyed db' req.tenantId k (ritmIdOf d) := by
  obtain ⟨hins, _, _⟩ := insertRequestItem_ok h
  refine ⟨newRitm req plan d db.now, ?_, rfl, hk.1, rfl⟩
  rw [(Table.insert_eq_some hins).1]
  simp

theorem fulfilStep_established (hk : Carries req k) (d : Draw)
    (hs : Survives db (fulfilStep format req d db q).1) (hq : Established format db req k q) :
    Established format (fulfilStep format req d db q).1 req k (fulfilStep format req d db q).2 := by
  have hq' := hq.survives hs
  revert hs hq'
  cases q with
  | assertRequest =>
    intro hs hq'
    simp only [fulfilStep] at hs hq' ⊢
    split
    · rename_i hx
      exact ⟨fun _ => requestExists_iff.mp hx, fun h => (by cases h), fun _ h => (by cases h)⟩
    · exact established_raised _
  | duplicateGate =>
    intro hs hq'
    simp only [fulfilStep] at hs hq' ⊢
    split
    · exact ⟨fun _ => hq.request rfl, fun h => (by cases h), fun _ h => (by cases h)⟩
    · exact established_raised _
  | loadTemplate =>
    intro hs hq'
    simp only [fulfilStep]
    split
    · exact established_raised _
    · rename_i template hload
      split
      · exact established_raised _
      · rename_i plan hplan
        rw [if_pos hk.keyGiven]
        exact ⟨fun _ => hq.request rfl, fun _ => ⟨template, plan, hload, hplan⟩,
          fun _ h => (by cases h)⟩
  | idemLookup name plan =>
    intro hs hq'
    simp only [fulfilStep]
    split
    · rename_i m hm
      rw [hk.1, Option.getD_some] at hm
      refine ⟨fun _ => hq.request rfl, fun _ => hq.plan rfl, fun m' he => ?_⟩
      cases he
      exact findRitmByKey_some.mp hm
    · exact ⟨fun _ => hq.request rfl, fun _ => hq.plan rfl, fun _ h => (by cases h)⟩
  | insertRitm name plan =>
    intro hs hq'
    simp only [fulfilStep] at hs hq' ⊢
    split
    · rename_i db' hins
      rw [hins] at hq'
      refine ⟨fun _ => hq'.request rfl, fun _ => hq'.plan rfl, fun m he => ?_⟩
      cases he
      exact keyed_newRitm hk hins
    · exact established_raised _
    · exact established_raised _
  | insertTasks name m todo n =>
    intro hs hq'
    cases todo with
    | nil => exact ⟨fun _ => hq.request rfl, fun _ => hq.plan rfl, hq.item⟩
    | cons t todo =>
      simp only [fulfilStep] at hs hq' ⊢
      split
      · rename_i db' hins
        rw [hins] at hq'
        exact ⟨fun _ => hq'.request rfl, fun _ => hq'.plan rfl, hq'.item⟩
      · exact ⟨fun _ => hq.request rfl, fun _ => hq.plan rfl, hq.item⟩
      · exact established_raised _
  | insertRun name m n =>
    intro hs hq'
    simp only [fulfilStep] at hs hq' ⊢
    split
    · exact established_raised _
    · rename_i db' hins
      rw [hins] at hq'
      exact ⟨fun _ => hq'.request rfl, fun _ => hq'.plan rfl, hq'.item⟩
  | returned o => exact fun _ _ => hq
  | raised e => exact fun _ _ => hq

end Established

/-- A bound on the statements a call has yet to run; a plan has at most 200 tasks. -/
def statementsLeft : FulfilPhase → ℕ
  | .assertRequest => 208
  | .duplicateGate => 207
  | .loadTemplate => 206
  | .idemLookup _ plan => plan.tasks.length + 4
  | .insertRitm _ plan => plan.tasks.length + 3
  | .insertTasks _ _ todo _ => todo.length + 2
  | .insertRun _ _ _ => 1
  | .returned _ => 0
  | .raised _ => 0

section Ends

variable {format : String → JsonObject → Except FormatError String} {req : FulfillmentRequest}

variable (format) (req) in
theorem fulfilStep_left (d : Draw) (db : Db) (q : FulfilPhase) :
    statementsLeft (fulfilStep format req d db q).2 + 1 ≤ statementsLeft q ∨
      (statementsLeft q = 0 ∧ (fulfilStep format req d db q).2 = q) := by
  cases q with
  | assertRequest =>
    simp only [fulfilStep]
    split <;> exact .inl (by simp [statementsLeft])
  | duplicateGate =>
    simp only [fulfilStep]
    split <;> exact .inl (by simp [statementsLeft])
  | loadTemplate =>
    simp only [fulfilStep]
    split
    · exact .inl (by simp [statementsLeft])
    · split
      · exact .inl (by simp [statementsLeft])
      · rename_i plan _
        have := plan.valid.tasks_count.2
        split <;> exact .inl (by simp only [statementsLeft]; omega)
  | idemLookup name plan =>
    simp only [fulfilStep]
    split <;> exact .inl (by simp [statementsLeft])
  | insertRitm name plan =>
    simp only [fulfilStep]
    split <;> exact .inl (by simp [statementsLeft])
  | insertTasks name m todo n =>
    cases todo with
    | nil => exact .inl (by simp [fulfilStep, statementsLeft])
    | cons t todo =>
      simp only [fulfilStep]
      split <;> exact .inl (by simp [statementsLeft])
  | insertRun name m n =>
    simp only [fulfilStep]
    split <;> exact .inl (by simp [statementsLeft])
  | returned o => exact .inr ⟨rfl, rfl⟩
  | raised e => exact .inr ⟨rfl, rfl⟩

def statements (format : String → JsonObject → Except FormatError String)
    (req : FulfillmentRequest) (q : FulfilPhase) (xs : List (Draw × Db)) : FulfilPhase :=
  xs.foldl (fun q x => (fulfilStep format req x.1 x.2 q).2) q

/-- Whatever the other calls write in between, a call ends. -/
theorem statements_end : ∀ (xs : List (Draw × Db)) (q : FulfilPhase),
    statementsLeft q ≤ xs.length → statementsLeft (statements format req q xs) = 0 := by
  intro xs
  induction xs with
  | nil => intro q h; exact Nat.le_zero.mp h
  | cons x xs ih =>
    intro q h
    refine ih (fulfilStep format req x.1 x.2 q).2 ?_
    rw [List.length_cons] at h
    rcases fulfilStep_left format req x.1 x.2 q with hl | ⟨hz, he⟩
    · omega
    · rw [he]
      omega

end Ends

/-- The steps of calls that repeat the request: the duplicate check finds nothing, no
request item took the key since the lookup, and the drawn run id is unused. -/
structure Replays (req : FulfillmentRequest) (k : String) (s : Service) (e : ServiceEvent) :
    Prop where
  admissible : Admissible s e
  gate : ∀ (i : ℕ) d, e = .act i (.fulfil d) → s.procs[i]? = some (.fulfil req .duplicateGate) →
    findOpenDuplicate req.tenantId req.requestedFor req.catalogItemId duplicateLookbackDays
      s.shared.db = none
  insert : ∀ (i : ℕ) d name plan, e = .act i (.fulfil d) →
    s.procs[i]? = some (.fulfil req (.insertRitm name plan)) →
    findRitmByKey req.tenantId k s.shared.db = none
  run : ∀ (i : ℕ) d name m n, e = .act i (.fulfil d) →
    s.procs[i]? = some (.fulfil req (.insertRun name m n)) →
    (req.tenantId, "RUN" ++ d.hex14) ∉ s.shared.db.fulfillmentRun.rows.map runKey

section Pool

variable {cfg : Config} {format : String → JsonObject → Except FormatError String}
  {req : FulfillmentRequest} {k : String}

variable (cfg) (format) in
theorem procStep_survives (w : World) {p : Proc} (hp : WriterWf p) (inp : Input) :
    Survives w.db (procStep cfg format inp w p).1.db :=
  ⟨(procStep_frame p inp).catalogItem, (procStep_frame p inp).request, (procStep_ages hp inp).2⟩

def Informed (format : String → JsonObject → Except FormatError String) (req : FulfillmentRequest)
    (k : String) (w : World) (p : Proc) : Prop :=
  ∀ q, p = .fulfil req q → Established format w.db req k q

variable (cfg) in
theorem procStep_informed (hk : Carries req k) {w : World} {p : Proc} {inp : Input}
    (hs : Survives w.db (procStep cfg format inp w p).1.db) (h : Informed format req k w p) :
    Informed format req k (procStep cfg format inp w p).1 (procStep cfg format inp w p).2 := by
  intro q hq
  cases acts cfg format w p inp with
  | main k => cases hq
  | child k j ci wave children c hph hc => cases hq
  | saga k r => cases hq
  | decision d => cases hq
  | fulfil req' q' d =>
    cases hq
    exact fulfilStep_established hk d hs (h q' rfl)
  | create cc a q inp => cases hq
  | crash p hx => rw [hx] at hq; cases hq
  | idle p inp hx =>
    rw [hx] at hq ⊢
    exact h q hq

variable (cfg) (format) in
theorem informed_rules (hk : Carries req k) : RelyGuarantee (service cfg format) Admissible
    AllWriters (fun w w' => Survives w.db w'.db) (Informed format req k) where
  act s i inp p _ hw hp h := by
    have hs := procStep_survives cfg format s.shared (hw p (List.mem_of_getElem? hp)) inp
    exact ⟨hs, procStep_informed cfg hk hs h⟩
  env s n _ _ := ⟨rfl, fun _ h => h, evolves_of_same rfl⟩
  spawn s p hg _ := by
    rintro q rfl
    cases hg _ rfl
    exact ⟨fun h => (by cases h), fun h => (by cases h), fun _ h => (by cases h)⟩
  stable w w' p hr h := fun q hq => (h q hq).survives hr
  refl w := ⟨rfl, fun _ h => h, evolves_of_same rfl⟩

/-- Once a call has returned, all of this stays in the store. -/
structure Answered (format : String → JsonObject → Except FormatError String)
    (req : FulfillmentRequest) (k m : String) (db : Db) : Prop where
  request : RequestKnown db req
  plan : Plannable format db req
  item : Keyed db req.tenantId k m

theorem Answered.survives {db db' : Db} {m : String} (h : Survives db db')
    (ha : Answered format req k m db) : Answered format req k m db' :=
  ⟨ha.request.survives h, ha.plan.survives h, ha.item.survives h⟩

theorem insertTask_not_foreign {r : TaskRow} {db : Db}
    (h : (r.tenantId, r.ritmId) ∈ db.requestItem.rows.map ritmKey) :
    insertTask r db ≠ .foreignKeyViolation := by
  unfold insertTask
  rw [dif_pos h]
  split <;> simp

/-- No statement of a replay raises. -/
theorem fulfilStep_not_raised {db : Db} {m : String} {d : Draw} {q : FulfilPhase}
    (ha : Answered format req k m db) (hq : Established format db req k q)
    (hgate : q = .duplicateGate → findOpenDuplicate req.tenantId req.requestedFor
      req.catalogItemId duplicateLookbackDays db = none)
    (hins : ∀ name plan, q ≠ .insertRitm name plan)
    (hrun : ∀ name m n, q = .insertRun name m n →
      (req.tenantId, "RUN" ++ d.hex14) ∉ db.fulfillmentRun.rows.map runKey)
    {e : FulfillmentError} (h : (fulfilStep format req d db q).2 = .raised e) :
    q = .raised e := by
  cases q with
  | assertRequest =>
    simp only [fulfilStep, if_pos (requestExists_iff.mpr ha.request)] at h
    cases h
  | duplicateGate =>
    simp only [fulfilStep, hgate rfl] at h
    cases h
  | loadTemplate =>
    obtain ⟨template, plan, hload, hplan⟩ := ha.plan
    simp only [fulfilStep, hload, hplan] at h
    split at h <;> cases h
  | idemLookup name plan =>
    simp only [fulfilStep] at h
    split at h <;> cases h
  | insertRitm name plan => exact absurd rfl (hins name plan)
  | insertTasks name m' todo n =>
    cases todo with
    | nil => cases h
    | cons t todo =>
      have hrow : (req.tenantId, m') ∈ db.requestItem.rows.map ritmKey := (hq.item m' rfl).getRitm
      simp only [fulfilStep] at h
      split at h
      · cases h
      · cases h
      · rename_i hf
        exact absurd hf (insertTask_not_foreign hrow)
  | insertRun name m' n =>
    simp only [fulfilStep] at h
    split at h
    · rename_i hnone
      rw [insertFulfillmentRun, Option.map_eq_none_iff] at hnone
      rcases Table.insert_eq_none hnone with hk | ⟨v, hv, _⟩
      · exact absurd hk (hrun name m' n rfl)
      · cases hv
    · cases h
  | returned o => cases h
  | raised e' => exact h

structure Replayed (format : String → JsonObject → Except FormatError String)
    (req : FulfillmentRequest) (k m : String) (s₁ s : Service) : Prop where
  writers : AllWriters s
  informed : Holds (Informed format req k) s
  answered : Answered format req k m s.shared.db
  raised : ∀ (j : ℕ) e, s.procs[j]? = some (.fulfil req (.raised e)) →
    s₁.procs[j]? = some (.fulfil req (.raised e))

theorem procStep_raised {w : World} {p : Proc} {inp : Input} {e : FulfillmentError}
    (h : (procStep cfg format inp w p).2 = .fulfil req (.raised e)) :
    p = .fulfil req (.raised e) ∨ ∃ q d, p = .fulfil req q ∧ inp = .fulfil d ∧
      (fulfilStep format req d w.db q).2 = .raised e := by
  cases acts cfg format w p inp with
  | main k => cases h
  | child k j ci wave children c hph hc => cases h
  | saga k r => cases h
  | decision d => cases h
  | fulfil req' q d =>
    injection h with hreq hq
    subst hreq
    exact .inr ⟨q, d, rfl, rfl, hq⟩
  | create cc a q inp => cases h
  | crash p hx => rw [hx] at h; cases h
  | idle p inp hx =>
    rw [hx] at h
    exact .inl h

theorem next_replayed (hk : Carries req k) {m : String} {s₁ s : Service} {e : ServiceEvent}
    (hg : Replays req k s e) (hs : Replayed format req k m s₁ s) :
    Replayed format req k m s₁ (next (service cfg format) s e) := by
  have rules := informed_rules cfg format hk
  have hsurv := rules.next_rely hg.admissible hs.writers hs.informed
  refine ⟨next_writers cfg format hg.admissible hs.writers,
    rules.next_holds hg.admissible hs.writers hs.informed, hs.answered.survives hsurv, ?_⟩
  intro j err hj
  cases e with
  | spawn p =>
    rcases Nat.lt_or_ge j s.procs.length with hlt | hge
    · rw [next, List.getElem?_append_left hlt] at hj
      exact hs.raised j err hj
    · rw [next, List.getElem?_append_right hge] at hj
      have hp : .fulfil req (.raised err) = p := by simpa using List.mem_of_getElem? hj
      subst hp
      cases hg.admissible _ rfl
  | env n => exact hs.raised j err hj
  | act i inp =>
    cases hp : s.procs[i]? with
    | none =>
      rw [next_idle hp] at hj
      exact hs.raised j err hj
    | some p =>
      rw [next_act hp] at hj
      rcases getElem?_set_cases hj with ⟨rfl, hnew⟩ | ⟨_, hold⟩
      · rcases procStep_raised hnew.symm with rfl | ⟨q, d, rfl, rfl, hstep⟩
        · exact hs.raised i err hp
        · have hq := hs.informed _ (List.mem_of_getElem? hp) q rfl
          have hraised : q = .raised err := by
            refine fulfilStep_not_raised hs.answered hq ?_ ?_ ?_ hstep
            · rintro rfl
              exact hg.gate i d rfl hp
            · rintro name plan rfl
              have hnone := hg.insert i d name plan rfl hp
              rw [findRitmByKey_some.mpr hs.answered.item] at hnone
              cases hnone
            · rintro name m' n rfl
              exact hg.run i d name m' n rfl hp
          exact hs.raised i err (hraised ▸ hp)
      · exact hs.raised j err hold

theorem run_replayed (hk : Carries req k) {m : String} {s₁ s t : Service}
    (h : Run (service cfg format) (Replays req k) s t) (hs : Replayed format req k m s₁ s) :
    Replayed format req k m s₁ t := h.invariant hs fun _ _ hg hi => next_replayed hk hg hi

theorem run_informed (hk : Carries req k) {s t : Service}
    (h : Run (service cfg format) Admissible s t) (hw : AllWriters s)
    (hs : Holds (Informed format req k) s) :
    AllWriters t ∧ Holds (Informed format req k) t := by
  induction h with
  | refl => exact ⟨hw, hs⟩
  | tail _ hstep ih =>
    obtain ⟨e, hg, rfl⟩ := hstep
    exact ⟨next_writers cfg format hg ih.1, (informed_rules cfg format hk).next_holds hg ih.1 ih.2⟩

end Pool

/-- Once a call with the key has returned, every later call with the same body that meets
no duplicate, overtakes no lookup and draws an unused run id ends, does not raise, and
returns the same request item; and no two request items ever carry the key. -/
theorem replays_return_same_item (cfg : Config)
    (format : String → JsonObject → Except FormatError String) {req : FulfillmentRequest}
    {k : String} (hk : Carries req k) {s₀ s₁ s₂ : Service} (h₀ : Initial s₀)
    (h₁ : Run (service cfg format) Admissible s₀ s₁) {i : ℕ} {o : Outcome}
    (hi : s₁.procs[i]? = some (.fulfil req (.returned o)))
    (h₂ : Run (service cfg format) (Replays req k) s₁ s₂) :
    (∀ (j : ℕ) q, s₂.procs[j]? = some (.fulfil req q) →
      (∀ o', q = .returned o' → o'.ritmId = o.ritmId) ∧
      (∀ e, q = .raised e → s₁.procs[j]? = some (.fulfil req (.raised e))) ∧
      ∀ xs, statementsLeft q ≤ xs.length →
        statementsLeft (statements format req q xs) = 0) ∧
    ∀ r ∈ s₂.shared.db.requestItem.rows, ∀ r' ∈ s₂.shared.db.requestItem.rows,
      r.tenantId = req.tenantId ∧ r.idempotencyKey = some k →
      r'.tenantId = req.tenantId ∧ r'.idempotencyKey = some k → r = r' := by
  have hw : AllWriters s₀ := by simp [AllWriters, h₀.procs]
  have hinf : Holds (Informed format req k) s₀ := by simp [Holds, h₀.procs]
  obtain ⟨hw₁, hinf₁⟩ := run_informed hk h₁ hw hinf
  have first := hinf₁ _ (List.mem_of_getElem? hi) _ rfl
  have start : Replayed format req k o.ritmId s₁ s₁ :=
    ⟨hw₁, hinf₁, ⟨first.request rfl, first.plan rfl, first.item _ rfl⟩, fun _ _ h => h⟩
  have inv := run_replayed hk h₂ start
  refine ⟨fun j q hj => ⟨?_, ?_, fun xs => statements_end xs q⟩, ?_⟩
  · rintro o' rfl
    exact ((inv.informed _ (List.mem_of_getElem? hj) _ rfl).item _ rfl).unique inv.answered.item
  · rintro e rfl
    exact inv.raised j e hj
  · intro r hr r' hr' h h'
    exact keyed_unique hr hr' h h'

def keyedOrder : FulfillmentRequest := orderLaptop (some "k1") (by simp; decide)

theorem keyedOrder_carries : Carries keyedOrder "k1" := ⟨rfl, by decide⟩

def advance (i : ℕ) (d : Draw) (n : ℕ) : List ServiceEvent := List.replicate n (.act i (.fulfil d))

def submitOnce : List ServiceEvent := submit keyedOrder :: advance 0 drawA 8

def submitAgain : List ServiceEvent := submitOnce ++ submit keyedOrder :: advance 1 drawB 2

/-- Both calls look the key up before either inserts. -/
def submitRace : List ServiceEvent :=
  [submit keyedOrder, submit keyedOrder] ++ advance 0 drawA 4 ++ advance 1 drawB 4 ++
    advance 0 drawA 4 ++ advance 1 drawB 1

def returnedItem (s : Service) (i : ℕ) : Option String :=
  match s.procs[i]? with
  | some (.fulfil _ (.returned o)) => some o.ritmId
  | _ => none

def raisedKind (s : Service) (i : ℕ) : Option ErrorKind :=
  match s.procs[i]? with
  | some (.fulfil _ (.raised e)) => some e.kind
  | _ => none

def shop : Service := quiet (catalogDb [manualTask "a"])

theorem submissions_run (es : List ServiceEvent)
    (h : ∀ p, .spawn p ∈ es → p = .fulfil keyedOrder .assertRequest) :
    Run (service sampleConfig plainFormat) Admissible shop
      (play (service sampleConfig plainFormat) shop es) := by
  refine run_play _ (admits_entries _ _ fun p hp => ?_)
  rw [h p hp]
  exact .fulfil keyedOrder

theorem replays_act {req : FulfillmentRequest} {k : String} {s : Service} {i : ℕ} {d : Draw}
    {q : FulfilPhase} (hp : s.procs[i]? = some (.fulfil req q))
    (hgate : q = .duplicateGate → findOpenDuplicate req.tenantId req.requestedFor
      req.catalogItemId duplicateLookbackDays s.shared.db = none)
    (hins : ∀ name plan, q ≠ .insertRitm name plan)
    (hrun : ∀ name m n, q = .insertRun name m n →
      (req.tenantId, "RUN" ++ d.hex14) ∉ s.shared.db.fulfillmentRun.rows.map runKey) :
    Replays req k s (.act i (.fulfil d)) := by
  refine ⟨admissible_act, ?_, ?_, ?_⟩
  · intro j x he hj
    cases he
    rw [hp] at hj
    cases hj
    exact hgate rfl
  · intro j x name plan he hj
    cases he
    rw [hp] at hj
    cases hj
    exact absurd rfl (hins name plan)
  · intro j x name m n he hj
    cases he
    rw [hp] at hj
    cases hj
    exact hrun name m n rfl

/-- The steps of a submission that meet no rule of a replay. -/
def plainPhase : FulfilPhase → Bool
  | .duplicateGate | .insertRitm _ _ | .insertRun _ _ _ => false
  | _ => true

theorem replays_act_plain {req : FulfillmentRequest} {k : String} {s : Service} {i : ℕ} {d : Draw}
    {q : FulfilPhase} (hp : s.procs[i]? = some (.fulfil req q)) (h : plainPhase q = true) :
    Replays req k s (.act i (.fulfil d)) := by
  refine replays_act hp ?_ ?_ ?_
  · rintro rfl
    cases h
  · rintro name plan rfl
    cases h
  · rintro name m n rfl
    cases h

theorem replays_env {req : FulfillmentRequest} {k : String} {s : Service} (n : Outside) :
    Replays req k s (.env n) := by
  refine ⟨?_, ?_, ?_, ?_⟩
  · intro p he; cases he
  · intro j x he; cases he
  · intro j x name plan he; cases he
  · intro j x name m n he; cases he

theorem replays_spawn {req : FulfillmentRequest} {k : String} {s : Service} {p : Proc}
    (h : Entry p) : Replays req k s (.spawn p) := by
  refine ⟨admissible_spawn h, ?_, ?_, ?_⟩
  · intro j x he; cases he
  · intro j x name plan he; cases he
  · intro j x name m n he; cases he

def replayLater : List ServiceEvent :=
  .env ⟨30 * 86400 + 1, none⟩ :: submit keyedOrder :: advance 1 drawB 7

theorem replayLater_admits : Admits (service sampleConfig plainFormat) (Replays keyedOrder "k1")
    (play (service sampleConfig plainFormat) shop submitOnce) replayLater := by
  refine ⟨replays_env _, replays_spawn (.fulfil _), replays_act_plain rfl rfl,
    replays_act rfl (fun _ => by decide) (fun _ _ h => (by cases h)) (fun _ _ _ h => (by cases h)),
    replays_act_plain rfl rfl, replays_act_plain rfl rfl, replays_act_plain rfl rfl,
    replays_act_plain rfl rfl,
    replays_act rfl (fun h => (by cases h)) (fun _ _ h => (by cases h)) ?_, trivial⟩
  intro name m n _
  decide

def firstAnswer : Outcome :=
  submitted keyedOrder "laptop" "RITM00000000A1" "RUN0000000000000A" 1

def laterAnswer : Outcome :=
  submitted keyedOrder "laptop" "RITM00000000A1" "RUN0000000000000B" 0

theorem replays_return_same_item_later :
    (play (service sampleConfig plainFormat) shop submitOnce).procs[0]? =
      some (.fulfil keyedOrder (.returned firstAnswer)) ∧
    laterAnswer.ritmId = firstAnswer.ritmId := by
  have hrun : Run (service sampleConfig plainFormat) Admissible shop
      (play (service sampleConfig plainFormat) shop submitOnce) := by
    refine submissions_run _ fun p hp => ?_
    simpa [submitOnce, submit, advance] using hp
  have hfirst : (play (service sampleConfig plainFormat) shop submitOnce).procs[0]? =
      some (.fulfil keyedOrder (.returned firstAnswer)) := rfl
  have hlast : (play (service sampleConfig plainFormat)
      (play (service sampleConfig plainFormat) shop
      submitOnce) replayLater).procs[1]? = some (.fulfil keyedOrder (.returned laterAnswer)) := rfl
  exact ⟨hfirst, ((replays_return_same_item sampleConfig plainFormat keyedOrder_carries
    (quiet_initial _) hrun hfirst (run_play replayLater replayLater_admits)).1 1 _ hlast).1 _ rfl⟩

theorem replay_rejected :
    (Run (service sampleConfig plainFormat) Admissible shop
      (play (service sampleConfig plainFormat) shop submitAgain) ∧
    returnedItem (play (service sampleConfig plainFormat) shop submitOnce) 0 =
      some "RITM00000000A1" ∧
    raisedKind (play (service sampleConfig plainFormat) shop submitAgain) 1 =
      some .duplicateRequest) ∧
    Run (service sampleConfig plainFormat) Admissible shop
      (play (service sampleConfig plainFormat) shop submitRace) ∧
    returnedItem (play (service sampleConfig plainFormat) shop submitRace) 0 =
      some "RITM00000000A1" ∧
    raisedKind (play (service sampleConfig plainFormat) shop submitRace) 1 = some .persistence := by
  refine ⟨⟨submissions_run _ ?_, by decide, by decide⟩, submissions_run _ ?_, by decide, by decide⟩
  · intro p hp
    simp [submitAgain, submitOnce, submit, advance] at hp
    exact hp
  · intro p hp
    simp [submitRace, submit, advance] at hp
    exact hp

end FulfillmentReplay
