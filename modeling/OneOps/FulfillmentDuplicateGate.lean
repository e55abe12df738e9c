import OneOps.FulfillmentLifecycle

/-! The duplicate gate of `fulfill_request`. It is a read; the row it protects is inserted
several statements later, with no lock or constraint on what was checked. -/
namespace FulfillmentDuplicateGate

open KeyedTable
open ProcessPool
open FulfillmentContracts
open FulfillmentDb
open FulfillmentPlanning
open FulfillmentWorker
open FulfillmentSaga
open FulfillmentApproval
open FulfillmentSubmission
open FulfillmentSystem
open FulfillmentTaskProtocol
open FulfillmentLifecycle

/-- Statements do not move the clock, edit the catalog or delete a parent request. -/
structure Frame (db db' : Db) : Prop where
  now : db'.now = db.now
  catalogItem : db'.catalogItem = db.catalogItem
  request : ∀ x ∈ db.request.rows.map requestKey, x ∈ db'.request.rows.map requestKey

theorem Frame.of_same {db db' : Db} (hn : db'.now = db.now)
    (hc : db'.catalogItem = db.catalogItem) (hr : db'.request = db.request) : Frame db db' :=
  ⟨hn, hc, fun _ h => hr ▸ h⟩

theorem Frame.trans {a b c : Db} (h : Frame a b) (h' : Frame b c) : Frame a c :=
  ⟨h'.now.trans h.now, h'.catalogItem.trans h.catalogItem,
    fun x hx => h'.request x (h.request x hx)⟩

theorem Frame.lifecycle {db db₁ : Db} (h : Frame db db₁)
    (tenantId requestId status stage : String) :
    Frame db (setRequestLifecycle tenantId requestId status stage db₁) := by
  refine ⟨h.now, h.catalogItem, fun x hx => ?_⟩
  have hkeys : (updateWhere (isRequest tenantId requestId) (lifecycleSet status stage)
      db₁.request.rows).map requestKey = db₁.request.rows.map requestKey :=
    map_updateWhere (f := lifecycleSet status stage) (fun _ => rfl) _ _
  change x ∈ (updateWhere _ _ db₁.request.rows).map requestKey
  rw [hkeys]
  exact h.request x hx

theorem frame_insertApproval {r : ApprovalRow} {db db' : Db} (h : insertApproval r db = some db') :
    Frame db db' := by
  unfold insertApproval at h
  split at h
  · obtain ⟨t, _, rfl⟩ := Option.map_eq_some_iff.mp h
    exact .of_same rfl rfl rfl
  · cases h

theorem frame_insertApprovals {rows : List ApprovalRow} :
    ∀ {db db' : Db}, insertApprovals rows db = some db' → Frame db db' := by
  induction rows with
  | nil =>
    intro db db' h
    cases h
    exact .of_same rfl rfl rfl
  | cons r rows ih =>
    intro db db' h
    obtain ⟨db₁, h₁, h₂⟩ := Option.bind_eq_some_iff.mp h
    exact (frame_insertApproval h₁).trans (ih h₂)

theorem frame_finaliseRun {tenantId runId : String} {outcome : RitmOutcome}
    {reason : Option String} {db db' : Db}
    (h : finaliseRun tenantId runId outcome reason db = some db') : Frame db db' := by
  unfold finaliseRun at h
  split at h
  · cases h
  · cases h
    exact .of_same rfl rfl rfl

theorem frame_insertRequest {r : RequestRow} {db db' : Db} (h : insertRequest r db = some db') :
    Frame db db' := by
  unfold insertRequest at h
  split at h
  · cases h
  · rename_i t ht
    cases h
    refine ⟨rfl, rfl, fun x hx => ?_⟩
    rw [(Table.insert_eq_some ht).1, List.map_append]
    exact List.mem_append_left _ hx

theorem frame_insertRequestItem {r : RitmRow} {hr : r.ritmId.length = 14} {db db' : Db}
    (h : insertRequestItem r hr db = .ok db') : Frame db db' := by
  unfold insertRequestItem at h
  split at h
  · split at h
    · cases h
    · cases h
      exact .of_same rfl rfl rfl
  · cases h

theorem frame_insertTask {r : TaskRow} {db db' : Db} (h : insertTask r db = .ok db') :
    Frame db db' := by
  unfold insertTask at h
  split at h
  · split at h
    · cases h
    · cases h
      exact .of_same rfl rfl rfl
  · cases h

theorem frame_insertRun {r : RunRow} {db db' : Db} (h : insertFulfillmentRun r db = some db') :
    Frame db db' := by
  obtain ⟨t, _, rfl⟩ := Option.map_eq_some_iff.mp h
  exact .of_same rfl rfl rfl

section Steps

variable {cfg : Config} {format : String → JsonObject → Except FormatError String} {w : World}

theorem childStep_frame (tenantId ritmId : String) (c : Child) (inp : ChildInput) :
    Frame w.db (childStep cfg tenantId ritmId inp w c).1.db := by
  unfold childStep
  split
  · split
    all_goals
      rename_i h
      exact .of_same (congrArg (fun x => x.2.now) h.symm)
        (congrArg (fun x => x.2.catalogItem) h.symm) (congrArg (fun x => x.2.request) h.symm)
  · split
    · exact .of_same rfl rfl rfl
    · rename_i h
      obtain ⟨row, _, hrow⟩ := Option.bind_eq_some_iff.mp h
      exact frame_insertApproval hrow
  · split <;> exact .of_same rfl rfl rfl
  all_goals exact .of_same rfl rfl rfl

theorem mainStep_frame (k : Worker) : Frame w.db (mainStep cfg w k).1.db := by
  unfold mainStep
  split
  · exact .of_same rfl rfl rfl
  · split <;> exact .of_same rfl rfl rfl
  · exact .of_same rfl rfl rfl
  · exact .of_same rfl rfl rfl
  · exact .of_same rfl rfl rfl
  · exact .of_same rfl rfl rfl
  · exact .of_same rfl rfl rfl
  · exact .of_same rfl rfl rfl
  · exact .of_same rfl rfl rfl
  · split <;> exact .of_same rfl rfl rfl
  · exact .of_same rfl rfl rfl
  · dsimp only
    split_ifs <;> exact .of_same rfl rfl rfl
  · split <;> exact .of_same rfl rfl rfl
  · split
    · exact .of_same rfl rfl rfl
    · rename_i h
      exact frame_finaliseRun h
  all_goals exact .of_same rfl rfl rfl

theorem sagaStep_frame (r : UndoResult) (db : Db) (k : Saga) :
    Frame db (sagaStep cfg r db k).1 := by
  unfold sagaStep
  split
  · exact .of_same rfl rfl rfl
  · exact .of_same rfl rfl rfl
  · split <;> exact .of_same rfl rfl rfl
  · split <;> exact .of_same rfl rfl rfl
  all_goals exact .of_same rfl rfl rfl

theorem decisionTransact_frame (db : Db) (d : Decision) (a : ApprovalRow) :
    Frame db (decisionTransact db d a).1 := by
  unfold decisionTransact
  dsimp only
  split
  · rename_i h
    exact .of_same (congrArg (fun x => x.2.now) h.symm)
      (congrArg (fun x => x.2.catalogItem) h.symm) (congrArg (fun x => x.2.request) h.symm)
  · rename_i ritm db₁ h
    have h₁ : Frame db db₁ := .of_same (congrArg (fun x => x.2.now) h.symm)
      (congrArg (fun x => x.2.catalogItem) h.symm) (congrArg (fun x => x.2.request) h.symm)
    have h₂ : ∀ (approved : Bool) (db₂ : Db), Frame db₁ db₂ →
        Frame db (applyApprovalOutcome d.tenantId ritm approved db₂).2 :=
      fun _ _ h => h₁.trans (h.trans (.of_same rfl rfl rfl))
    dsimp only
    split <;> split
    · exact h₂ _ _ (.of_same rfl rfl rfl)
    · exact h₂ _ _ (.of_same rfl rfl rfl)
    · refine .lifecycle ?_ ..
      exact h₂ _ _ (.of_same rfl rfl rfl)
    · refine .lifecycle ?_ ..
      exact h₂ _ _ (.of_same rfl rfl rfl)

theorem decisionStep_frame (db : Db) (d : Decision) : Frame db (decisionStep db d).1 := by
  unfold decisionStep
  split
  · exact .of_same rfl rfl rfl
  · exact decisionTransact_frame ..
  · exact .of_same rfl rfl rfl

theorem fulfilStep_frame (req : FulfillmentRequest) (d : Draw) (db : Db) (p : FulfilPhase) :
    Frame db (fulfilStep format req d db p).1 := by
  unfold fulfilStep
  split
  · exact .of_same rfl rfl rfl
  · split <;> exact .of_same rfl rfl rfl
  · split
    · exact .of_same rfl rfl rfl
    · split <;> exact .of_same rfl rfl rfl
  · split <;> exact .of_same rfl rfl rfl
  · split
    · rename_i h
      exact frame_insertRequestItem h
    · exact .of_same rfl rfl rfl
    · exact .of_same rfl rfl rfl
  · exact .of_same rfl rfl rfl
  · split
    · rename_i h
      exact frame_insertTask h
    · exact .of_same rfl rfl rfl
    · exact .of_same rfl rfl rfl
  · split
    · exact .of_same rfl rfl rfl
    · rename_i h
      exact frame_insertRun h
  · exact .of_same rfl rfl rfl
  · exact .of_same rfl rfl rfl

theorem createStep_frame (cc : CreateConfig) (a : CreateArgs) (inp : SubmitInput) (db : Db)
    (p : CreatePhase) : Frame db (createStep format cc a inp db p).1 := by
  unfold createStep
  split
  · split
    · exact .of_same rfl rfl rfl
    · split <;> exact .of_same rfl rfl rfl
  · split
    · split
      · exact .of_same rfl rfl rfl
      · rename_i h
        split <;> exact frame_insertRequest h
    · exact .of_same rfl rfl rfl
  · exact .of_same rfl rfl rfl
  · exact .of_same rfl rfl rfl
  · exact fulfilStep_frame ..
  · split <;> exact .of_same rfl rfl rfl
  · exact .of_same rfl rfl rfl
  · exact .lifecycle (.of_same rfl rfl rfl) ..
  · split
    · exact .of_same rfl rfl rfl
    · rename_i db' h
      refine .lifecycle ?_ ..
      exact (frame_insertApprovals h).trans (.of_same rfl rfl rfl)
  · exact .of_same rfl rfl rfl
  · exact .of_same rfl rfl rfl
  · exact .of_same rfl rfl rfl

theorem procStep_frame (p : Proc) (inp : Input) :
    Frame w.db (procStep cfg format inp w p).1.db := by
  cases acts cfg format w p inp with
  | main k => exact mainStep_frame k
  | child k j ci wave children c hph hc =>
    simp only [procStep, workerStep_child hph hc]
    exact childStep_frame ..
  | saga k r => exact sagaStep_frame r w.db k
  | decision d => exact decisionStep_frame w.db d
  | fulfil req q d => exact fulfilStep_frame req d w.db q
  | create cc a q inp => exact createStep_frame cc a inp w.db q
  | crash p h => rw [h]; exact .of_same rfl rfl rfl
  | idle p inp h => rw [h]; exact .of_same rfl rfl rfl

end Steps

/-- The `fulfill_request` call that a step advances, with its draw. -/
def submits : Proc → Input → Option (FulfillmentRequest × FulfilPhase × Draw)
  | .fulfil req q, .fulfil d => some (req, q, d)
  | .create _ _ (.fulfil req q), .create inp => some (req, q, inp.draw)
  | _, _ => none

def submitting : Proc → Option (FulfillmentRequest × FulfilPhase)
  | .fulfil req q => some (req, q)
  | .create _ _ (.fulfil req q) => some (req, q)
  | _ => none

theorem keys_updateRitms (p : RitmRow → Bool) (f : RitmRow → RitmRow) (hk hi hq) (db : Db) :
    (updateRitms p f hk hi hq db).requestItem.rows.map ritmKey =
      db.requestItem.rows.map ritmKey := map_updateWhere hk p db.requestItem.rows

theorem keys_transitionRitm {a : RitmTransition} {db db' : Db}
    (h : db' = (transitionRitmState a db).2) :
    db'.requestItem.rows.map ritmKey = db.requestItem.rows.map ritmKey := by
  rw [h]
  exact keys_updateRitms a.matches (a.set db.now) (fun _ => rfl) (fun _ => rfl) (fun _ => rfl) db

theorem keys_setApprovalState (tenantId ritmId : String) (g : ApprovalGateState) (db : Db) :
    (setRitmApprovalState tenantId ritmId g db).requestItem.rows.map ritmKey =
      db.requestItem.rows.map ritmKey :=
  keys_updateRitms (isRitm tenantId ritmId) (approvalStateSet g db.now) (fun _ => rfl)
    (fun _ => rfl) (fun _ => rfl) db

theorem keys_applyApproval (tenantId ritmId : String) (approved : Bool) (db : Db) :
    (applyApprovalOutcome tenantId ritmId approved db).2.requestItem.rows.map ritmKey =
      db.requestItem.rows.map ritmKey :=
  keys_updateRitms (approvalOutcomeMatches tenantId ritmId) (approvalOutcomeSet approved db.now)
    (fun _ => rfl) (fun _ => rfl) (fun _ => rfl) db

section Inserts

variable {cfg : Config} {format : String → JsonObject → Except FormatError String} {w : World}

def Inserts (req : FulfillmentRequest) (q : FulfilPhase) (d : Draw) (db db' : Db) : Prop :=
  ∃ name plan, q = .insertRitm name plan ∧
    insertRequestItem (newRitm req plan d db.now) (ritmIdOf_length d) db = .ok db'

theorem fulfilStep_ritm_cases (req : FulfillmentRequest) (d : Draw) (db : Db) (q : FulfilPhase) :
    (fulfilStep format req d db q).1.requestItem = db.requestItem ∨
      Inserts req q d db (fulfilStep format req d db q).1 := by
  unfold fulfilStep
  split
  · exact .inl rfl
  · split <;> exact .inl rfl
  · split
    · exact .inl rfl
    · split <;> exact .inl rfl
  · split <;> exact .inl rfl
  · rename_i name plan
    split
    · rename_i h
      exact .inr ⟨name, plan, rfl, h⟩
    · exact .inl rfl
    · exact .inl rfl
  · exact .inl rfl
  · split
    · rename_i h
      exact .inl (insertTask_ok h).2.1
    · exact .inl rfl
    · exact .inl rfl
  · split
    · exact .inl rfl
    · rename_i h
      exact .inl (insertRun_items h).requestItem
  · exact .inl rfl
  · exact .inl rfl

theorem createStep_ritm_cases (cc : CreateConfig) (a : CreateArgs) (inp : SubmitInput) (db : Db)
    (q : CreatePhase) :
    (createStep format cc a inp db q).1.requestItem.rows.map ritmKey =
        db.requestItem.rows.map ritmKey ∨
      ∃ req p, q = .fulfil req p ∧
        Inserts req p inp.draw db (createStep format cc a inp db q).1 := by
  have same : ∀ {db' : Db}, db'.requestItem = db.requestItem →
      db'.requestItem.rows.map ritmKey = db.requestItem.rows.map ritmKey := fun h => by rw [h]
  unfold createStep
  split
  · split
    · exact .inl rfl
    · split <;> exact .inl rfl
  · split
    · split
      · exact .inl rfl
      · rename_i h
        split <;> exact .inl (same (insertRequest_some h).2.1.requestItem)
    · exact .inl rfl
  · exact .inl rfl
  · exact .inl rfl
  · rename_i req p _ _
    exact (fulfilStep_ritm_cases req inp.draw db p).imp same fun h => ⟨req, p, rfl, h⟩
  · split <;> exact .inl rfl
  · exact .inl (keys_setApprovalState ..)
  · exact .inl rfl
  · split
    · exact .inl rfl
    · rename_i db' h
      refine .inl (Eq.trans ?_ (same (insertApprovals_items h).requestItem))
      exact keys_setApprovalState ..
  · exact .inl rfl
  · exact .inl rfl
  · exact .inl rfl

/-- A step leaves the keys of the request items alone, or is the insert of one call. -/
theorem procStep_ritm_cases (cfg : Config)
    (format : String → JsonObject → Except FormatError String) (w : World) (p : Proc)
    (inp : Input) :
    (procStep cfg format inp w p).1.db.requestItem.rows.map ritmKey =
        w.db.requestItem.rows.map ritmKey ∨
      ∃ req q d, submits p inp = some (req, q, d) ∧
        Inserts req q d w.db (procStep cfg format inp w p).1.db := by
  have same : ∀ {db' : Db}, db'.requestItem = w.db.requestItem →
      db'.requestItem.rows.map ritmKey = w.db.requestItem.rows.map ritmKey := fun h => by rw [h]
  cases acts cfg format w p inp with
  | main k =>
    rcases mainStep_ritm_cases cfg w k with h | ⟨v, _, h⟩ | ⟨c, r, _, _, h⟩
    · exact .inl (same h)
    · exact .inl (keys_transitionRitm h)
    · exact .inl (keys_transitionRitm h)
  | child k j ci wave children c hph hc =>
    refine .inl (same ?_)
    simp only [procStep, workerStep_child hph hc]
    exact childStep_ritm ..
  | saga k r =>
    rcases sagaStep_ritm_cases cfg r w.db k with h | ⟨ritm, results, _, h⟩
    · exact .inl (same h)
    · exact .inl (keys_transitionRitm h)
  | decision d =>
    left
    show (decisionStep w.db d).1.requestItem.rows.map ritmKey = _
    unfold decisionStep
    split
    · rfl
    · rename_i a _
      rcases decisionTransact_ritm_cases w.db d a with h | ⟨ap, _, h⟩
      · exact same h
      · rw [h]
        exact keys_applyApproval ..
    · rfl
  | fulfil req q d =>
    exact (fulfilStep_ritm_cases req d w.db q).imp same fun h => ⟨req, q, d, rfl, h⟩
  | create cc a q inp =>
    rcases createStep_ritm_cases cc a inp w.db q with h | ⟨req, p, rfl, h⟩
    · exact .inl h
    · exact .inr ⟨req, p, inp.draw, rfl, h⟩
  | crash p h => rw [h]; exact .inl rfl
  | idle p inp h => rw [h]; exact .inl rfl

end Inserts

def OpenInWindow (now : ℕ) (r : RitmRow) : Prop :=
  openRitm r.state ∧ now ≤ r.openedAt + duplicateLookbackDays * 86400

structure SameOrder (r r' : RitmRow) : Prop where
  tenantId : r.tenantId = r'.tenantId
  requestedFor : r.requestedFor = r'.requestedFor
  catalogItemId : r.catalogItemId = r'.catalogItemId

def OpenUnique (db : Db) : Prop :=
  ∀ r ∈ db.requestItem.rows, ∀ r' ∈ db.requestItem.rows, SameOrder r r' →
    OpenInWindow db.now r → OpenInWindow db.now r' → r = r'

def Duplicates (req : FulfillmentRequest) (db : Db) (r : RitmRow) : Prop :=
  openDuplicate req.tenantId req.requestedFor req.catalogItemId duplicateLookbackDays db.now r

theorem duplicates_iff {req : FulfillmentRequest} {db : Db} {r : RitmRow} :
    Duplicates req db r ↔ r.tenantId = req.tenantId ∧ r.requestedFor = req.requestedFor ∧
      r.catalogItemId = req.catalogItemId ∧ OpenInWindow db.now r := by
  simp [Duplicates, openDuplicate, OpenInWindow]

theorem findOpenDuplicate_none {req : FulfillmentRequest} {db : Db}
    (h : findOpenDuplicate req.tenantId req.requestedFor req.catalogItemId duplicateLookbackDays
      db = none) : ∀ r ∈ db.requestItem.rows, ¬ Duplicates req db r := by
  intro r hr hd
  have hmem : r ∈ (db.requestItem.rows.filter (openDuplicate req.tenantId req.requestedFor
      req.catalogItemId duplicateLookbackDays db.now)).insertionSort
      fun a b => b.openedAt ≤ a.openedAt :=
    List.mem_insertionSort _ |>.mpr (List.mem_filter.mpr ⟨hr, hd⟩)
  rw [findOpenDuplicate, Option.map_eq_none_iff, List.head?_eq_none_iff] at h
  rw [h] at hmem
  cases hmem

/-- Time passes and rows move, but nothing reopens. -/
def Ages (db db' : Db) : Prop :=
  db.now ≤ db'.now ∧ RitmEvolves (fun _ _ => True) db db'

theorem openRitm_of_move {s s' : RitmState} (h : Forward s s' ∨ (True ∧ Verdict s'))
    (ho : openRitm s') : openRitm s := by
  rcases h with h | ⟨_, h⟩
  · cases h with
    | stay => exact ho
    | start => exact .inl rfl
    | approve => exact .inl rfl
    | reject => exact .inl rfl
    | cancel => simp [openRitm] at ho
  · rcases h with h | h <;> simp [openRitm, h] at ho

section Ages

variable {db db' : Db}

theorem Ages.keys (h : Ages db db') {k : String × String}
    (hk : k ∈ db.requestItem.rows.map ritmKey) : k ∈ db'.requestItem.rows.map ritmKey := by
  obtain ⟨r, hr, rfl⟩ := List.mem_map.mp hk
  obtain ⟨r', hr', _⟩ := h.2 r.tenantId r.ritmId r (Table.lookup_key hr)
  obtain ⟨hmem, hkey⟩ := Table.lookup_eq_some.mp hr'
  exact List.mem_map.mpr ⟨r', hmem, hkey⟩

/-- A row under an old key was there before, and was open if it is open now. -/
theorem Ages.old (h : Ages db db') {r' : RitmRow} (hr' : r' ∈ db'.requestItem.rows)
    (hk : ritmKey r' ∈ db.requestItem.rows.map ritmKey) :
    ∃ r ∈ db.requestItem.rows, SameRitm r r' ∧
      (OpenInWindow db'.now r' → OpenInWindow db.now r) := by
  obtain ⟨r, hr, hkey⟩ := List.mem_map.mp hk
  obtain ⟨q, hq, hsame, hmove⟩ := h.2 r.tenantId r.ritmId r (Table.lookup_key hr)
  obtain ⟨hqmem, hqkey⟩ := Table.lookup_eq_some.mp hq
  have he : q = r' := db'.requestItem.eq_of_key hqmem hr' (hqkey.trans hkey)
  subst he
  refine ⟨r, hr, hsame, fun ho => ⟨openRitm_of_move hmove ho.1, ?_⟩⟩
  have := ho.2
  rw [hsame.openedAt] at this
  exact h.1.trans this

theorem Ages.not_duplicates (h : Ages db db') {req : FulfillmentRequest}
    {seen : List (String × String)}
    (hseen : ∀ k ∈ seen, k ∈ db.requestItem.rows.map ritmKey)
    (hd : ∀ r ∈ db.requestItem.rows, ritmKey r ∈ seen → ¬ Duplicates req db r) :
    ∀ r ∈ db'.requestItem.rows, ritmKey r ∈ seen → ¬ Duplicates req db' r := by
  intro r' hr' hk hdup
  obtain ⟨r, hr, hsame, ho⟩ := h.old hr' (hseen _ hk)
  obtain ⟨ht, hf, hc, hw⟩ := duplicates_iff.mp hdup
  have hkey : ritmKey r = ritmKey r' := by simp [ritmKey, hsame.tenantId, hsame.ritmId]
  refine hd r hr (hkey ▸ hk) (duplicates_iff.mpr ⟨?_, ?_, ?_, ho hw⟩)
  · rw [← hsame.tenantId, ht]
  · rw [← hsame.requestedFor, hf]
  · rw [← hsame.catalogItemId, hc]

/-- Statements that add no request item keep the open ones unique. -/
theorem openUnique_of_keys (h : Ages db db')
    (hk : db'.requestItem.rows.map ritmKey = db.requestItem.rows.map ritmKey)
    (hu : OpenUnique db) : OpenUnique db' := by
  intro r' hr' q' hq' hsame hor hoq
  have old : ∀ x ∈ db'.requestItem.rows, ritmKey x ∈ db.requestItem.rows.map ritmKey :=
    fun x hx => hk ▸ List.mem_map_of_mem hx
  obtain ⟨r, hr, hsr, ho₁⟩ := h.old hr' (old r' hr')
  obtain ⟨q, hq, hsq, ho₂⟩ := h.old hq' (old q' hq')
  have hrq : r = q := hu r hr q hq
    ⟨by rw [← hsr.tenantId, hsame.tenantId, hsq.tenantId],
      by rw [← hsr.requestedFor, hsame.requestedFor, hsq.requestedFor],
      by rw [← hsr.catalogItemId, hsame.catalogItemId, hsq.catalogItemId]⟩ (ho₁ hor) (ho₂ hoq)
  subst hrq
  refine db'.requestItem.eq_of_key hr' hq' ?_
  simp [ritmKey, hsr.tenantId, hsr.ritmId, hsq.tenantId, hsq.ritmId]

theorem openUnique_insert {r : RitmRow} {hr : r.ritmId.length = 14}
    (h : insertRequestItem r hr db = .ok db') (hu : OpenUnique db)
    (hd : ∀ q ∈ db.requestItem.rows, SameOrder q r → ¬ OpenInWindow db.now q) :
    OpenUnique db' := by
  obtain ⟨hins, _, hnow⟩ := insertRequestItem_ok h
  obtain ⟨hrows, _, _⟩ := Table.insert_eq_some hins
  intro a ha b hb hsame hoa hob
  rw [hnow] at hoa hob
  rw [hrows, List.mem_append, List.mem_singleton] at ha hb
  rcases ha with ha | rfl <;> rcases hb with hb | rfl
  · exact hu a ha b hb hsame hoa hob
  · exact absurd hoa (hd a ha hsame)
  · exact absurd hob (hd b hb
      ⟨hsame.tenantId.symm, hsame.requestedFor.symm, hsame.catalogItemId.symm⟩)
  · rfl

end Ages

abbrev Watched := Pool World (Proc × List (String × String))

/-- Beside every call, the keys of the request items that its duplicate check read. -/
def gateNote (w : World) (p : Proc) (seen : List (String × String)) : List (String × String) :=
  match submitting p with
  | some (_, .duplicateGate) => w.db.requestItem.rows.map ritmKey
  | _ => seen

def watched (cfg : Config) (format : String → JsonObject → Except FormatError String) :
    Machine World (Proc × List (String × String)) Input Outside :=
      (service cfg format).noting gateNote

/-- A call inserts its request item only while no request item for the same order that was
inserted after its duplicate check is open in the window. -/
structure Undisturbed (s : Watched) (e : Event (Proc × List (String × String)) Input Outside) :
    Prop where
  admissible : Admissible (erase s) e.erase
  insert : ∀ (i : ℕ) inp p seen req name plan d, e = .act i inp → s.procs[i]? = some (p, seen) →
    submits p inp = some (req, .insertRitm name plan, d) →
    ∀ r ∈ s.shared.db.requestItem.rows, ritmKey r ∉ seen → ¬ Duplicates req s.shared.db r

def checked : FulfilPhase → Bool
  | .loadTemplate | .idemLookup _ _ | .insertRitm _ _ => true
  | _ => false

def Passed (w : World) (x : Proc × List (String × String)) : Prop :=
  ∀ req q, submitting x.1 = some (req, q) → checked q = true →
    (∀ k ∈ x.2, k ∈ w.db.requestItem.rows.map ritmKey) ∧
    ∀ r ∈ w.db.requestItem.rows, ritmKey r ∈ x.2 → ¬ Duplicates req w.db r

theorem Passed.stable {w w' : World} {x : Proc × List (String × String)} (h : Ages w.db w'.db)
    (hx : Passed w x) : Passed w' x := by
  intro req q hs hq
  obtain ⟨hseen, hd⟩ := hx req q hs hq
  exact ⟨fun k hk => h.keys (hseen k hk), h.not_duplicates hseen hd⟩

section Watching

variable {cfg : Config} {format : String → JsonObject → Except FormatError String}

theorem fulfilStep_checked {req : FulfillmentRequest} {d : Draw} {db : Db} {q : FulfilPhase}
    (h : checked (fulfilStep format req d db q).2 = true) :
    (fulfilStep format req d db q).1 = db ∧ ((checked q = true ∧ q ≠ .duplicateGate) ∨
      (q = .duplicateGate ∧ findOpenDuplicate req.tenantId req.requestedFor req.catalogItemId
        duplicateLookbackDays db = none)) := by
  cases q with
  | assertRequest =>
    simp only [fulfilStep] at h
    split at h <;> cases h
  | duplicateGate =>
    simp only [fulfilStep] at h
    split at h
    · rename_i hn
      refine ⟨?_, .inr ⟨rfl, hn⟩⟩
      simp only [fulfilStep, hn]
    · cases h
  | loadTemplate =>
    refine ⟨?_, .inl ⟨rfl, fun h => (by cases h)⟩⟩
    simp only [fulfilStep]
    split
    · rfl
    · split <;> rfl
  | idemLookup name plan =>
    refine ⟨?_, .inl ⟨rfl, fun h => (by cases h)⟩⟩
    simp only [fulfilStep]
    split <;> rfl
  | insertRitm name plan =>
    simp only [fulfilStep] at h
    split at h <;> cases h
  | insertTasks name ritmId todo n =>
    cases todo with
    | nil => cases h
    | cons t todo =>
      simp only [fulfilStep] at h
      split at h <;> cases h
  | insertRun name ritmId n =>
    simp only [fulfilStep] at h
    split at h <;> cases h
  | returned o => cases h
  | raised e => cases h

/-- The tool enters `fulfill_request` at its first statement. -/
theorem createStep_enters {cc : CreateConfig} {a : CreateArgs} {inp : SubmitInput} {db : Db}
    {p : CreatePhase} (hp : ∀ req q, p ≠ .fulfil req q) {req : FulfillmentRequest}
    {q : FulfilPhase} (h : (createStep format cc a inp db p).2 = .fulfil req q) :
    q = .assertRequest := by
  unfold createStep at h
  split at h
  · split at h
    · cases h
    · split at h
      · cases h
      · dsimp only at h
        split at h <;> cases h
  · split at h
    · split at h
      · cases h
      · split at h
        · cases h
          rfl
        · cases h
    · cases h
  · exact absurd rfl (hp _ _)
  · exact absurd rfl (hp _ _)
  · exact absurd rfl (hp _ _)
  · split at h
    · cases h
    · dsimp only at h
      split_ifs at h
  · cases h
  · cases h
  · split at h <;> cases h
  · cases h
  · cases h
  · cases h

/-- One statement of a submission keeps what its call knows. -/
theorem passed_fulfil (format : String → JsonObject → Except FormatError String) (d : Draw)
    {w w' : World} {p p' : Proc} {seen : List (String × String)} {req : FulfillmentRequest}
    {q : FulfilPhase} (hp : submitting p = some (req, q))
    (hp' : ∀ req' q', submitting p' = some (req', q') →
      req' = req ∧ q' = (fulfilStep format req d w.db q).2)
    (hw : w'.db = (fulfilStep format req d w.db q).1) (h : Passed w (p, seen)) :
    Passed w' (p', gateNote w p seen) := by
  intro req' q' hs hq
  obtain ⟨rfl, rfl⟩ := hp' req' q' hs
  obtain ⟨hdb, ⟨hc, hne⟩ | ⟨rfl, hn⟩⟩ := fulfilStep_checked hq
  · have hnote : gateNote w p seen = seen := by
      unfold gateNote
      rw [hp]
      split
      · rename_i he
        cases he
        exact absurd rfl hne
      · rfl
    rw [hw, hdb, hnote]
    exact h req' q hp hc
  · have hnote : gateNote w p seen = w.db.requestItem.rows.map ritmKey := by
      unfold gateNote
      rw [hp]
    rw [hw, hdb, hnote]
    exact ⟨fun _ hk => hk, fun r hr _ => findOpenDuplicate_none hn r hr⟩

theorem procStep_passed {w : World} {p : Proc} {seen : List (String × String)} (inp : Input)
    (h : Passed w (p, seen)) :
    Passed (procStep cfg format inp w p).1
      ((procStep cfg format inp w p).2, gateNote w p seen) := by
  cases acts cfg format w p inp with
  | main k => intro req q hs; cases hs
  | child k j ci wave children c hph hc => intro req q hs; cases hs
  | saga k r => intro req q hs; cases hs
  | decision d => intro req q hs; cases hs
  | fulfil req q d =>
    refine passed_fulfil format d rfl ?_ rfl h
    intro req' q' hs
    cases hs
    exact ⟨rfl, rfl⟩
  | create cc a q inp =>
    by_cases hq : ∃ req q', q = .fulfil req q'
    · obtain ⟨req, q, rfl⟩ := hq
      cases q with
      | returned o =>
        intro req' q' hs
        simp only [procStep, createStep] at hs
        split at hs <;> cases hs
      | raised e =>
        intro req' q' hs
        simp only [procStep, createStep, fulfilFailure] at hs
        split at hs <;> cases hs
      | _ =>
        refine passed_fulfil format inp.draw rfl ?_ rfl h
        intro req' q' hs
        cases hs
        exact ⟨rfl, rfl⟩
    · intro req' q' hs hc
      have hent : (createStep format cc a inp w.db q).2 = .fulfil req' q' := by
        simp only [procStep] at hs
        cases hx : (createStep format cc a inp w.db q).2 with
        | fulfil r x =>
          rw [hx] at hs
          cases hs
          rfl
        | _ => rw [hx] at hs; cases hs
      rw [createStep_enters (fun req q he => hq ⟨req, q, he⟩) hent] at hc
      cases hc
  | crash p h => intro req q hs; rw [h] at hs; cases hs
  | idle p inp hid =>
    rw [hid]
    intro req q hs hq
    have hnote : gateNote w p seen = seen := by
      unfold gateNote
      split
      · rename_i he
        rw [he] at hs
        cases hs
        cases hq
      · rfl
    rw [hnote]
    exact h req q hs hq

theorem procStep_ages {w : World} {p : Proc} (hp : WriterWf p) (inp : Input) :
    Ages w.db (procStep cfg format inp w p).1.db := by
  refine ⟨(procStep_frame p inp).now.ge, fun t m r hr => ?_⟩
  obtain ⟨r', hr', hsame, hmove⟩ := procStep_evolves hp inp t m r hr
  exact ⟨r', hr', hsame, hmove.imp_right fun h => ⟨trivial, h.2⟩⟩

theorem entry_submitting {p : Proc} (h : Entry p) {req : FulfillmentRequest} {q : FulfilPhase}
    (hs : submitting p = some (req, q)) : q = .assertRequest := by
  cases h <;> cases hs
  rfl

theorem submitting_of_submits {p : Proc} {inp : Input} {req : FulfillmentRequest} {q : FulfilPhase}
    {d : Draw} (h : submits p inp = some (req, q, d)) : submitting p = some (req, q) := by
  unfold submits at h
  split at h <;> cases h <;> rfl

variable (cfg) (format) in
theorem passed_rules : RelyGuarantee (watched cfg format) Undisturbed
    (fun s => AllWriters (erase s)) (fun w w' => Ages w.db w'.db) Passed where
  act s i inp x _ hw hx h := by
    have hp : x.1 ∈ (erase s).procs := List.mem_map_of_mem (List.mem_of_getElem? hx)
    exact ⟨procStep_ages (hw x.1 hp) inp, procStep_passed inp h⟩
  env s n _ _ := ⟨Nat.le_add_right _ _, evolves_of_same rfl⟩
  spawn s x hg _ := by
    intro req q hs hq
    rw [entry_submitting (hg.admissible x.1 rfl) hs] at hq
    cases hq
  stable w w' x hr h := h.stable hr
  refl w := ⟨le_rfl, evolves_of_same rfl⟩

structure GateInvariant (s : Watched) : Prop where
  writers : AllWriters (erase s)
  passed : Holds Passed s
  unique : OpenUnique s.shared.db

theorem next_gateInvariant {s : Watched} {e : Event (Proc × List (String × String)) Input Outside}
    (hg : Undisturbed s e) (hs : GateInvariant s) :
    GateInvariant (next (watched cfg format) s e) := by
  have hages := (passed_rules cfg format).next_rely hg hs.writers hs.passed
  refine ⟨?_, (passed_rules cfg format).next_holds hg hs.writers hs.passed, ?_⟩
  · rw [watched, erase_next]
    exact next_writers cfg format hg.admissible hs.writers
  · cases e with
    | spawn x => exact hs.unique
    | env n => exact openUnique_of_keys hages rfl hs.unique
    | act i inp =>
      cases hx : s.procs[i]? with
      | none => rw [next_idle hx]; exact hs.unique
      | some x =>
        rw [next_act hx] at hages ⊢
        rcases procStep_ritm_cases cfg format s.shared x.1 inp with
          hk | ⟨req, q, d, hsub, name, plan, rfl, hins⟩
        · exact openUnique_of_keys hages hk hs.unique
        · refine openUnique_insert hins hs.unique fun r hr hsame ho => ?_
          have hdup : Duplicates req s.shared.db r :=
            duplicates_iff.mpr ⟨hsame.tenantId, hsame.requestedFor, hsame.catalogItemId, ho⟩
          by_cases hseen : ritmKey r ∈ x.2
          · have hpass := hs.passed x (List.mem_of_getElem? hx) req _
                (submitting_of_submits hsub) rfl
            exact hpass.2 r hr hseen hdup
          · exact hg.insert i inp x.1 x.2 req name plan d rfl hx hsub r hr hseen hdup

theorem run_gateInvariant {s t : Watched} (h : Run (watched cfg format) Undisturbed s t)
    (hs : GateInvariant s) : GateInvariant t := h.invariant hs fun _ _ => next_gateInvariant

end Watching

/-- In every run in which no call is overtaken between its duplicate check and its insert,
at most one request item per order is open in the window, in every state. -/
theorem open_unique_of_undisturbed (cfg : Config)
    (format : String → JsonObject → Except FormatError String) {s₀ s : Watched}
    (h₀ : Initial (erase s₀)) (hu : OpenUnique s₀.shared.db)
    (h : Run (watched cfg format) Undisturbed s₀ s) : OpenUnique s.shared.db := by
  have hnil : s₀.procs = [] := List.map_eq_nil_iff.mp h₀.procs
  refine (run_gateInvariant h ⟨?_, ?_, hu⟩).unique
  · simp [AllWriters, h₀.procs]
  · simp [Holds, hnil]

/-- A step that inserts nothing disturbs nobody. -/
theorem undisturbed_of {s : Watched} {e : Event (Proc × List (String × String)) Input Outside}
    (ha : Admissible (erase s) e.erase)
    (h : s.shared.db.requestItem.rows = [] ∨ ∀ (i : ℕ) inp x req name plan d, e = .act i inp →
      s.procs[i]? = some x → submits x.1 inp ≠ some (req, .insertRitm name plan, d)) :
    Undisturbed s e := by
  refine ⟨ha, fun i inp p seen req name plan d he hx hs r hr => ?_⟩
  rcases h with h | h
  · rw [h] at hr
    cases hr
  · exact absurd hs (h i inp (p, seen) req name plan d he hx)

theorem OpenUnique.count {db : Db} (h : OpenUnique db) (t f c : String) :
    (db.requestItem.rows.filter (openDuplicate t f c duplicateLookbackDays db.now)).length ≤ 1 := by
  have hnodup : (db.requestItem.rows.filter
      (openDuplicate t f c duplicateLookbackDays db.now)).Nodup :=
    (List.Nodup.of_map _ db.requestItem.key_unique).filter _
  have hall : ∀ r ∈ db.requestItem.rows.filter (openDuplicate t f c duplicateLookbackDays db.now),
      r ∈ db.requestItem.rows ∧ r.tenantId = t ∧ r.requestedFor = f ∧ r.catalogItemId = c ∧
        OpenInWindow db.now r := by
    intro r hr
    obtain ⟨hmem, hd⟩ := List.mem_filter.mp hr
    simp only [openDuplicate, decide_eq_true_eq] at hd
    exact ⟨hmem, hd.1, hd.2.1, hd.2.2.1, hd.2.2.2⟩
  match hl : db.requestItem.rows.filter (openDuplicate t f c duplicateLookbackDays db.now) with
  | [] => simp
  | [_] => simp
  | a :: b :: l =>
    rw [hl] at hnodup hall
    obtain ⟨ha, hat, haf, hac, hao⟩ := hall a (by simp)
    obtain ⟨hb, hbt, hbf, hbc, hbo⟩ := hall b (by simp)
    have hab : a = b := h a ha b hb
      ⟨hat.trans hbt.symm, haf.trans hbf.symm, hac.trans hbc.symm⟩ hao hbo
    simp [hab] at hnodup

def manualTask (name : String) : RawTemplateTask :=
  ⟨some name, none, some name, some "manual", none, none, none, none, none⟩

def catalogDb (tasks : List RawTemplateTask) : Db where
  request := ⟨[⟨"t", "REQ1", "laptop request", "requested", "request", "laptop", "ann", "ann", []⟩],
    by simp, List.nodup_nil⟩
  requestItem := .empty
  task := .empty
  approval := .empty
  fulfillmentRun := .empty
  catalogItem := ⟨[⟨"t", "laptop", "laptop", none, some "hardware", some "it", some 60, tasks, []⟩],
    by simp, List.nodup_nil⟩
  sysUser := [("t", "ann")]
  now := 0
  ritm_length := by simp [Table.empty]
  ritm_request := by simp [Table.empty]
  task_ritm := by simp [Table.empty]

def orderLaptop (key : Option String) (h : ∀ k ∈ key, lengthBetween 0 128 k) : FulfillmentRequest :=
  { tenantId := "t"
    requestId := "REQ1"
    catalogItemId := "laptop"
    requestVariables := []
    requestedFor := "ann"
    openedBy := "ann"
    quantity := 1
    idempotencyKey := key
    triggerType := .portal
    valid := ⟨(by decide : lengthBetween 1 64 "t"), (by decide : lengthBetween 1 64 "REQ1"),
      (by decide : lengthBetween 1 64 "laptop"), (by decide : lengthBetween 1 128 "ann"),
      (by decide : lengthBetween 1 128 "ann"), (by decide : (1 : ℤ) ≤ 1 ∧ (1 : ℤ) ≤ 100), h⟩ }

def plainOrder : FulfillmentRequest := orderLaptop none (by simp)

def drawA : Draw := ⟨"00000000A1", "0000000000000A", by decide⟩
def drawB : Draw := ⟨"00000000B1", "0000000000000B", by decide⟩

def submit (req : FulfillmentRequest) : ServiceEvent := .spawn (.fulfil req .assertRequest)

/-- Two submissions that both pass the gate before either inserts. -/
def doubleSubmit : List ServiceEvent :=
  [submit plainOrder, submit plainOrder, .act 0 (.fulfil drawA), .act 0 (.fulfil drawA),
    .act 0 (.fulfil drawA), .act 1 (.fulfil drawB), .act 1 (.fulfil drawB), .act 1 (.fulfil drawB),
    .act 0 (.fulfil drawA), .act 1 (.fulfil drawB)]

theorem doubleSubmit_run : Run (service sampleConfig plainFormat) Admissible
    (quiet (catalogDb [manualTask "a"]))
    (play (service sampleConfig plainFormat)
      (quiet (catalogDb [manualTask "a"])) doubleSubmit) := by
  refine run_play _ (admits_entries _ _ ?_)
  intro p hp
  simp only [doubleSubmit, submit, List.mem_cons, Event.spawn.injEq, reduceCtorEq, or_false,
    or_self, List.not_mem_nil] at hp
  rw [hp]
  exact .fulfil plainOrder

def submitTwice : List (Event (Proc × List (String × String)) Input Outside) :=
  [.spawn (.fulfil plainOrder .assertRequest, []), .act 0 (.fulfil drawA), .act 0 (.fulfil drawA),
    .act 0 (.fulfil drawA), .act 0 (.fulfil drawA), .spawn (.fulfil plainOrder .assertRequest, []),
    .act 1 (.fulfil drawB), .act 1 (.fulfil drawB)]

def emptyStore : Watched := ⟨(quiet (catalogDb [manualTask "a"])).shared, []⟩

theorem submitTwice_admits :
    Admits (watched sampleConfig plainFormat) Undisturbed emptyStore submitTwice := by
  refine ⟨undisturbed_of (admissible_spawn (.fulfil _)) (.inl rfl),
    undisturbed_of admissible_act (.inl rfl), undisturbed_of admissible_act (.inl rfl),
    undisturbed_of admissible_act (.inl rfl), undisturbed_of admissible_act (.inl rfl),
    undisturbed_of (admissible_spawn (.fulfil _)) (.inr ?_),
    undisturbed_of admissible_act (.inr ?_), undisturbed_of admissible_act (.inr ?_), trivial⟩
  · intro i inp x req name plan d he
    cases he
  all_goals
    intro i inp x req name plan d he hx hs
    cases he
    cases hx
    cases hs

theorem open_unique_submitTwice :
    ((play (watched sampleConfig plainFormat) emptyStore submitTwice).shared.db.requestItem.rows.map
      (·.ritmId)) = ["RITM00000000A1"] ∧
    OpenUnique (play (watched sampleConfig plainFormat) emptyStore submitTwice).shared.db :=
  ⟨by decide, open_unique_of_undisturbed sampleConfig plainFormat ⟨rfl, rfl, rfl, rfl⟩
    (fun _ hr => by cases hr) (run_play submitTwice submitTwice_admits)⟩

theorem double_submit_duplicates :
    OpenUnique (catalogDb [manualTask "a"]) ∧
    Run (service sampleConfig plainFormat) Admissible (quiet (catalogDb [manualTask "a"]))
      (play (service sampleConfig plainFormat) (quiet (catalogDb [manualTask "a"])) doubleSubmit) ∧
    ¬ OpenUnique (play (service sampleConfig plainFormat) (quiet (catalogDb [manualTask "a"]))
      doubleSubmit).shared.db := by
  refine ⟨?_, doubleSubmit_run, ?_⟩
  · intro r hr
    cases hr
  · intro h
    have htwo := h.count "t" "ann" "laptop"
    revert htwo
    decide

end FulfillmentDuplicateGate
