import OneOps.ExceptLoops
import OneOps.PythonText
import OneOps.TriageService

/-! The triage queue and the two ticket stores behind it. The queue asks for a missing triage
field, the database store takes the lock `category IS NULL`, and the fixture store asks for
its own mark of a triaged row. -/
namespace TriageStores

open PythonJson
open TriageService
open PythonText (strip)

/-- `str.lower`, the text of a timestamp and `str` of a value. -/
structure Texts extends PythonText.Lowering where
  isoformat : ℤ → String
  str : Doc → String

/-- A ticket as the queue reads it; a missing key reads as `None`. -/
structure Row where
  fields : Column → Doc
  status : Option String
  slaDue : Option String

def blank : Doc → Bool
  | .null => true
  | .str s => strip s = ""
  | _ => false

def Row.missingUc5Fields (row : Row) (serviceId : ServiceId) : List Column :=
  (triageFieldsFor serviceId).filter fun c => blank (row.fields c)

def isInQueue (T : Texts) (row : Row) (serviceId : ServiceId) : Bool :=
  if T.lower (strip (row.status.getD "")) ∈ closedStatuses then false
  else 0 < (row.missingUc5Fields serviceId).length

/-- The ticket rows, and the users and configuration items that their columns refer to, by
tenant. -/
structure Database where
  tickets : TicketKey → Option Ticket
  sysUser : String → String → Bool
  cmdbCi : String → String → Bool

def Database.row (T : Texts) (t : Ticket) : Row where
  fields c := (t.fields c).elim .null .str
  status := t.status
  slaDue := t.slaDue.map T.isoformat

def storable (s : String) : Bool := '\x00' ∉ s.toList

def Database.refers (db : Database) (tenantId : String) (texts : Column → Option String) : Bool :=
  ((texts .assignedTo).all fun u => db.sysUser tenantId u) &&
    (texts .ciId).all fun c => db.cmdbCi tenantId c

def applyFailed : Failure := .other "OneOpsError" "uc05.db_store: apply failed"

def alreadyTriaged (ticketId : String) : Failure :=
  .runtimeError (ticketId ++ " already triaged (optimistic-lock conflict: category no longer NULL)")

/-- `DbStore.apply`. The parameters are sent before a row is looked for, the foreign keys are
checked when one is written. -/
def Database.apply (db : Database) (key : TicketKey) (values : Values) (slaDue now : ℤ) :
    Except Failure Database :=
  match encode key.serviceId values with
  | none => .error applyFailed
  | some texts =>
    if ¬ (writableFieldsFor key.serviceId).all fun c => (texts c).all storable then
      .error applyFailed
    else
      match db.tickets key with
      | none => .error (.keyError key.ticketId)
      | some t =>
        if t.fields .category = none then
          if db.refers key.tenantId texts then
            .ok { db with
              tickets := Function.update db.tickets key (some (t.assign texts slaDue now)) }
          else .error applyFailed
        else .error (alreadyTriaged key.ticketId)

structure FixtureRow where
  ticketId : Option String
  fields : Column → Doc
  status : Option String
  slaDue : Option String
  triagedAt : Doc
  triagedBy : Option String
  updatedAt : Option String

structure Fixture where
  tenantId : String
  incidents : List FixtureRow
  requests : List FixtureRow

def FixtureRow.row (f : FixtureRow) : Row := ⟨f.fields, f.status, f.slaDue⟩

def Fixture.bucket (fx : Fixture) : ServiceId → List FixtureRow
  | .incident => fx.incidents
  | .request => fx.requests

def Fixture.setBucket (fx : Fixture) (serviceId : ServiceId) (rows : List FixtureRow) : Fixture :=
  match serviceId with
  | .incident => { fx with incidents := rows }
  | .request => { fx with requests := rows }

def Fixture.getTicket (fx : Fixture) (key : TicketKey) : Except Failure FixtureRow :=
  if fx.tenantId ≠ key.tenantId then .error (.keyError ("tenant mismatch for " ++ key.ticketId))
  else
    match (fx.bucket key.serviceId).find? fun f => f.ticketId = some key.ticketId with
    | none => .error (.keyError key.ticketId)
    | some f => .ok f

def truthy : Doc → Bool
  | .null => false
  | .bool b => b
  | .int n => n ≠ 0
  | .float repr => repr ≠ "0.0" ∧ repr ≠ "-0.0"
  | .str s => s ≠ ""
  | .arr xs => ¬ xs.isEmpty
  | .obj members => ¬ members.isEmpty

def FixtureRow.apply (T : Texts) (ticketId actorUserId : String) (values : Values)
    (slaDue now : ℤ) (f : FixtureRow) : Except Failure FixtureRow :=
  if truthy f.triagedAt then
    .error (.runtimeError (ticketId ++ " already triaged at " ++ T.str f.triagedAt))
  else
    .ok { f with
      fields := fun c => (values c).getD (f.fields c)
      slaDue := some (T.isoformat slaDue)
      triagedAt := .str (T.isoformat now)
      triagedBy := some actorUserId
      status := some "assigned"
      updatedAt := some (T.isoformat now) }

def applyFirst (ticketId : String) (update : FixtureRow → Except Failure FixtureRow) :
    List FixtureRow → Except Failure (List FixtureRow)
  | [] => .error (.keyError ticketId)
  | f :: fs =>
    if f.ticketId = some ticketId then (update f).map fun f' => f' :: fs
    else (applyFirst ticketId update fs).map fun fs' => f :: fs'

def Fixture.apply (T : Texts) (fx : Fixture) (key : TicketKey) (values : Values) (slaDue now : ℤ)
    (actorUserId : String) : Except Failure Fixture :=
  if fx.tenantId ≠ key.tenantId then .error (.keyError ("tenant mismatch for " ++ key.ticketId))
  else (applyFirst key.ticketId (FixtureRow.apply T key.ticketId actorUserId values slaDue now)
    (fx.bucket key.serviceId)).map (fx.setBucket key.serviceId)

/-- `_apply_impl` for a yes, over the store it is given: merge, SLA clock, store. -/
def applyYes {σ : Type} (store : Values → ℤ → ℤ → Except Failure σ) (p : Proposal)
    (finalValues : Option (List (String × Doc))) (now : ℤ) : Except Failure σ :=
  let merged := mergeFinalValues p (finalValues.getD [])
  match merged .priority with
  | none => .error (.keyError "priority")
  | some priority =>
    match computeSlaDue priority now with
    | .error f => .error f
    | .ok due => store merged due now

def applyToDb (db : Database) (p : Proposal) (finalValues : Option (List (String × Doc)))
    (now : ℤ) : Except Failure Database :=
  applyYes (db.apply p.key) p finalValues now

def applyToFixture (T : Texts) (fx : Fixture) (p : Proposal) (actorUserId : String)
    (finalValues : Option (List (String × Doc))) (now : ℤ) : Except Failure Fixture :=
  applyYes (fun values due at' => fx.apply T p.key values due at' actorUserId) p finalValues now

/-- One row in both stores, which the queue selects, and a yes with a value for each of its
triage fields. -/
structure Offered (T : Texts) (db : Database) (fx : Fixture) (p : Proposal)
    (finalValues : Option (List (String × Doc))) (t : Ticket) (f : FixtureRow) : Prop where
  stored : db.tickets p.key = some t
  inFile : fx.getTicket p.key = .ok f
  same : f.row = Database.row T t
  queued : isInQueue T f.row p.serviceId = true
  supplied : ∀ c ∈ triageFieldsFor p.serviceId,
    ∃ v, mergeFinalValues p (finalValues.getD []) c = some v ∧ v ≠ .str ""

/-- The decision succeeds on both stores, its ticket leaves the queue, and the stores hold the
same triage fields, status and deadline. -/
structure QueueAndStoresAgree (T : Texts) (db : Database) (fx : Fixture) (p : Proposal)
    (actorUserId : String) (finalValues : Option (List (String × Doc))) (now : ℤ)
    (db' : Database) (fx' : Fixture) (t' : Ticket) (f' : FixtureRow) : Prop where
  toDb : applyToDb db p finalValues now = .ok db'
  stored : db'.tickets p.key = some t'
  triaged : isInQueue T (Database.row T t') p.serviceId = false
  toFixture : applyToFixture T fx p actorUserId finalValues now = .ok fx'
  inFile : fx'.getTicket p.key = .ok f'
  fields : ∀ c ∈ triageFieldsFor p.serviceId, f'.row.fields c = (Database.row T t').fields c
  status : f'.row.status = (Database.row T t').status
  slaDue : f'.row.slaDue = (Database.row T t').slaDue

/-- No lock is taken, and the values are texts that the columns hold: texts without NUL that
name a user and a configuration item where they must, none of them blank. -/
structure Unlocked (db : Database) (p : Proposal) (values : Values) (t : Ticket) (f : FixtureRow) :
    Prop where
  category : t.fields .category = none
  untriaged : truthy f.triagedAt = false
  texts : ∀ c ∈ writableFieldsFor p.serviceId, ∀ v, values c = some v →
    ∃ s, v = .str s ∧ storable s = true
  assignee : ∀ s, values .assignedTo = some (.str s) → db.sysUser p.tenantId s = true
  ci : ∀ s, values .ciId = some (.str s) → db.cmdbCi p.tenantId s = true
  filled : ∀ c ∈ triageFieldsFor p.serviceId, ∀ s, values c = some (.str s) → strip s ≠ ""

def textOf : Doc → Option String
  | .str s => some s
  | _ => none

theorem textOf_eq_some {v : Doc} {s : String} : textOf v = some s ↔ v = .str s := by
  cases v <;> simp [textOf]

theorem encode_eq_some_iff {serviceId : ServiceId} {values : Values}
    {texts : Column → Option String} :
    encode serviceId values = some texts ↔
      (∀ c ∈ writableFieldsFor serviceId, ∀ v, values c = some v → ∃ s, v = .str s) ∧
        texts = fun c => (values c).bind textOf := by
  have htexts : encode serviceId values =
      if (writableFieldsFor serviceId).all fun c => (values c).all fun d => (textOf d).isSome then
        some fun c => (values c).bind textOf
      else none := rfl
  have hall : ((writableFieldsFor serviceId).all fun c =>
      (values c).all fun d => (textOf d).isSome) = true ↔
      ∀ c ∈ writableFieldsFor serviceId, ∀ v, values c = some v → ∃ s, v = .str s := by
    simp only [List.all_eq_true, Option.all_eq_true, Option.isSome_iff_exists, textOf_eq_some]
  rw [htexts]
  split
  · next h =>
    constructor
    · rintro ⟨⟩
      exact ⟨hall.mp h, rfl⟩
    · rintro ⟨-, rfl⟩
      rfl
  · next h =>
    constructor
    · rintro ⟨⟩
    · rintro ⟨htext, -⟩
      exact absurd (hall.mpr htext) h

theorem Database.apply_eq_ok_iff {db db' : Database} {key : TicketKey} {values : Values}
    {slaDue now : ℤ} :
    db.apply key values slaDue now = .ok db' ↔
      ∃ t, db.tickets key = some t ∧ t.fields .category = none ∧
        (∀ c ∈ writableFieldsFor key.serviceId, ∀ v, values c = some v →
          ∃ s, v = .str s ∧ storable s = true) ∧
        db.refers key.tenantId (fun c => (values c).bind textOf) = true ∧
        db' = { db with
          tickets := Function.update db.tickets key
            (some (t.assign (fun c => (values c).bind textOf) slaDue now)) } := by
  have hstorable : ∀ (htext : ∀ c ∈ writableFieldsFor key.serviceId, ∀ v, values c = some v →
      ∃ s, v = .str s),
      ((writableFieldsFor key.serviceId).all fun c =>
        ((values c).bind textOf).all storable) = true ↔
      ∀ c ∈ writableFieldsFor key.serviceId, ∀ v, values c = some v →
        ∃ s, v = .str s ∧ storable s = true := by
    intro htext
    simp only [List.all_eq_true, Option.all_eq_true, Option.bind_eq_some_iff, textOf_eq_some]
    constructor
    · intro h c hc v hv
      obtain ⟨s, rfl⟩ := htext c hc v hv
      exact ⟨s, rfl, h c hc s ⟨_, hv, rfl⟩⟩
    · rintro h c hc s ⟨v, hv, rfl⟩
      obtain ⟨s', hs', hok⟩ := h c hc _ hv
      cases hs'
      exact hok
  unfold Database.apply
  constructor
  · intro h
    split at h
    · cases h
    · next texts hencode =>
      obtain ⟨htext, rfl⟩ := encode_eq_some_iff.mp hencode
      split at h
      · cases h
      · next hall =>
        split at h
        · cases h
        · next t ht =>
          split at h
          · next hcategory =>
            split at h
            · next hrefers =>
              cases h
              exact ⟨t, ht, hcategory, (hstorable htext).mp (not_not.mp hall), hrefers, rfl⟩
            · cases h
          · cases h
  · rintro ⟨t, ht, hcategory, hvalues, hrefers, rfl⟩
    have htext : ∀ c ∈ writableFieldsFor key.serviceId, ∀ v, values c = some v →
        ∃ s, v = .str s := by
      intro c hc v hv
      obtain ⟨s, hs, -⟩ := hvalues c hc v hv
      exact ⟨s, hs⟩
    rw [encode_eq_some_iff.mpr ⟨htext, rfl⟩]
    dsimp only
    rw [if_neg (not_not.mpr ((hstorable htext).mpr hvalues)), ht]
    dsimp only
    rw [if_pos hcategory, if_pos hrefers]

/-- A write that the columns and foreign keys admit is the one of the triage service. -/
theorem Database.apply_storeApply {db db' : Database} {w : World} {d : Decision} {values : Values}
    {slaDue now : ℤ} (hw : w.tickets = db.tickets)
    (h : db.apply d.key values slaDue now = .ok db') :
    storeApply w d values slaDue now =
      ({ w with tickets := db'.tickets, writes := w.writes ++ [d.key] },
        .returning d values slaDue now) := by
  obtain ⟨t, ht, hcategory, hvalues, -, rfl⟩ := Database.apply_eq_ok_iff.mp h
  have hencode : encode d.proposal.serviceId values = some fun c => (values c).bind textOf := by
    refine encode_eq_some_iff.mpr ⟨?_, rfl⟩
    intro c hc v hv
    obtain ⟨s, hs, -⟩ := hvalues c hc v hv
    exact ⟨s, hs⟩
  unfold storeApply
  rw [hencode]
  dsimp only
  rw [hw, ht]
  dsimp only
  rw [if_pos hcategory]

section Fixture

variable {T : Texts} {fx fx' : Fixture} {key : TicketKey} {values : Values} {slaDue now : ℤ}
  {actorUserId : String} {f f' : FixtureRow}

@[simp] theorem Fixture.setBucket_bucket (fx : Fixture) (serviceId : ServiceId)
    (rows : List FixtureRow) : (fx.setBucket serviceId rows).bucket serviceId = rows := by
  cases serviceId <;> rfl

@[simp] theorem Fixture.setBucket_tenantId (fx : Fixture) (serviceId : ServiceId)
    (rows : List FixtureRow) : (fx.setBucket serviceId rows).tenantId = fx.tenantId := by
  cases serviceId <;> rfl

theorem Fixture.getTicket_eq_ok_iff :
    fx.getTicket key = .ok f ↔ fx.tenantId = key.tenantId ∧
      (fx.bucket key.serviceId).find? (fun f => f.ticketId = some key.ticketId) = some f := by
  unfold Fixture.getTicket
  by_cases ht : fx.tenantId = key.tenantId
  · rw [if_neg (not_not.mpr ht)]
    cases (fx.bucket key.serviceId).find? fun f => f.ticketId = some key.ticketId with
    | none => simp
    | some f' => simp [ht]
  · rw [if_pos ht]
    simp [ht]

theorem find?_applyFirst {ticketId : String} {update : FixtureRow → Except Failure FixtureRow}
    (hid : ∀ f f', update f = .ok f' → f'.ticketId = f.ticketId) {fs fs' : List FixtureRow}
    (hf : fs.find? (fun f => f.ticketId = some ticketId) = some f)
    (h : applyFirst ticketId update fs = .ok fs') :
    ∃ f', update f = .ok f' ∧ fs'.find? (fun f => f.ticketId = some ticketId) = some f' := by
  induction fs generalizing fs' with
  | nil => cases hf
  | cons g gs ih =>
    unfold applyFirst at h
    split at h
    · next hg =>
      rw [List.find?_cons_of_pos (by simpa using hg)] at hf
      cases hf
      obtain ⟨f', hf', hfs⟩ := ExceptLoops.map_eq_ok.mp h
      subst hfs
      refine ⟨f', hf', List.find?_cons_of_pos ?_⟩
      simpa [hid _ _ hf'] using hg
    · next hg =>
      rw [List.find?_cons_of_neg (by simpa using hg)] at hf
      obtain ⟨gs', hgs, hfs⟩ := ExceptLoops.map_eq_ok.mp h
      subst hfs
      rw [List.find?_cons_of_neg (by simpa using hg)]
      exact ih hf hgs

theorem applyFirst_eq_ok {ticketId : String} {update : FixtureRow → Except Failure FixtureRow}
    {fs : List FixtureRow} (hf : fs.find? (fun f => f.ticketId = some ticketId) = some f)
    (h : update f = .ok f') : ∃ fs', applyFirst ticketId update fs = .ok fs' := by
  induction fs with
  | nil => cases hf
  | cons g gs ih =>
    unfold applyFirst
    split
    · next hg =>
      rw [List.find?_cons_of_pos (by simpa using hg)] at hf
      cases hf
      exact ⟨f' :: gs, by rw [h]; rfl⟩
    · next hg =>
      rw [List.find?_cons_of_neg (by simpa using hg)] at hf
      obtain ⟨gs', hgs⟩ := ih hf
      exact ⟨g :: gs', by rw [hgs]; rfl⟩

theorem FixtureRow.apply_eq_ok {ticketId : String}
    (h : FixtureRow.apply T ticketId actorUserId values slaDue now f = .ok f') :
    truthy f.triagedAt = false ∧ f'.ticketId = f.ticketId := by
  unfold FixtureRow.apply at h
  split at h
  · cases h
  · next hmark =>
    cases h
    exact ⟨Bool.eq_false_iff.mpr hmark, rfl⟩

/-- A row that the file holds is rewritten where it is not marked as triaged. -/
theorem Fixture.apply_eq_ok_iff (hf : fx.getTicket key = .ok f) :
    (∃ fx', fx.apply T key values slaDue now actorUserId = .ok fx' ∧ fx'.getTicket key = .ok f') ↔
      FixtureRow.apply T key.ticketId actorUserId values slaDue now f = .ok f' := by
  obtain ⟨htenant, hfind⟩ := Fixture.getTicket_eq_ok_iff.mp hf
  have hid : ∀ f f', FixtureRow.apply T key.ticketId actorUserId values slaDue now f = .ok f' →
      f'.ticketId = f.ticketId := fun _ _ h => (FixtureRow.apply_eq_ok h).2
  unfold Fixture.apply
  rw [if_neg (not_not.mpr htenant)]
  constructor
  · rintro ⟨fx', hfx, hget⟩
    obtain ⟨fs', hfs, rfl⟩ := ExceptLoops.map_eq_ok.mp hfx
    obtain ⟨g, hg, hfind'⟩ := find?_applyFirst hid hfind hfs
    rw [Fixture.getTicket_eq_ok_iff, Fixture.setBucket_bucket, hfind'] at hget
    cases hget.2
    exact hg
  · intro h
    obtain ⟨fs', hfs⟩ := applyFirst_eq_ok hfind h
    obtain ⟨g, hg, hfind'⟩ := find?_applyFirst hid hfind hfs
    rw [h] at hg
    cases hg
    refine ⟨fx.setBucket key.serviceId fs', ?_, ?_⟩
    · rw [hfs]
      rfl
    · rw [Fixture.getTicket_eq_ok_iff, Fixture.setBucket_bucket, Fixture.setBucket_tenantId]
      exact ⟨htenant, hfind'⟩

end Fixture

section Decision

variable {T : Texts} {db db' : Database} {fx fx' : Fixture} {p : Proposal}
  {finalValues : Option (List (String × Doc))} {t t' : Ticket} {f f' : FixtureRow}
  {actorUserId : String} {now : ℤ}

theorem applyYes_eq_ok {σ : Type} {store : Values → ℤ → ℤ → Except Failure σ} {s : σ}
    (h : applyYes store p finalValues now = .ok s) :
    ∃ due, store (mergeFinalValues p (finalValues.getD [])) due now = .ok s := by
  unfold applyYes at h
  dsimp only at h
  split at h
  · cases h
  · split at h
    · cases h
    · next due _ => exact ⟨due, h⟩

theorem applyYes_of_text {s : String} (now : ℤ)
    (h : mergeFinalValues p (finalValues.getD []) .priority = some (.str s)) :
    ∃ due, ∀ {σ : Type} (store : Values → ℤ → ℤ → Except Failure σ),
      applyYes store p finalValues now =
        store (mergeFinalValues p (finalValues.getD [])) due now := by
  refine ⟨now + (slaDurationByPriority.lookup s).getD defaultSlaDuration, ?_⟩
  intro σ store
  unfold applyYes
  dsimp only
  rw [h]
  rfl

theorem isInQueue_assigned (row : Row) (hstatus : row.status = some "assigned")
    (serviceId : ServiceId) :
    isInQueue T row serviceId = false ↔
      ∀ c ∈ triageFieldsFor serviceId, blank (row.fields c) = false := by
  have hstrip : strip "assigned" = "assigned" := by decide
  have hlower : T.lower "assigned" = "assigned" := by
    rw [T.lower_ascii "assigned" (by simp)]
    decide
  have hopen : T.lower (strip (row.status.getD "")) ∉ closedStatuses := by
    rw [hstatus, Option.getD_some, hstrip, hlower]
    decide
  unfold isInQueue
  rw [if_neg hopen]
  simp [Row.missingUc5Fields]

theorem triageFieldsFor_subset {serviceId : ServiceId} {c : Column}
    (h : c ∈ triageFieldsFor serviceId) : c ∈ writableFieldsFor serviceId :=
  List.mem_append_left _ h

theorem priority_mem (serviceId : ServiceId) : Column.priority ∈ triageFieldsFor serviceId := by
  cases serviceId <;> decide

theorem refers_iff {values : Values} (tenantId : String) :
    db.refers tenantId (fun c => (values c).bind textOf) = true ↔
      (∀ s, values .assignedTo = some (.str s) → db.sysUser tenantId s = true) ∧
        ∀ s, values .ciId = some (.str s) → db.cmdbCi tenantId s = true := by
  simp only [Database.refers, Bool.and_eq_true, Option.all_eq_true, Option.bind_eq_some_iff,
    textOf_eq_some, exists_eq_right]

theorem assign_row {values : Values} {due : ℤ} {c : Column} {s : String}
    (h : values c = some (.str s)) :
    (Database.row T (t.assign (fun c => (values c).bind textOf) due now)).fields c = .str s := by
  simp [Database.row, Ticket.assign, h, textOf]

end Decision

def asciiTexts : Texts where
  toLowering := PythonText.asciiLowering
  isoformat := toString
  str _ := ""

def openIncident (filled : Column → Option String) : Ticket where
  fields := filled
  status := some "new"
  slaDue := none
  updatedAt := none

def openIncidentRow (filled : Column → Option String) : FixtureRow where
  ticketId := some "INC0000001"
  fields c := (filled c).elim .null .str
  status := some "new"
  slaDue := none
  triagedAt := .null
  triagedBy := none
  updatedAt := none

def fullProposal : Proposal :=
  ⟨"p1", "INC0000001", .incident, "t", some "Network", some "VPN", some "U1", none, .onUsers,
    .high, .high, some "NetOps"⟩

def oneTicketDb (filled : Column → Option String) : Database where
  tickets key := if key = fullProposal.key then some (openIncident filled) else none
  sysUser _ u := u = "U1"
  cmdbCi _ c := c = "CI0000001"

def oneTicketFile (filled : Column → Option String) : Fixture := ⟨"t", [openIncidentRow filled], []⟩

theorem fullProposal_offered {filled : Column → Option String}
    {finalValues : Option (List (String × Doc))}
    (hblank : blank ((filled .priority).elim .null .str) = true)
    (hsupplied : ∀ c ∈ triageFieldsFor .incident,
      ∃ v, mergeFinalValues fullProposal (finalValues.getD []) c = some v ∧ v ≠ .str "") :
    Offered asciiTexts (oneTicketDb filled) (oneTicketFile filled) fullProposal finalValues
      (openIncident filled) (openIncidentRow filled) where
  stored := by simp [oneTicketDb]
  inFile := rfl
  same := rfl
  queued := by
    have hopen : asciiTexts.lower (strip ((openIncidentRow filled).row.status.getD "")) ∉
        closedStatuses := by
      change asciiTexts.lower (strip "new") ∉ closedStatuses
      decide
    have hmissing : Column.priority ∈ (openIncidentRow filled).row.missingUc5Fields .incident :=
      List.mem_filter.mpr ⟨by decide, hblank⟩
    unfold isInQueue
    rw [if_neg hopen, decide_eq_true_eq]
    exact List.length_pos_of_mem hmissing
  supplied := hsupplied

/-- Half of the fields are filled, the priority with a blank. -/
def halfTriaged : Column → Option String
  | .impact => some "On Users"
  | .priority => some " "
  | .assignmentGroup => some "NetOps"
  | .ciId => some "CI0000002"
  | _ => none

def edits : List (String × Doc) :=
  [("subcategory", .str "Wifi"), ("ci_id", .str "CI0000001"), ("urgency", .null)]

theorem halfTriaged_offered :
    Offered asciiTexts (oneTicketDb halfTriaged) (oneTicketFile halfTriaged) fullProposal
      (some edits) (openIncident halfTriaged) (openIncidentRow halfTriaged) := by
  refine fullProposal_offered (by decide) ?_
  intro c hc
  cases c with
  | ciId => exact absurd hc (by decide)
  | _ => exact ⟨_, rfl, fun h => absurd (Doc.str.inj h) (by decide)⟩

theorem halfTriaged_unlocked :
    Unlocked (oneTicketDb halfTriaged) fullProposal (mergeFinalValues fullProposal edits)
      (openIncident halfTriaged) (openIncidentRow halfTriaged) where
  category := rfl
  untriaged := rfl
  texts := by
    intro c hc v hv
    cases c <;> cases hv <;> exact ⟨_, rfl, by decide⟩
  assignee := by
    rintro s ⟨⟩
    decide
  ci := by
    rintro s ⟨⟩
    decide
  filled := by
    intro c hc s hs
    cases c <;> cases hs <;> decide

def categorised (c : Column) : Option String := if c = .category then some "Network" else none

end TriageStores
