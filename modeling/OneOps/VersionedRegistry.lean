import OneOps.RowMerge
import OneOps.ListSplit
import Mathlib.Data.List.Sort
import Mathlib.Algebra.GroupWithZero.Nat
import Mathlib.Data.List.Nodup
import Mathlib.Data.List.Perm.Subperm

/-! The versioned registry store: every record has an envelope of numbered versions and a
pointer to the active one. The mutators write the status of one version each; a new version
keeps whatever status the caller gave it. The lifecycle state of a record is read off its
pointer and its statuses. -/
namespace VersionedRegistry

open RowMerge
open ListSplit

inductive RecordStatus where
  | draft | active | deprecated | retired
  deriving DecidableEq, Repr

/-- A record of any kind; `body` has the fields that the store does not read. -/
structure RegistryRecord (β : Type*) where
  id : String
  version : ℕ
  status : RecordStatus
  body : β

structure Envelope (β : Type*) where
  id : String
  versions : List (ℕ × RegistryRecord β)
  activeVersion : Option ℕ

variable {β : Type*}

/-- The backend's envelopes of one kind, one for each id. -/
structure Store (β : Type*) where
  kind : String
  envelopes : List (Envelope β)

inductive RegistryError where
  | conflict (message : String)
  | notFound (message : String)
  | validation (message : String)
  deriving DecidableEq, Repr

def read (D : Store β) (recordId : String) : Option (Envelope β) :=
  D.envelopes.find? fun e => e.id = recordId

def write (D : Store β) (e : Envelope β) : Store β :=
  { D with envelopes := upsert Envelope.id D.envelopes e }

def label (D : Store β) (recordId : String) : String := D.kind ++ "/" ++ recordId

def hasVersion (e : Envelope β) (version : ℕ) : Prop := version ∈ e.versions.map Prod.fst

instance (e : Envelope β) (version : ℕ) : Decidable (hasVersion e version) :=
  inferInstanceAs (Decidable (_ ∈ _))

def create (D : Store β) (r : RegistryRecord β) : Except RegistryError (Store β) :=
  match read D r.id with
  | some _ => .error (.conflict (label D r.id ++ " already exists — use update()"))
  | none =>
    if r.version ≠ 1 then
      .error (.validation (label D r.id ++ ": a new record must be version 1, got " ++
        toString r.version))
    else .ok (write D ⟨r.id, [(1, r)], none⟩)

def expectedVersion (e : Envelope β) : ℕ := (e.versions.map Prod.fst).foldl max 0 + 1

def update (D : Store β) (r : RegistryRecord β) : Except RegistryError (Store β) :=
  match read D r.id with
  | none => .error (.notFound (label D r.id ++ " does not exist"))
  | some e =>
    if r.version ≠ expectedVersion e then
      .error (.conflict (label D r.id ++ ": next version must be " ++
        toString (expectedVersion e) ++ ", got " ++ toString r.version))
    else .ok (write D { e with versions := e.versions ++ [(expectedVersion e, r)] })

def setStatus (version : ℕ) (status : RecordStatus) (versions : List (ℕ × RegistryRecord β)) :
    List (ℕ × RegistryRecord β) :=
  versions.map fun p => if p.1 = version then (p.1, { p.2 with status := status }) else p

/-- The three transitions load the envelope, find the version and write the envelope back. -/
def transition (change : Envelope β → Envelope β) (D : Store β) (recordId : String)
    (version : ℕ) : Except RegistryError (Store β) :=
  match read D recordId with
  | none => .error (.notFound (label D recordId ++ " does not exist"))
  | some e =>
    if hasVersion e version then .ok (write D (change e))
    else .error (.notFound (label D recordId ++ " has no version " ++ toString version))

/-- The version that was active before is retired. -/
def withActivated (version : ℕ) (e : Envelope β) : Envelope β :=
  let demoted :=
    match e.activeVersion with
    | some prior => if prior ≠ version then setStatus prior .retired e.versions else e.versions
    | none => e.versions
  { e with versions := setStatus version .active demoted, activeVersion := some version }

def activate (D : Store β) (recordId : String) (version : ℕ) : Except RegistryError (Store β) :=
  transition (withActivated version) D recordId version

def withDeprecated (version : ℕ) (e : Envelope β) : Envelope β :=
  { e with versions := setStatus version .deprecated e.versions }

def deprecateVersion (D : Store β) (recordId : String) (version : ℕ) :
    Except RegistryError (Store β) :=
  transition (withDeprecated version) D recordId version

def withRetired (version : ℕ) (e : Envelope β) : Envelope β :=
  { e with
    versions := setStatus version .retired e.versions
    activeVersion := if e.activeVersion = some version then none else e.activeVersion }

def retire (D : Store β) (recordId : String) (version : ℕ) : Except RegistryError (Store β) :=
  transition (withRetired version) D recordId version

def delete (D : Store β) (recordId : String) : Except RegistryError (Store β) :=
  match read D recordId with
  | none => .error (.notFound (label D recordId ++ " does not exist"))
  | some _ => .ok { D with envelopes := D.envelopes.filter fun e => e.id ≠ recordId }

def statuses (e : Envelope β) : List RecordStatus := e.versions.map fun p => p.2.status

def unpointedStatus (e : Envelope β) : Option RecordStatus :=
  if .draft ∈ statuses e then some .draft
  else if ∀ s ∈ statuses e, s = .retired then some .retired
  else none

def statusOf (e : Envelope β) (version : ℕ) : Option RecordStatus :=
  (e.versions.find? fun p => p.1 = version).map fun p => p.2.status

def envelopeLifecycleStatus (e : Envelope β) : Option RecordStatus :=
  if e.versions.isEmpty then none
  else
    match e.activeVersion with
    | none => unpointedStatus e
    | some v =>
      match statusOf e v with
      | some .active => some .active
      | some .deprecated => some .deprecated
      | _ => unpointedStatus e

def materialiseAtStatus (e : Envelope β) (target : RecordStatus) : Option (RegistryRecord β) :=
  (e.versions.foldl (fun best p =>
    if p.2.status = target ∧ ∀ b ∈ best, b.1 < p.1 then some p else best)
    (none : Option (ℕ × RegistryRecord β))).map Prod.snd

def sorted (D : Store β) : List (Envelope β) := D.envelopes.insertionSort fun a b => a.id ≤ b.id

def listByStatus (D : Store β) (status : RecordStatus) : List (RegistryRecord β) :=
  (sorted D).filterMap fun e =>
    if envelopeLifecycleStatus e = some status then materialiseAtStatus e status else none

def lifecycleSummary (D : Store β) (status : RecordStatus) : ℕ :=
  ((sorted D).filter fun e => envelopeLifecycleStatus e = some status).length

def allStatuses : List RecordStatus := [.draft, .active, .deprecated, .retired]

inductive Call (β : Type*) where
  | create (r : RegistryRecord β)
  | update (r : RegistryRecord β)
  | activate (recordId : String) (version : ℕ)
  | deprecateVersion (recordId : String) (version : ℕ)
  | retire (recordId : String) (version : ℕ)
  | delete (recordId : String)

def call (D : Store β) : Call β → Except RegistryError (Store β)
  | .create r => create D r
  | .update r => update D r
  | .activate recordId version => activate D recordId version
  | .deprecateVersion recordId version => deprecateVersion D recordId version
  | .retire recordId version => retire D recordId version
  | .delete recordId => delete D recordId

/-- A call that raises has written nothing. -/
def commit (D : Store β) : Except RegistryError (Store β) → Store β
  | .ok D' => D'
  | .error _ => D

def step (D : Store β) (c : Call β) : Store β := commit D (call D c)

def after (kind : String) (calls : List (Call β)) : Store β := calls.foldl step ⟨kind, []⟩

structure Orderly (D : Store β) : Prop where
  numbered : ∀ e ∈ D.envelopes,
    e.versions.map Prod.fst = (List.range e.versions.length).map (· + 1)
  single : ∀ e ∈ D.envelopes, ((statuses e).filter fun s => s = .active).length ≤ 1
  pointed : ∀ e ∈ D.envelopes, ∀ v, e.activeVersion = some v →
    ∃ r, (v, r) ∈ e.versions ∧ (r.status = .active ∨ r.status = .deprecated)
  others : ∀ e ∈ D.envelopes, ∀ p ∈ e.versions, p.2.status = .active → e.activeVersion = some p.1
  total : (allStatuses.map (lifecycleSummary D)).sum = D.envelopes.length
  agree : ∀ s, lifecycleSummary D s = (listByStatus D s).length

/-- A new record is a draft or retired. A new version is not active, and it is deprecated
only beside a servable or a draft version. A version is deprecated only if there is a
servable version or another draft; it is retired only if another version is servable or a
draft, or all others are retired. -/
def Placed (D : Store β) : Call β → Prop
  | .create r => read D r.id = none → r.version = 1 → r.status = .draft ∨ r.status = .retired
  | .update r => ∀ e, read D r.id = some e → r.version = expectedVersion e →
      r.status ≠ .active ∧
        (r.status = .deprecated → e.activeVersion ≠ none ∨ .draft ∈ statuses e)
  | .deprecateVersion recordId v => ∀ e, read D recordId = some e → hasVersion e v →
      e.activeVersion ≠ none ∨ ∃ p ∈ e.versions, p.1 ≠ v ∧ p.2.status = .draft
  | .retire recordId v => ∀ e, read D recordId = some e → hasVersion e v →
      (∃ w, w ≠ v ∧ e.activeVersion = some w) ∨
      (∃ p ∈ e.versions, p.1 ≠ v ∧ p.2.status = .draft) ∨
      ∀ p ∈ e.versions, p.1 ≠ v → p.2.status = .retired
  | _ => True

/-- What is to hold of every envelope. -/
structure Ok (e : Envelope β) : Prop where
  nonempty : e.versions ≠ []
  numbered : e.versions.map Prod.fst = (List.range e.versions.length).map (· + 1)
  pointed : ∀ v, e.activeVersion = some v →
    ∃ r, (v, r) ∈ e.versions ∧ (r.status = .active ∨ r.status = .deprecated)
  others : ∀ p ∈ e.versions, p.2.status = .active → e.activeVersion = some p.1
  placed : e.activeVersion ≠ none ∨ .draft ∈ statuses e ∨ ∀ p ∈ e.versions, p.2.status = .retired

section Envelope

variable {e : Envelope β}

theorem versions_nodup
    (h : e.versions.map Prod.fst = (List.range e.versions.length).map (· + 1)) :
    (e.versions.map Prod.fst).Nodup := by
  rw [h]
  exact List.nodup_range.map (fun a b hab => by omega)

theorem mem_statuses {s : RecordStatus} : s ∈ statuses e ↔ ∃ p ∈ e.versions, p.2.status = s :=
  List.mem_map

theorem all_statuses {P : RecordStatus → Prop} :
    (∀ s ∈ statuses e, P s) ↔ ∀ p ∈ e.versions, P p.2.status :=
  List.forall_mem_map

theorem unpointedStatus_isSome :
    (unpointedStatus e).isSome ↔
      .draft ∈ statuses e ∨ ∀ p ∈ e.versions, p.2.status = .retired := by
  unfold unpointedStatus
  rw [← all_statuses (P := (· = .retired))]
  by_cases hd : .draft ∈ statuses e <;> by_cases hr : ∀ s ∈ statuses e, s = .retired <;>
    simp [hd, hr]

theorem statusOf_eq {v : ℕ} {r : RegistryRecord β} (hn : (e.versions.map Prod.fst).Nodup)
    (h : (v, r) ∈ e.versions) : statusOf e v = some r.status := by
  unfold statusOf
  cases hf : e.versions.find? fun p => p.1 = v with
  | none => exact absurd (List.find?_eq_none.mp hf (v, r) h) (by simp)
  | some p =>
    have hp : p = (v, r) := by
      apply List.inj_on_of_nodup_map hn (List.mem_of_find?_eq_some hf) h
      simpa using List.find?_some hf
    rw [hp]
    rfl

/-- The classifier finds a bucket exactly where a record can be placed. -/
theorem lifecycleStatus_isSome (hne : e.versions ≠ [])
    (hn : e.versions.map Prod.fst = (List.range e.versions.length).map (· + 1))
    (hp : ∀ v, e.activeVersion = some v →
      ∃ r, (v, r) ∈ e.versions ∧ (r.status = .active ∨ r.status = .deprecated)) :
    (envelopeLifecycleStatus e).isSome ↔
      e.activeVersion ≠ none ∨ .draft ∈ statuses e ∨ ∀ p ∈ e.versions, p.2.status = .retired := by
  unfold envelopeLifecycleStatus
  rw [if_neg (by simpa using hne)]
  cases ha : e.activeVersion with
  | none => simp [unpointedStatus_isSome]
  | some v =>
    obtain ⟨r, hr, hs⟩ := hp v ha
    have hst := statusOf_eq (versions_nodup hn) hr
    rcases hs with hs | hs <;> simp [hst, hs]

/-- The record behind a bucket can be materialised. -/
theorem lifecycleStatus_mem
    (hn : e.versions.map Prod.fst = (List.range e.versions.length).map (· + 1))
    (hp : ∀ v, e.activeVersion = some v →
      ∃ r, (v, r) ∈ e.versions ∧ (r.status = .active ∨ r.status = .deprecated))
    {s : RecordStatus} (h : envelopeLifecycleStatus e = some s) :
    ∃ p ∈ e.versions, p.2.status = s := by
  unfold envelopeLifecycleStatus at h
  by_cases hne : e.versions = []
  · simp [hne] at h
  rw [if_neg (by simpa using hne)] at h
  have hrest : unpointedStatus e = some s → ∃ p ∈ e.versions, p.2.status = s := by
    intro hu
    unfold unpointedStatus at hu
    by_cases hd : .draft ∈ statuses e
    · rw [if_pos hd] at hu
      cases hu
      exact mem_statuses.mp hd
    rw [if_neg hd] at hu
    by_cases hr : ∀ s ∈ statuses e, s = .retired
    · rw [if_pos hr] at hu
      cases hu
      obtain ⟨p, hp⟩ := List.exists_mem_of_ne_nil _ hne
      exact ⟨p, hp, hr _ (List.mem_map_of_mem hp)⟩
    · rw [if_neg hr] at hu
      cases hu
  cases ha : e.activeVersion with
  | none =>
    rw [ha] at h
    exact hrest h
  | some v =>
    obtain ⟨r, hr, hs⟩ := hp v ha
    have hst := statusOf_eq (versions_nodup hn) hr
    rcases hs with hs | hs
    · simp only [ha, hst, hs] at h
      cases h
      exact ⟨_, hr, hs⟩
    · simp only [ha, hst, hs] at h
      cases h
      exact ⟨_, hr, hs⟩

theorem materialise_isSome {target : RecordStatus} (h : ∃ p ∈ e.versions, p.2.status = target) :
    (materialiseAtStatus e target).isSome := by
  -- the fold never loses a candidate, and takes the first one it meets
  have hfold : ∀ (versions : List (ℕ × RegistryRecord β)) (best : Option (ℕ × RegistryRecord β)),
      (best.isSome ∨ ∃ p ∈ versions, p.2.status = target) →
      (versions.foldl (fun best p =>
        if p.2.status = target ∧ ∀ b ∈ best, b.1 < p.1 then some p else best) best).isSome := by
    intro versions
    induction versions with
    | nil => simp
    | cons p versions ih =>
      intro best hb
      rw [List.foldl_cons]
      apply ih
      by_cases hp : p.2.status = target ∧ ∀ b ∈ best, b.1 < p.1
      · rw [if_pos hp]
        exact .inl rfl
      · rw [if_neg hp]
        rcases hb with hb | ⟨q, hq, hqs⟩
        · exact .inl hb
        · rcases List.mem_cons.mp hq with rfl | hq
          · cases best with
            | none => exact absurd ⟨hqs, by simp⟩ hp
            | some b => exact .inl rfl
          · exact .inr ⟨q, hq, hqs⟩
  rw [materialiseAtStatus, Option.isSome_map]
  exact hfold e.versions none (.inr h)

theorem setStatus_versions (v : ℕ) (s : RecordStatus) (versions : List (ℕ × RegistryRecord β)) :
    (setStatus v s versions).map Prod.fst = versions.map Prod.fst := by
  rw [setStatus, List.map_map]
  apply List.map_congr_left
  intro p _
  by_cases h : p.1 = v <;> simp [h]

theorem setStatus_length (v : ℕ) (s : RecordStatus) (versions : List (ℕ × RegistryRecord β)) :
    (setStatus v s versions).length = versions.length := List.length_map _

theorem mem_setStatus {v : ℕ} {s : RecordStatus} {versions : List (ℕ × RegistryRecord β)}
    {p : ℕ × RegistryRecord β} :
    p ∈ setStatus v s versions ↔
      (p.1 ≠ v ∧ p ∈ versions) ∨ ∃ r, (v, r) ∈ versions ∧ p = (v, { r with status := s }) := by
  rw [setStatus, List.mem_map]
  constructor
  · rintro ⟨⟨w, r⟩, hq, rfl⟩
    by_cases h : w = v
    · subst h
      exact .inr ⟨r, hq, by simp⟩
    · exact .inl ⟨by simp [h], by simpa [h] using hq⟩
  · rintro (⟨hne, hp⟩ | ⟨r, hr, rfl⟩)
    · exact ⟨p, hp, if_neg hne⟩
    · exact ⟨(v, r), hr, if_pos rfl⟩

/-- Numbers and length survive a change of status. -/
theorem Ok.numbered_setStatus (h : Ok e) (v : ℕ) (s : RecordStatus) :
    (setStatus v s e.versions).map Prod.fst =
      (List.range (setStatus v s e.versions).length).map (· + 1) := by
  rw [setStatus_versions, setStatus_length]
  exact h.numbered

theorem Ok.setStatus_ne_nil (h : Ok e) (v : ℕ) (s : RecordStatus) :
    setStatus v s e.versions ≠ [] := by
  rw [setStatus, Ne, List.map_eq_nil_iff]
  exact h.nonempty

theorem hasVersion_iff {v : ℕ} : hasVersion e v ↔ ∃ r, (v, r) ∈ e.versions := by
  simp [hasVersion, List.mem_map]

/-- Other versions keep their status. -/
theorem draft_setStatus {v : ℕ} {s : RecordStatus} (hs : s ≠ .draft) {active : Option ℕ} :
    .draft ∈ statuses { e with versions := setStatus v s e.versions, activeVersion := active } ↔
      ∃ p ∈ e.versions, p.1 ≠ v ∧ p.2.status = .draft := by
  rw [mem_statuses]
  constructor
  · rintro ⟨p, hp, hd⟩
    rcases mem_setStatus.mp hp with ⟨hne, hp⟩ | ⟨r, _, rfl⟩
    · exact ⟨p, hp, hne, hd⟩
    · exact absurd hd hs
  · rintro ⟨p, hp, hne, hd⟩
    exact ⟨p, mem_setStatus.mpr (.inl ⟨hne, hp⟩), hd⟩

/-- Once the prior version is demoted, only the target may still be active. -/
theorem withActivated_versions (h : Ok e) (v : ℕ) : ∃ demoted,
    (withActivated v e).versions = setStatus v .active demoted ∧
    demoted.map Prod.fst = e.versions.map Prod.fst ∧ demoted.length = e.versions.length ∧
    ∀ p ∈ demoted, p.2.status = .active → p.1 = v := by
  cases ha : e.activeVersion with
  | none =>
    refine ⟨e.versions, by simp only [withActivated, ha], rfl, rfl, ?_⟩
    intro p hp hs
    rw [h.others p hp hs] at ha
    cases ha
  | some prior =>
    by_cases hpv : prior = v
    · refine ⟨e.versions, by simp [withActivated, ha, hpv], rfl, rfl, ?_⟩
      intro p hp hs
      have := h.others p hp hs
      rw [ha, Option.some.injEq] at this
      exact this.symm.trans hpv
    · refine ⟨setStatus prior .retired e.versions, by simp [withActivated, ha, hpv],
        setStatus_versions _ _ _, setStatus_length _ _ _, ?_⟩
      intro p hp hs
      rcases mem_setStatus.mp hp with ⟨hne, hp⟩ | ⟨r, _, rfl⟩
      · have := h.others p hp hs
        rw [ha, Option.some.injEq] at this
        exact absurd this.symm hne
      · cases hs

theorem withActivated_ok (h : Ok e) {v : ℕ} (hv : hasVersion e v) : Ok (withActivated v e) := by
  obtain ⟨demoted, hd, hfst, hlen, hactive⟩ := withActivated_versions h v
  obtain ⟨r, hr⟩ : ∃ r, (v, r) ∈ demoted := by
    have hmem : v ∈ demoted.map Prod.fst := by
      rw [hfst]
      exact hv
    obtain ⟨p, hp, rfl⟩ := List.mem_map.mp hmem
    exact ⟨p.2, hp⟩
  have hnew : (v, { r with status := RecordStatus.active }) ∈ (withActivated v e).versions := by
    rw [hd]
    exact mem_setStatus.mpr (.inr ⟨r, hr, rfl⟩)
  constructor
  · exact List.ne_nil_of_mem hnew
  · rw [hd, setStatus_versions, setStatus_length, hfst, hlen]
    exact h.numbered
  · intro w hw
    cases hw
    exact ⟨_, hnew, .inl rfl⟩
  · intro p hp hs
    rw [hd] at hp
    rcases mem_setStatus.mp hp with ⟨hne, hp⟩ | ⟨r, _, rfl⟩
    · exact absurd (hactive p hp hs) hne
    · rfl
  · exact .inl (by simp [withActivated])

theorem withDeprecated_ok_iff (h : Ok e) {v : ℕ} (hv : hasVersion e v) :
    Ok (withDeprecated v e) ↔
      e.activeVersion ≠ none ∨ ∃ p ∈ e.versions, p.1 ≠ v ∧ p.2.status = .draft := by
  obtain ⟨r, hr⟩ := hasVersion_iff.mp hv
  have hmine : (v, { r with status := RecordStatus.deprecated }) ∈ (withDeprecated v e).versions :=
    mem_setStatus.mpr (.inr ⟨r, hr, rfl⟩)
  constructor
  · intro ho
    rcases ho.placed with hp | hp | hp
    · exact .inl hp
    · exact .inr ((draft_setStatus (by decide)).mp hp)
    · cases hp _ hmine
  · intro hc
    constructor
    · exact h.setStatus_ne_nil v _
    · exact h.numbered_setStatus v _
    · intro w hw
      obtain ⟨q, hq, hs⟩ := h.pointed w hw
      by_cases hwv : w = v
      · subst hwv
        exact ⟨_, hmine, .inr rfl⟩
      · exact ⟨q, mem_setStatus.mpr (.inl ⟨hwv, hq⟩), hs⟩
    · intro p hp hs
      rcases mem_setStatus.mp hp with ⟨_, hp⟩ | ⟨_, _, rfl⟩
      · exact h.others p hp hs
      · cases hs
    · rcases hc with hc | hc
      · exact .inl hc
      · exact .inr (.inl ((draft_setStatus (by decide)).mpr hc))

theorem withRetired_active {v w : ℕ} :
    (withRetired v e).activeVersion = some w ↔ w ≠ v ∧ e.activeVersion = some w := by
  unfold withRetired
  by_cases ha : e.activeVersion = some v
  · simp only [ha, if_true]
    constructor
    · intro h
      cases h
    · rintro ⟨hne, he⟩
      exact absurd (Option.some.inj he).symm hne
  · simp only [ha, if_false]
    refine ⟨fun h => ⟨?_, h⟩, fun h => h.2⟩
    rintro rfl
    exact ha h

theorem withRetired_ok_iff (h : Ok e) {v : ℕ} :
    Ok (withRetired v e) ↔
      (∃ w, w ≠ v ∧ e.activeVersion = some w) ∨
      (∃ p ∈ e.versions, p.1 ≠ v ∧ p.2.status = .draft) ∨
      ∀ p ∈ e.versions, p.1 ≠ v → p.2.status = .retired := by
  have hpoint : (withRetired v e).activeVersion ≠ none ↔
      ∃ w, w ≠ v ∧ e.activeVersion = some w := by
    rw [Option.ne_none_iff_exists']
    simp only [withRetired_active]
  have hall : (∀ p ∈ (withRetired v e).versions, p.2.status = .retired) ↔
      ∀ p ∈ e.versions, p.1 ≠ v → p.2.status = .retired := by
    constructor
    · intro hp p hpm hne
      exact hp p (mem_setStatus.mpr (.inl ⟨hne, hpm⟩))
    · intro hp p hpm
      rcases mem_setStatus.mp hpm with ⟨hne, hpm⟩ | ⟨_, _, rfl⟩
      · exact hp p hpm hne
      · rfl
  have hdraft : .draft ∈ statuses (withRetired v e) ↔
      ∃ p ∈ e.versions, p.1 ≠ v ∧ p.2.status = .draft := draft_setStatus (by decide)
  rw [← hpoint, ← hall, ← hdraft]
  refine ⟨fun ho => ho.placed,
    fun hc => ⟨h.setStatus_ne_nil v _, h.numbered_setStatus v _, ?_, ?_, hc⟩⟩
  · intro w hw
    obtain ⟨hne, hw⟩ := withRetired_active.mp hw
    obtain ⟨q, hq, hs⟩ := h.pointed w hw
    exact ⟨q, mem_setStatus.mpr (.inl ⟨hne, hq⟩), hs⟩
  · intro p hp hs
    rcases mem_setStatus.mp hp with ⟨hne, hp⟩ | ⟨_, _, rfl⟩
    · exact withRetired_active.mpr ⟨hne, h.others p hp hs⟩
    · cases hs

theorem created_ok_iff {r : RegistryRecord β} :
    Ok ⟨r.id, [(1, r)], none⟩ ↔ r.status = .draft ∨ r.status = .retired := by
  constructor
  · intro h
    rcases h.placed with hp | hp | hp
    · exact absurd rfl hp
    · exact .inl (by simpa [statuses, eq_comm] using hp)
    · exact .inr (by simpa using hp)
  · intro h
    have hna : r.status ≠ .active := by
      rcases h with h | h <;> simp [h]
    refine ⟨by simp, rfl, fun v hv => (by cases hv), ?_, ?_⟩
    · intro p hp hs
      rw [List.mem_singleton.mp hp] at hs
      exact absurd hs hna
    · rcases h with h | h
      · exact .inr (.inl (by simp [statuses, h]))
      · exact .inr (.inr (by simpa using h))

theorem foldl_max_range (n : ℕ) : ((List.range n).map (· + 1)).foldl max 0 = n := by
  induction n with
  | zero => rfl
  | succ n ih =>
    rw [List.range_succ, List.map_append, List.foldl_append, ih]
    simp

theorem Ok.expectedVersion (h : Ok e) : expectedVersion e = e.versions.length + 1 := by
  rw [VersionedRegistry.expectedVersion, h.numbered, foldl_max_range]

theorem Ok.expected_new (h : Ok e) : ¬ hasVersion e (e.versions.length + 1) := by
  rw [hasVersion, h.numbered]
  simp

theorem updated_ok_iff (h : Ok e) {r : RegistryRecord β} :
    Ok { e with versions := e.versions ++ [(VersionedRegistry.expectedVersion e, r)] } ↔
      r.status ≠ .active ∧
        (r.status = .deprecated → e.activeVersion ≠ none ∨ .draft ∈ statuses e) := by
  rw [h.expectedVersion]
  have hdraft :
      .draft ∈ statuses { e with versions := e.versions ++ [(e.versions.length + 1, r)] } ↔
      .draft ∈ statuses e ∨ r.status = .draft := by
    simp [statuses, eq_comm]
  constructor
  · intro ho
    constructor
    · intro hs
      have := ho.others (e.versions.length + 1, r) (by simp) hs
      obtain ⟨q, hq, _⟩ := h.pointed _ this
      exact h.expected_new (hasVersion_iff.mpr ⟨q, hq⟩)
    · intro hs
      rcases ho.placed with hp | hp | hp
      · exact .inl hp
      · rcases hdraft.mp hp with hp | hp
        · exact .inr hp
        · rw [hs] at hp
          cases hp
      · have := hp (e.versions.length + 1, r) (by simp)
        rw [hs] at this
        cases this
  · rintro ⟨hna, hdep⟩
    refine ⟨by simp, ?_, ?_, ?_, ?_⟩
    · simp only [List.map_append, List.length_append, List.length_singleton, List.range_succ,
        h.numbered, List.map_cons, List.map_nil]
    · intro v hv
      obtain ⟨q, hq, hs⟩ := h.pointed v hv
      exact ⟨q, List.mem_append_left _ hq, hs⟩
    · intro p hp hs
      rcases List.mem_append.mp hp with hp | hp
      · exact h.others p hp hs
      · rw [List.mem_singleton.mp hp] at hs
        exact absurd hs hna
    · rcases h.placed with hp | hp | hp
      · exact .inl hp
      · exact .inr (.inl (hdraft.mpr (.inl hp)))
      · -- all older versions are retired: the new one decides
        cases hs : r.status with
        | draft => exact .inr (.inl (hdraft.mpr (.inr hs)))
        | active => exact absurd hs hna
        | deprecated =>
          rcases hdep hs with hd | hd
          · exact .inl hd
          · exact .inr (.inl (hdraft.mpr (.inl hd)))
        | retired =>
          refine .inr (.inr ?_)
          intro p hpm
          rcases List.mem_append.mp hpm with hpm | hpm
          · exact hp p hpm
          · rw [List.mem_singleton.mp hpm]
            exact hs

end Envelope

def AllOk (D : Store β) : Prop := ∀ e ∈ D.envelopes, Ok e

section Store

variable {D : Store β}

theorem read_mem {recordId : String} {e : Envelope β} (h : read D recordId = some e) :
    e ∈ D.envelopes := List.mem_of_find?_eq_some h

theorem write_ok_iff (h : AllOk D) {e : Envelope β} : AllOk (write D e) ↔ Ok e := by
  constructor
  · intro hw
    exact hw e (mem_upsert.mpr (.inl rfl))
  · intro he x hx
    rcases mem_upsert.mp hx with rfl | ⟨hx, _⟩
    · exact he
    · exact h x hx

theorem transition_ok_iff (h : AllOk D) {change : Envelope β → Envelope β} {recordId : String}
    {v : ℕ} {C : Envelope β → Prop}
    (hc : ∀ e, Ok e → hasVersion e v → (Ok (change e) ↔ C e)) :
    AllOk (commit D (transition change D recordId v)) ↔
      ∀ e, read D recordId = some e → hasVersion e v → C e := by
  unfold transition
  cases hr : read D recordId with
  | none => exact ⟨fun _ _ he => (by cases he), fun _ => h⟩
  | some e =>
    have hok : Ok e := h e (read_mem hr)
    by_cases hv : hasVersion e v
    · simp only [if_pos hv, commit, write_ok_iff h, hc e hok hv]
      refine ⟨?_, fun hC => hC e rfl hv⟩
      rintro hC _ he _
      cases he
      exact hC
    · simp only [if_neg hv, commit]
      refine ⟨?_, fun _ => h⟩
      rintro _ _ he hv'
      cases he
      exact absurd hv' hv

theorem create_ok_iff (h : AllOk D) (r : RegistryRecord β) :
    AllOk (commit D (create D r)) ↔
      (read D r.id = none → r.version = 1 → r.status = .draft ∨ r.status = .retired) := by
  unfold create
  cases hr : read D r.id with
  | some e => exact ⟨fun _ he => (by cases he), fun _ => h⟩
  | none =>
    by_cases hv : r.version = 1
    · simp only [hv, ne_eq, not_true, if_false, commit, write_ok_iff h, created_ok_iff,
        forall_const]
    · simp only [hv, ne_eq, not_false_eq_true, if_true, commit, false_implies, implies_true,
        iff_true]
      exact h

theorem update_ok_iff (h : AllOk D) (r : RegistryRecord β) :
    AllOk (commit D (update D r)) ↔
      ∀ e, read D r.id = some e → r.version = expectedVersion e →
        r.status ≠ .active ∧
          (r.status = .deprecated → e.activeVersion ≠ none ∨ .draft ∈ statuses e) := by
  unfold update
  cases hr : read D r.id with
  | none => exact ⟨fun _ _ he => (by cases he), fun _ => h⟩
  | some e =>
    by_cases hv : r.version = expectedVersion e
    · simp only [hv, ne_eq, not_true, if_false, commit, write_ok_iff h,
        updated_ok_iff (h e (read_mem hr))]
      refine ⟨?_, fun hC => hC e rfl rfl⟩
      rintro hC _ he _
      cases he
      exact hC
    · simp only [hv, ne_eq, not_false_eq_true, if_true, commit]
      refine ⟨?_, fun _ => h⟩
      rintro _ _ he hv'
      cases he
      exact absurd hv' hv

/-- One call keeps every envelope in order exactly when it is placed. -/
theorem step_ok_iff (h : AllOk D) (c : Call β) : AllOk (step D c) ↔ Placed D c := by
  cases c with
  | create r => exact create_ok_iff h r
  | update r => exact update_ok_iff h r
  | activate recordId v =>
    have hall : AllOk (commit D (activate D recordId v)) ↔
        ∀ e, read D recordId = some e → hasVersion e v → True :=
      transition_ok_iff h fun e he hv => ⟨fun _ => trivial, fun _ => withActivated_ok he hv⟩
    exact hall.trans ⟨fun _ => trivial, fun _ _ _ _ => trivial⟩
  | deprecateVersion recordId v =>
    exact transition_ok_iff h fun e he hv => withDeprecated_ok_iff he hv
  | retire recordId v => exact transition_ok_iff h fun e he _ => withRetired_ok_iff he
  | delete recordId =>
    refine ⟨fun _ => trivial, fun _ => ?_⟩
    change AllOk (commit D (delete D recordId))
    unfold delete
    cases read D recordId with
    | none => exact h
    | some e =>
      intro x hx
      exact h x (List.mem_filter.mp hx).1

theorem sorted_perm (D : Store β) : (sorted D).Perm D.envelopes := List.perm_insertionSort _ _

theorem sum_buckets (l : List (Envelope β)) :
    (allStatuses.map fun s => (l.filter fun e => envelopeLifecycleStatus e = some s).length).sum =
      (l.filter fun e => (envelopeLifecycleStatus e).isSome).length := by
  induction l with
  | nil => rfl
  | cons e l ih =>
    simp only [allStatuses, List.map_cons, List.map_nil, List.sum_cons, List.sum_nil] at ih ⊢
    cases he : envelopeLifecycleStatus e with
    | none => simpa [he] using ih
    | some s => cases s <;> simp [he] <;> omega

theorem total_iff : (allStatuses.map (lifecycleSummary D)).sum = D.envelopes.length ↔
    ∀ e ∈ D.envelopes, (envelopeLifecycleStatus e).isSome = true := by
  have h := sum_buckets (sorted D)
  change (allStatuses.map (lifecycleSummary D)).sum = _ at h
  rw [h, ← (sorted_perm D).length_eq, List.length_filter_eq_length_iff]
  exact ⟨fun hs e he => hs e ((sorted_perm D).mem_iff.mpr he),
    fun hs e he => hs e ((sorted_perm D).mem_iff.mp he)⟩

theorem AllOk.agree (h : AllOk D) (s : RecordStatus) :
    lifecycleSummary D s = (listByStatus D s).length := by
  rw [lifecycleSummary, listByStatus, List.length_filterMap_eq_countP,
    ← List.countP_eq_length_filter]
  apply List.countP_congr
  intro e he
  have hok : Ok e := h e ((sorted_perm D).mem_iff.mp he)
  by_cases hs : envelopeLifecycleStatus e = some s
  · simp only [hs, decide_true, if_true]
    exact ⟨fun _ => materialise_isSome (lifecycleStatus_mem hok.numbered hok.pointed hs),
      fun _ => trivial⟩
  · simp [hs]

theorem Ok.single {e : Envelope β} (h : Ok e) :
    ((statuses e).filter fun s => s = .active).length ≤ 1 := by
  have hfilter : (statuses e).filter (fun s => s = .active) =
      (e.versions.filter fun p => p.2.status = .active).map fun p => p.2.status := by
    rw [statuses, List.filter_map]
    rfl
  have hn : ((e.versions.filter fun p => p.2.status = .active).map Prod.fst).Nodup :=
    (versions_nodup h.numbered).sublist (List.filter_sublist.map _)
  -- the active versions all are the one that the pointer names
  have hsub : (e.versions.filter fun p => p.2.status = .active).map Prod.fst ⊆
      e.activeVersion.toList := by
    intro v hv
    obtain ⟨p, hp, rfl⟩ := List.mem_map.mp hv
    obtain ⟨hp, hs⟩ := List.mem_filter.mp hp
    rw [h.others p hp (by simpa using hs)]
    simp
  have hle := (List.subperm_of_subset hn hsub).length_le
  rw [List.length_map] at hle
  rw [hfilter, List.length_map]
  apply hle.trans
  cases e.activeVersion <;> simp

/-- What is asked of the whole store comes down to its envelopes. -/
theorem orderly_iff : Orderly D ↔ AllOk D := by
  constructor
  · intro h e he
    have hsome := total_iff.mp h.total e he
    have hne : e.versions ≠ [] := by
      intro hnil
      simp [envelopeLifecycleStatus, hnil] at hsome
    exact ⟨hne, h.numbered e he, h.pointed e he, h.others e he,
      (lifecycleStatus_isSome hne (h.numbered e he) (h.pointed e he)).mp hsome⟩
  · intro h
    refine ⟨fun e he => (h e he).numbered, fun e he => (h e he).single,
      fun e he => (h e he).pointed, fun e he => (h e he).others, total_iff.mpr ?_, h.agree⟩
    intro e he
    have hok := h e he
    exact (lifecycleStatus_isSome hok.nonempty hok.numbered hok.pointed).mpr hok.placed

end Store

theorem after_snoc (kind : String) (calls : List (Call β)) (c : Call β) :
    after kind (calls ++ [c]) = step (after kind calls) c := by
  simp [after]

/-- In every sequence of calls, the store is in order after each of them exactly when each
call that writes a status leaves its record a place. -/
theorem registry_orderly_iff (kind : String) (calls : List (Call β)) :
    AtEach (fun before c => Orderly (after kind (before ++ [c]))) calls ↔
      AtEach (fun before c => Placed (after kind before) c) calls := by
  apply atEach_congr (I := fun before => AllOk (after kind before))
  · intro e he
    cases he
  · intro before c h
    rw [orderly_iff, after_snoc]
    exact step_ok_iff h c
  · intro before c _ h
    exact orderly_iff.mp h

def summarise (status : RecordStatus) (version : ℕ) : RegistryRecord Unit :=
  ⟨"uc01_summarization", version, status, ()⟩

/-- A draft that is deprecated before it was ever active is in no bucket. -/
def deprecatedDraft : Store Unit :=
  after "agents" [.create (summarise .draft 1), .deprecateVersion "uc01_summarization" 1]

/-- Two versions that the caller marked active are both stored as such. -/
def twoActive : Store Unit :=
  after "agents" [.create (summarise .active 1), .update (summarise .active 2)]

theorem unplaced_records :
    (deprecatedDraft.envelopes.length = 1 ∧
      (allStatuses.map (lifecycleSummary deprecatedDraft)).sum = 0 ∧ ¬ Orderly deprecatedDraft) ∧
    (twoActive.envelopes.map statuses = [[.active, .active]] ∧
      twoActive.envelopes.map Envelope.activeVersion = [none] ∧ ¬ Orderly twoActive) := by
  have h₁ : deprecatedDraft.envelopes.length = 1 := by decide +kernel
  have h₂ : (allStatuses.map (lifecycleSummary deprecatedDraft)).sum = 0 := by decide +kernel
  have h₃ : (allStatuses.map (lifecycleSummary twoActive)).sum = 0 := by decide +kernel
  have h₄ : twoActive.envelopes.length = 1 := by decide +kernel
  refine ⟨⟨h₁, h₂, fun h => ?_⟩, by decide +kernel, by decide +kernel, fun h => ?_⟩
  · have := h.total
    omega
  · have := h.total
    omega

end VersionedRegistry
