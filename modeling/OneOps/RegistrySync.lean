import OneOps.RegistryReads
import Mathlib.Data.List.Perm.Basic
import Mathlib.Data.List.Sort

/-! The registry in the database. `sync.py` writes one row for each version of each card, and
`PostgresBackend` reassembles the envelopes from the rows. What the service reads there is
compared with what it reads from the files, over whole histories of authoring and syncs. -/
namespace RegistrySync

open RowMerge
open VersionedRegistry
open RegistryReads

deriving instance DecidableEq for RegistryRecord

/-- A row of `itsm.agent`, `itsm.tool` or `itsm.uc_schema`. -/
structure Row (β : Type*) where
  id : String
  version : ℕ
  status : RecordStatus
  body : RegistryRecord β
  deriving DecidableEq

variable {β : Type*}

def Row.key (r : Row β) : String × ℕ := (r.id, r.version)

def rowOf (recordId : String) (p : ℕ × RegistryRecord β) : Row β :=
  ⟨recordId, p.1, p.2.status, p.2⟩

def cardRows (D : Store β) : List (Row β) :=
  (sorted D).flatMap fun e => e.versions.map (rowOf e.id)

section

variable [DecidableEq β]

/-- `_UPSERT` and the number of rows it reports: a conflicting row is written only if its body
or its status differ. -/
def upsertRow (table : List (Row β)) (r : Row β) : List (Row β) × ℕ :=
  match lookup Row.key table r.key with
  | none => (table ++ [r], 1)
  | some old =>
    if old.body ≠ r.body ∨ old.status ≠ r.status then (upsert Row.key table r, 1) else (table, 0)

def upsertRows (table : List (Row β)) (rows : List (Row β)) : List (Row β) × ℕ :=
  rows.foldl (fun acc r => ((upsertRow acc.1 r).1, acc.2 + (upsertRow acc.1 r).2)) (table, 0)

def retireRow (seen : List String) (r : Row β) : Row β :=
  if r.id ∈ seen then r else { r with status := .retired }

structure Counts where
  rows : ℕ
  changed : ℕ
  retired : ℕ
  deriving DecidableEq, Repr

/-- One run of `sync.py`, in one transaction. Without any card it exits before it connects. -/
def sync (retireMissing : Bool) (table : List (Row β)) (D : Store β) :
    Option (List (Row β) × Counts) :=
  if D.envelopes = [] then none
  else
    let rows := cardRows D
    let written := upsertRows table rows
    if retireMissing then
      let seen := D.envelopes.map Envelope.id
      let gone := written.1.filter fun r => r.id ∉ seen ∧ r.status ≠ .retired
      some (written.1.map (retireRow seen), ⟨rows.length, written.2, gone.length⟩)
    else some (written.1, ⟨rows.length, written.2, 0⟩)

end

/-- `env["versions"][str(version)] = body`, and the pointer follows the active rows. -/
def addRow (e : Envelope β) (r : Row β) : Envelope β :=
  { e with
    versions := upsert Prod.fst e.versions (r.version, r.body)
    activeVersion := if r.status = .active then some r.version else e.activeVersion }

def loadRow (envs : List (Envelope β)) (r : Row β) : List (Envelope β) :=
  if r.id ∈ envs.map Envelope.id then
    envs.map fun e => if e.id = r.id then addRow e r else e
  else envs ++ [addRow ⟨r.id, [], none⟩ r]

def load (kind : String) (fetched : List (Row β)) : Store β := ⟨kind, fetched.foldl loadRow []⟩

/-- What `ORDER BY id, version` gives: all rows, those of one id in the order of their versions.
The collation of the ids is the database's own. -/
structure Fetched (table fetched : List (Row β)) : Prop where
  perm : fetched.Perm table
  versions : fetched.Pairwise fun a b => a.id = b.id → a.version ≤ b.version

section

variable [DecidableEq β] {table : List (Row β)} {D : Store β}

theorem upsertRow_fst (h : (table.map Row.key).Nodup) (r : Row β) :
    (upsertRow table r).1 = upsert Row.key table r := by
  unfold upsertRow
  cases hl : lookup Row.key table r.key with
  | none => exact (upsert_new (lookup_eq_none.mp hl)).symm
  | some old =>
    obtain ⟨hold, hkey⟩ := lookup_some hl
    simp only
    split
    · rfl
    · next hsame =>
      push Not at hsame
      have heq : old = r := by
        cases old
        cases r
        simp only [Row.key, Prod.mk.injEq] at hkey
        simp_all
      exact (upsert_known h (heq ▸ hold)).symm

theorem upsertRows_eq (rows : List (Row β)) : ∀ {table : List (Row β)} (n : ℕ),
    (table.map Row.key).Nodup →
    (rows.foldl (fun acc r => ((upsertRow acc.1 r).1, acc.2 + (upsertRow acc.1 r).2))
      (table, n)).1 = rows.foldl (upsert Row.key) table := by
  induction rows with
  | nil => intro table n _; rfl
  | cons r rows ih =>
    intro table n h
    rw [List.foldl_cons, List.foldl_cons, ← upsertRow_fst h]
    apply ih
    rw [upsertRow_fst h]
    exact upsert_nodup h

theorem upsertRows_fst (h : (table.map Row.key).Nodup) (rows : List (Row β)) :
    (upsertRows table rows).1 = rows.foldl (upsert Row.key) table := upsertRows_eq rows 0 h

end

/-- Rows of distinct keys replace what has their keys and leave the rest alone. -/
theorem mem_foldl_upsert {rows new : List (Row β)} (h : (new.map Row.key).Nodup) {x : Row β} :
    x ∈ new.foldl (upsert Row.key) rows ↔ x ∈ new ∨ x ∈ rows ∧ x.key ∉ new.map Row.key := by
  induction new generalizing rows with
  | nil => simp
  | cons r new ih =>
    rw [List.map_cons, List.nodup_cons] at h
    rw [List.foldl_cons, ih h.2, mem_upsert, List.map_cons, List.mem_cons, List.mem_cons]
    constructor
    · rintro (hx | ⟨rfl | ⟨hx, hne⟩, hnot⟩)
      · exact .inl (.inr hx)
      · exact .inl (.inl rfl)
      · exact .inr ⟨hx, fun hk => hk.elim hne hnot⟩
    · rintro ((rfl | hx) | ⟨hx, hnot⟩)
      · exact .inr ⟨.inl rfl, h.1⟩
      · exact .inl hx
      · exact .inr ⟨.inr ⟨hx, fun hk => hnot (.inl hk)⟩, fun hk => hnot (.inr hk)⟩

theorem mem_cardRows {D : Store β} {r : Row β} :
    r ∈ cardRows D ↔ ∃ e ∈ D.envelopes, ∃ p ∈ e.versions, rowOf e.id p = r := by
  unfold cardRows
  simp only [List.mem_flatMap, List.mem_map, (sorted_perm D).mem_iff]

/-- Cards of distinct ids with distinct versions have rows of distinct keys. -/
theorem cardRows_nodup {D : Store β} (hid : (D.envelopes.map Envelope.id).Nodup)
    (hv : ∀ e ∈ D.envelopes, (e.versions.map Prod.fst).Nodup) :
    ((cardRows D).map Row.key).Nodup := by
  have hsorted : ((sorted D).map Envelope.id).Nodup :=
    ((sorted_perm D).map Envelope.id).nodup_iff.mpr hid
  have hrows (e : Envelope β) : (e.versions.map (rowOf e.id)).map Row.key =
      (e.versions.map Prod.fst).map fun v => (e.id, v) := by
    rw [List.map_map, List.map_map]
    rfl
  unfold cardRows
  rw [List.map_flatMap, List.nodup_flatMap]
  refine ⟨fun e he => ?_, ?_⟩
  · rw [hrows]
    exact (hv e ((sorted_perm D).mem_iff.mp he)).map fun a b hab => (Prod.mk.inj hab).2
  · refine (List.pairwise_map.mp hsorted).imp fun {a b} hne => ?_
    change ((a.versions.map (rowOf a.id)).map Row.key).Disjoint _
    rw [hrows]
    change List.Disjoint _ ((b.versions.map (rowOf b.id)).map Row.key)
    rw [hrows]
    intro k hk hk'
    obtain ⟨v, -, rfl⟩ := List.mem_map.mp hk
    obtain ⟨w, -, hw⟩ := List.mem_map.mp hk'
    exact hne (Prod.mk.inj hw).1.symm

def rowsOf (recordId : String) (rows : List (Row β)) : List (Row β) :=
  rows.filter fun r => r.id = recordId

def envelopeOf (recordId : String) (rows : List (Row β)) : Envelope β :=
  rows.foldl addRow ⟨recordId, [], none⟩

theorem load_snoc (kind : String) (rows : List (Row β)) (r : Row β) :
    (load kind (rows ++ [r])).envelopes = loadRow (load kind rows).envelopes r := by
  simp [load]

theorem lookup_loadRow (envs : List (Envelope β)) (r : Row β) (recordId : String) :
    lookup Envelope.id (loadRow envs r) recordId =
      if r.id = recordId then
        some (addRow ((lookup Envelope.id envs recordId).getD ⟨recordId, [], none⟩) r)
      else lookup Envelope.id envs recordId := by
  have hchange : ∀ envs : List (Envelope β),
      lookup Envelope.id (envs.map fun e => if e.id = r.id then addRow e r else e) recordId =
        (lookup Envelope.id envs recordId).map fun e => if e.id = r.id then addRow e r else e := by
    intro envs
    induction envs with
    | nil => rfl
    | cons e envs ih =>
      have hid : (if e.id = r.id then addRow e r else e).id = e.id := by split <;> rfl
      rw [List.map_cons, lookup_cons, lookup_cons, hid, ih]
      split <;> rfl
  unfold loadRow
  by_cases hr : r.id ∈ envs.map Envelope.id
  · rw [if_pos hr, hchange]
    cases hl : lookup Envelope.id envs recordId with
    | none =>
      have hne : r.id ≠ recordId := fun h => lookup_eq_none.mp hl (h ▸ hr)
      simp [hne]
    | some e =>
      have hid : e.id = recordId := (lookup_some hl).2
      by_cases hrid : r.id = recordId
      · simp [hrid, hid]
      · have hne : e.id ≠ r.id := fun h => hrid (h.symm.trans hid)
        simp [hrid, hne]
  · rw [if_neg hr, lookup_append, lookup_cons]
    have hid : (addRow (⟨r.id, [], none⟩ : Envelope β) r).id = r.id := rfl
    rw [hid]
    by_cases hrid : r.id = recordId
    · subst hrid
      rw [lookup_eq_none.mpr hr]
      simp
    · simp [hrid, lookup]

theorem rowsOf_snoc (recordId : String) (rows : List (Row β)) (r : Row β) :
    rowsOf recordId (rows ++ [r]) =
      rowsOf recordId rows ++ if r.id = recordId then [r] else [] := by
  by_cases hr : r.id = recordId <;> simp [rowsOf, hr]

/-- An id has an envelope once it has a row, and only its own rows make it up. -/
theorem read_load (kind : String) (rows : List (Row β)) (recordId : String) :
    read (load kind rows) recordId =
      if rowsOf recordId rows = [] then none
      else some (envelopeOf recordId (rowsOf recordId rows)) := by
  induction rows using List.reverseRecOn with
  | nil => rfl
  | append_singleton rows r ih =>
    have hread : read (load kind (rows ++ [r])) recordId =
        lookup Envelope.id (loadRow (load kind rows).envelopes r) recordId := by
      rw [← load_snoc]
      rfl
    have hold : lookup Envelope.id (load kind rows).envelopes recordId =
        read (load kind rows) recordId := rfl
    rw [hread, lookup_loadRow, hold, ih, rowsOf_snoc]
    by_cases hr : r.id = recordId
    · rw [if_pos hr, if_pos hr,
        if_neg (List.append_ne_nil_of_right_ne_nil _ (List.cons_ne_nil _ _))]
      by_cases hnil : rowsOf recordId rows = []
      · simp [hnil, envelopeOf]
      · rw [if_neg hnil, envelopeOf, envelopeOf, List.foldl_append]
        rfl
    · rw [if_neg hr, if_neg hr, List.append_nil]

theorem envelopeOf_versions (recordId : String) {rows : List (Row β)}
    (h : (rows.map Row.version).Nodup) :
    (envelopeOf recordId rows).versions = rows.map fun r => (r.version, r.body) := by
  unfold envelopeOf
  induction rows using List.reverseRecOn with
  | nil => rfl
  | append_singleton rows r ih =>
    rw [List.map_append, List.nodup_append] at h
    have hnew : r.version ∉ (rows.map fun r => (r.version, r.body)).map Prod.fst := by
      rw [List.map_map]
      intro hm
      exact h.2.2 _ hm r.version (by simp) rfl
    rw [List.foldl_append, List.map_append]
    simp only [List.foldl_cons, List.foldl_nil, addRow, ih h.1]
    exact upsert_new hnew

def lastActive (rows : List (Row β)) : Option ℕ :=
  (rows.reverse.find? fun r => r.status = .active).map Row.version

theorem envelopeOf_active (recordId : String) (rows : List (Row β)) :
    (envelopeOf recordId rows).activeVersion = lastActive rows := by
  unfold envelopeOf
  induction rows using List.reverseRecOn with
  | nil => rfl
  | append_singleton rows r ih =>
    rw [List.foldl_append, lastActive, List.reverse_append]
    simp only [List.foldl_cons, List.foldl_nil, addRow, List.reverse_cons, List.reverse_nil,
      List.nil_append, List.singleton_append, List.find?_cons]
    by_cases hs : r.status = .active
    · simp [hs]
    · simp [hs, ih, lastActive]

theorem lastActive_some {rows : List (Row β)} {v : ℕ} (h : lastActive rows = some v) :
    ∃ r ∈ rows, r.status = .active ∧ r.version = v := by
  obtain ⟨r, hr, hv⟩ := Option.map_eq_some_iff.mp h
  exact ⟨r, List.mem_reverse.mp (List.mem_of_find?_eq_some hr), by simpa using List.find?_some hr,
    hv⟩

theorem lastActive_of_unique {rows : List (Row β)} {r : Row β} (hr : r ∈ rows)
    (hs : r.status = .active) (hall : ∀ x ∈ rows, x.status = .active → x.version = r.version) :
    lastActive rows = some r.version := by
  unfold lastActive
  cases hf : rows.reverse.find? fun r => r.status = .active with
  | none =>
    have hno := List.find?_eq_none.mp hf r (List.mem_reverse.mpr hr)
    exact absurd (decide_eq_true hs) hno
  | some x =>
    have hx : x ∈ rows := List.mem_reverse.mp (List.mem_of_find?_eq_some hf)
    rw [Option.map_some, hall x hx (by simpa using List.find?_some hf)]

structure Mirrors (table : List (Row β)) (D : Store β) : Prop where
  keys : (table.map Row.key).Nodup
  cards : ∀ e ∈ D.envelopes, ∀ p ∈ e.versions, rowOf e.id p ∈ table
  leftovers : ∀ r ∈ table, ∀ e ∈ D.envelopes, e.id = r.id → ¬ hasVersion e r.version →
    r.status = .retired

theorem getOptional_iff {D : Store β} {recordId : String} {r : RegistryRecord β}
    (h : ∀ e, read D recordId = some e → (e.versions.map Prod.fst).Nodup) :
    getOptional D recordId = some r ↔ ∃ e v, read D recordId = some e ∧
      e.activeVersion = some v ∧ (v, r) ∈ e.versions := by
  refine ⟨getOptional_cases, ?_⟩
  rintro ⟨e, v, hr, ha, hm⟩
  unfold getOptional RegistryReads.get
  have hfind : e.versions.find? (fun p => p.1 = v) = some (v, r) := by
    cases hf : e.versions.find? fun p => p.1 = v with
    | none => exact absurd (List.find?_eq_none.mp hf (v, r) hm) (by simp)
    | some p =>
      have hp : p.1 = v := by simpa using List.find?_some hf
      rw [List.inj_on_of_nodup_map (h e hr) (List.mem_of_find?_eq_some hf) hm hp]
  simp [hr, ha, hfind]

section

variable {table fetched : List (Row β)} {D : Store β}

theorem Fetched.keys (hf : Fetched table fetched) (h : (table.map Row.key).Nodup) :
    (fetched.map Row.key).Nodup := ((hf.perm.map Row.key).nodup_iff).mpr h

theorem rowsOf_versions (hk : (fetched.map Row.key).Nodup) (recordId : String) :
    ((rowsOf recordId fetched).map Row.version).Nodup := by
  have hsub : ((rowsOf recordId fetched).map Row.key).Nodup :=
    hk.sublist (List.filter_sublist.map _)
  have hkey : (rowsOf recordId fetched).map Row.key =
      ((rowsOf recordId fetched).map Row.version).map fun v => (recordId, v) := by
    rw [List.map_map]
    apply List.map_congr_left
    intro r hr
    have hid : r.id = recordId := by simpa using (List.mem_filter.mp hr).2
    simp [Row.key, hid]
  rw [hkey] at hsub
  exact List.Nodup.of_map _ hsub

theorem mem_rowsOf {recordId : String} {r : Row β} :
    r ∈ rowsOf recordId fetched ↔ r ∈ fetched ∧ r.id = recordId := by
  simp [rowsOf]

theorem served_iff (hk : (fetched.map Row.key).Nodup) (kind : String) {recordId : String}
    {rec : RegistryRecord β} :
    getOptional (load kind fetched) recordId = some rec ↔
      ∃ r ∈ fetched, r.id = recordId ∧ lastActive (rowsOf recordId fetched) = some r.version ∧
        r.body = rec := by
  have hversions := rowsOf_versions hk recordId
  have hread := read_load kind fetched recordId
  have hnodup : ∀ e, read (load kind fetched) recordId = some e →
      (e.versions.map Prod.fst).Nodup := by
    intro e he
    rw [hread] at he
    split at he
    · simp at he
    · obtain rfl := Option.some.inj he
      rw [envelopeOf_versions recordId hversions, List.map_map]
      exact hversions
  rw [getOptional_iff hnodup, hread]
  constructor
  · rintro ⟨e, v, he, ha, hm⟩
    split at he
    · simp at he
    · obtain rfl := Option.some.inj he
      rw [envelopeOf_versions recordId hversions] at hm
      rw [envelopeOf_active] at ha
      obtain ⟨r, hr, hrv⟩ := List.mem_map.mp hm
      obtain ⟨hv, hb⟩ := Prod.mk.inj hrv
      obtain ⟨hr, hid⟩ := mem_rowsOf.mp hr
      exact ⟨r, hr, hid, by rw [ha, hv], hb⟩
  · rintro ⟨r, hr, hid, ha, hb⟩
    have hmem : r ∈ rowsOf recordId fetched := mem_rowsOf.mpr ⟨hr, hid⟩
    have hne : rowsOf recordId fetched ≠ [] := List.ne_nil_of_mem hmem
    refine ⟨_, r.version, if_neg hne, ?_, ?_⟩
    · rw [envelopeOf_active, ha]
    · rw [envelopeOf_versions recordId hversions, ← hb]
      exact List.mem_map_of_mem (f := fun r => (r.version, r.body)) hmem

theorem Mirrors.active_row (h : Mirrors table D) (hok : AllOk D) {e : Envelope β}
    (he : e ∈ D.envelopes) {r : Row β} (hr : r ∈ table) (hid : r.id = e.id)
    (hs : r.status = .active) :
    ∃ p ∈ e.versions, rowOf e.id p = r ∧ e.activeVersion = some p.1 ∧ p.2.status = .active := by
  have hv : hasVersion e r.version := by
    by_contra hv
    simp [h.leftovers r hr e he hid.symm hv] at hs
  obtain ⟨p, hp, hpv⟩ := List.mem_map.mp hv
  have hrow : rowOf e.id p = r := by
    apply List.inj_on_of_nodup_map h.keys (h.cards e he p hp) hr
    simp [Row.key, rowOf, hpv, hid]
  have hstatus : p.2.status = .active := by
    rw [← hs, ← hrow]
    rfl
  exact ⟨p, hp, hrow, (hok e he).others p hp hstatus, hstatus⟩

/-- The backend serves of a card what the files serve with the status active. -/
theorem Mirrors.served (h : Mirrors table D) (hf : Fetched table fetched) (hok : AllOk D)
    (kind : String) {recordId : String} {e : Envelope β} (he : read D recordId = some e) :
    getOptional (load kind fetched) recordId = activeOf D recordId := by
  have hmem := read_mem he
  have heid : e.id = recordId := by simpa using List.find?_some he
  have hnodup : ∀ e', read D recordId = some e' → (e'.versions.map Prod.fst).Nodup :=
    fun e' he' => versions_nodup (hok e' (read_mem he')).numbered
  have huniq : ∀ x ∈ rowsOf recordId fetched, x.status = .active →
      e.activeVersion = some x.version := by
    intro x hx hs
    obtain ⟨hx, hid⟩ := mem_rowsOf.mp hx
    obtain ⟨p, -, hrow, ha, -⟩ :=
      h.active_row hok hmem (hf.perm.mem_iff.mp hx) (hid.trans heid.symm) hs
    rw [ha, ← hrow]
    rfl
  apply Option.ext
  intro rec
  rw [served_iff (hf.keys h.keys)]
  constructor
  · rintro ⟨r, hr, hid, hlast, rfl⟩
    obtain ⟨x, hx, hs, hv⟩ := lastActive_some hlast
    have hxr : x = r := by
      obtain ⟨hxf, hxid⟩ := mem_rowsOf.mp hx
      apply List.inj_on_of_nodup_map (hf.keys h.keys) hxf hr
      simp [Row.key, hxid, hid, hv]
    subst hxr
    obtain ⟨p, hp, hrow, ha, hstat⟩ :=
      h.active_row hok hmem (hf.perm.mem_iff.mp hr) (hid.trans heid.symm) hs
    have hbody : x.body = p.2 := by rw [← hrow]; rfl
    refine Option.filter_eq_some_iff.mpr ⟨?_, ?_⟩
    · rw [getOptional_iff hnodup, hbody]
      exact ⟨e, p.1, he, ha, hp⟩
    · rw [hbody, hstat]
      rfl
  · intro hact
    obtain ⟨hget, hs⟩ := Option.filter_eq_some_iff.mp hact
    obtain ⟨e', v, he', ha, hm⟩ := (getOptional_iff hnodup).mp hget
    obtain rfl : e' = e := Option.some.inj (he'.symm.trans he)
    have hrow : rowOf e'.id (v, rec) ∈ fetched := hf.perm.mem_iff.mpr (h.cards e' hmem _ hm)
    refine ⟨_, hrow, heid, ?_, rfl⟩
    have hin : rowOf e'.id (v, rec) ∈ rowsOf recordId fetched := mem_rowsOf.mpr ⟨hrow, heid⟩
    apply lastActive_of_unique hin (by simpa [rowOf] using hs)
    intro x hx hxs
    have := huniq x hx hxs
    rw [ha] at this
    exact (Option.some.inj this).symm

theorem Mirrors.version_read (h : Mirrors table D) (hf : Fetched table fetched) (hok : AllOk D)
    {recordId : String} {e : Envelope β} (he : read D recordId = some e) {v : ℕ}
    (hv : hasVersion e v) :
    RegistryReads.get (load D.kind fetched) recordId (some v) =
      RegistryReads.get D recordId (some v) := by
  have hmem := read_mem he
  have heid : e.id = recordId := by simpa using List.find?_some he
  have hversions := rowsOf_versions (hf.keys h.keys) recordId
  obtain ⟨p, hp, rfl⟩ := List.mem_map.mp hv
  have hrow : rowOf e.id p ∈ rowsOf recordId fetched :=
    mem_rowsOf.mpr ⟨hf.perm.mem_iff.mpr (h.cards e hmem p hp), heid⟩
  have hread : read (load D.kind fetched) recordId =
      some (envelopeOf recordId (rowsOf recordId fetched)) := by
    rw [read_load, if_neg (List.ne_nil_of_mem hrow)]
  -- one version is found under a number, on either side
  have hfind {vs : List (ℕ × RegistryRecord β)} (hn : (vs.map Prod.fst).Nodup) (hin : p ∈ vs) :
      vs.find? (fun q => q.1 = p.1) = some p := by
    cases hq : vs.find? fun q => q.1 = p.1 with
    | none => exact absurd (List.find?_eq_none.mp hq p hin) (by simp)
    | some q =>
      have hqp : q.1 = p.1 := by simpa using List.find?_some hq
      rw [List.inj_on_of_nodup_map hn (List.mem_of_find?_eq_some hq) hin hqp]
  have hleft : (envelopeOf recordId (rowsOf recordId fetched)).versions.find?
      (fun q => q.1 = p.1) = some p := by
    apply hfind
    · rw [envelopeOf_versions recordId hversions, List.map_map]
      exact hversions
    · rw [envelopeOf_versions recordId hversions]
      exact List.mem_map_of_mem (f := fun r => (r.version, r.body)) hrow
  have hright := hfind (versions_nodup (hok e hmem).numbered) hp
  unfold RegistryReads.get
  rw [hread, he]
  simp only [Option.some_or, hleft, hright]

theorem retireRow_key (seen : List String) (r : Row β) : (retireRow seen r).key = r.key := by
  unfold retireRow
  split <;> rfl

theorem cardRows_keys_nodup (hkeyed : Keyed D) (hok : AllOk D) :
    ((cardRows D).map Row.key).Nodup :=
  cardRows_nodup hkeyed.nodup fun e he => versions_nodup (hok e he).numbered

variable [DecidableEq β]

theorem sync_table {retireMissing : Bool} {out : List (Row β) × Counts}
    (hk : (table.map Row.key).Nodup) (h : sync retireMissing table D = some out) :
    out.1 = ((cardRows D).foldl (upsert Row.key) table).map
      (if retireMissing then retireRow (D.envelopes.map Envelope.id) else id) := by
  unfold sync at h
  split at h
  · simp at h
  · simp only at h
    cases retireMissing with
    | true =>
      simp only [if_true, Option.some.injEq] at h
      rw [← h, ← upsertRows_fst hk]
      rfl
    | false =>
      simp only [Bool.false_eq_true, if_false, Option.some.injEq] at h
      rw [← h, ← upsertRows_fst hk, if_neg (by simp), List.map_id]

/-- After a sync the table mirrors the cards, if what it had beside them was retired. -/
theorem mirrors_sync {retireMissing : Bool} {out : List (Row β) × Counts}
    (hkeyed : Keyed D) (hok : AllOk D) (hk : (table.map Row.key).Nodup)
    (hleft : ∀ r ∈ table, ∀ e ∈ D.envelopes, e.id = r.id → ¬ hasVersion e r.version →
      r.status = .retired)
    (h : sync retireMissing table D = some out) : Mirrors out.1 D := by
  have hcards := cardRows_keys_nodup hkeyed hok
  have htable := sync_table hk h
  have hsame (r : Row β) (hr : r.id ∈ D.envelopes.map Envelope.id) :
      (if retireMissing then retireRow (D.envelopes.map Envelope.id) else id) r = r := by
    cases retireMissing
    · rfl
    · exact if_pos hr
  have hkeyfun (r : Row β) :
      ((if retireMissing then retireRow (D.envelopes.map Envelope.id) else id) r).key = r.key := by
    cases retireMissing
    · rfl
    · exact retireRow_key _ r
  refine ⟨?_, fun e he p hp => ?_, fun r hr e he hid hv => ?_⟩
  · rw [htable, List.map_map]
    have hcomp : (Row.key ∘
        (if retireMissing then retireRow (D.envelopes.map Envelope.id) else id) : Row β → _) =
          Row.key := funext hkeyfun
    rw [hcomp]
    exact foldl_upsert_nodup hk
  · rw [htable]
    refine List.mem_map.mpr ⟨rowOf e.id p, ?_, hsame _ (List.mem_map_of_mem he)⟩
    exact (mem_foldl_upsert hcards).mpr (.inl (mem_cardRows.mpr ⟨e, he, p, hp, rfl⟩))
  · rw [htable] at hr
    obtain ⟨x, hx, rfl⟩ := List.mem_map.mp hr
    have hxid : x.id = e.id := by
      have := congrArg Prod.fst (hkeyfun x)
      exact this.symm.trans hid.symm
    rw [hsame x (hxid ▸ List.mem_map_of_mem he)] at hv ⊢
    rcases (mem_foldl_upsert hcards).mp hx with hx | ⟨hx, -⟩
    · obtain ⟨e', he', p, hp, rfl⟩ := mem_cardRows.mp hx
      have heq : e' = e := List.inj_on_of_nodup_map hkeyed.nodup he' he hxid
      exact absurd (heq ▸ List.mem_map_of_mem hp) hv
    · exact hleft x hx e he hxid.symm hv

theorem upsertRow_known {r : Row β} (hk : (table.map Row.key).Nodup) (h : r ∈ table) :
    upsertRow table r = (table, 0) := by
  have hl : lookup Row.key table r.key = some r := by
    cases hl : lookup Row.key table r.key with
    | none => exact absurd (List.mem_map_of_mem h) (lookup_eq_none.mp hl)
    | some x =>
      obtain ⟨hx, hkey⟩ := lookup_some hl
      rw [List.inj_on_of_nodup_map hk hx h hkey]
  unfold upsertRow
  simp [hl]

theorem upsertRows_known (hk : (table.map Row.key).Nodup) {rows : List (Row β)}
    (h : ∀ r ∈ rows, r ∈ table) : upsertRows table rows = (table, 0) := by
  unfold upsertRows
  induction rows with
  | nil => rfl
  | cons r rows ih =>
    rw [List.foldl_cons, upsertRow_known hk (h r List.mem_cons_self)]
    exact ih fun x hx => h x (List.mem_cons_of_mem r hx)

theorem sync_retires {table : List (Row β)} {D : Store β} {out : List (Row β) × Counts}
    (hk : (table.map Row.key).Nodup) (h : sync true table D = some out) {r : Row β}
    (hr : r ∈ out.1) (hid : r.id ∉ D.envelopes.map Envelope.id) : r.status = .retired := by
  rw [sync_table hk h] at hr
  obtain ⟨x, -, rfl⟩ := List.mem_map.mp hr
  simp only [if_true] at hid ⊢
  unfold retireRow at hid ⊢
  by_cases hx : x.id ∈ D.envelopes.map Envelope.id
  · rw [if_pos hx] at hid
    exact absurd hx hid
  · rw [if_neg hx]

/-- A second sync of the same cards writes no row, so that it rings no doorbell. -/
theorem sync_again {retireMissing : Bool} {out : List (Row β) × Counts}
    (hkeyed : Keyed D) (hok : AllOk D) (hk : (table.map Row.key).Nodup)
    (hleft : ∀ r ∈ table, ∀ e ∈ D.envelopes, e.id = r.id → ¬ hasVersion e r.version →
      r.status = .retired)
    (h : sync retireMissing table D = some out) :
    sync retireMissing out.1 D = some (out.1, ⟨(cardRows D).length, 0, 0⟩) := by
  have hm := mirrors_sync hkeyed hok hk hleft h
  have hrows : upsertRows out.1 (cardRows D) = (out.1, 0) := by
    apply upsertRows_known hm.keys
    intro r hr
    obtain ⟨e, he, p, hp, rfl⟩ := mem_cardRows.mp hr
    exact hm.cards e he p hp
  have hne : D.envelopes ≠ [] := by
    intro hnil
    simp [sync, hnil] at h
  unfold sync
  rw [if_neg hne]
  simp only [hrows]
  cases retireMissing with
  | false => rfl
  | true =>
    -- the first run has retired what is not in the cards
    have hgone : ∀ r ∈ out.1, r.id ∉ D.envelopes.map Envelope.id → r.status = .retired :=
      fun r hr hid => sync_retires hk h hr hid
    have hmap : out.1.map (retireRow (D.envelopes.map Envelope.id)) = out.1 := by
      refine (List.map_congr_left ?_).trans (List.map_id _)
      intro r hr
      unfold retireRow
      split
      · rfl
      · next hid =>
        have hs := hgone r hr hid
        cases r
        simp only at hs
        rw [hs]
        rfl
    have hfilter : out.1.filter (fun r => r.id ∉ D.envelopes.map Envelope.id ∧
        r.status ≠ .retired) = [] := by
      rw [List.filter_eq_nil_iff]
      intro r hr hgo
      obtain ⟨hid, hs⟩ := of_decide_eq_true hgo
      exact hs (hgone r hr hid)
    simp only [if_true, hmap, hfilter, List.length_nil]

end

/-- The cards on disk, the table, and how many folders each card's file is below the directory
of its kind. -/
structure World (β : Type*) where
  files : Store β
  depth : String → ℕ
  table : List (Row β)

/-- `glob("*.json")` of the agent and the schema sync, `glob("*/*.json")` of the tool sync; the
file backend finds a card at any depth. -/
def globDepth (kind : String) : ℕ := if kind = "tools" then 1 else 0

def Globbed (w : World β) (recordId : String) : Prop := w.depth recordId = globDepth w.files.kind

instance (w : World β) (recordId : String) : Decidable (Globbed w recordId) :=
  inferInstanceAs (Decidable (_ = _))

def globbed (w : World β) : Store β :=
  { w.files with envelopes := w.files.envelopes.filter fun e => Globbed w e.id }

inductive Action (β : Type*) where
  | author (c : Call β)
  | move (recordId : String) (depth : ℕ)
  | sync (retireMissing : Bool)

section

variable [DecidableEq β]

def act (w : World β) : Action β → World β
  | .author c =>
    { w with
      files := step w.files c
      depth := fun recordId => if (read w.files recordId).isSome then w.depth recordId else 0 }
  | .move recordId depth =>
    if (read w.files recordId).isSome then
      { w with depth := Function.update w.depth recordId depth }
    else w
  | .sync retireMissing =>
    match sync retireMissing w.table (globbed w) with
    | none => w
    | some out => { w with table := out.1 }

def run (kind : String) (acts : List (Action β)) : World β :=
  acts.foldl act ⟨⟨kind, []⟩, fun _ => 0, []⟩

end

def Tidy (w : World β) : Action β → Prop
  | .author c => Placed w.files c ∧ ∀ r, c = .create r → read w.files r.id = none →
      ∀ x ∈ w.table, x.id = r.id → x.status = .retired
  | .move _ _ => True
  | .sync _ => True

structure Sound (w : World β) : Prop where
  ok : AllOk w.files
  keyed : Keyed w.files
  keys : (w.table.map Row.key).Nodup
  owned : ∀ r ∈ w.table, r.body.id = r.id
  leftovers : ∀ r ∈ w.table, ∀ e ∈ w.files.envelopes, e.id = r.id → ¬ hasVersion e r.version →
    r.status = .retired

theorem mem_globbed {w : World β} {e : Envelope β} :
    e ∈ (globbed w).envelopes ↔ e ∈ w.files.envelopes ∧ Globbed w e.id := by
  simp [globbed]

/-- Reading one of the cards that the script reads is the same in both stores. -/
theorem read_globbed {w : World β} {recordId : String} (hg : Globbed w recordId) :
    read (globbed w) recordId = read w.files recordId := by
  have hfind : ∀ envs : List (Envelope β),
      (envs.filter fun e => Globbed w e.id).find? (fun e => e.id = recordId) =
        envs.find? fun e => e.id = recordId := by
    intro envs
    rw [List.find?_filter]
    congr 1
    funext e
    by_cases he : e.id = recordId
    · subst he
      simp [hg]
    · simp [he]
  exact hfind _

theorem get_globbed {w : World β} {recordId : String} (hg : Globbed w recordId)
    (version : Option ℕ) : RegistryReads.get (globbed w) recordId version =
      RegistryReads.get w.files recordId version := by
  simp only [RegistryReads.get, read_globbed hg]
  rfl

theorem activeOf_globbed {w : World β} {recordId : String} (hg : Globbed w recordId) :
    activeOf (globbed w) recordId = activeOf w.files recordId := by
  simp only [activeOf, getOptional, get_globbed hg]

theorem Sound.globbed {w : World β} (h : Sound w) : AllOk (globbed w) ∧ Keyed (globbed w) ∧
    ∀ r ∈ w.table, ∀ e ∈ (globbed w).envelopes, e.id = r.id → ¬ hasVersion e r.version →
      r.status = .retired :=
  ⟨fun e he => h.ok e (mem_globbed.mp he).1,
    ⟨h.keyed.nodup.sublist (List.filter_sublist.map _),
      fun e he => h.keyed.owns e (mem_globbed.mp he).1⟩,
    fun r hr e he => h.leftovers r hr e (mem_globbed.mp he).1⟩

def Grew (D : Store β) (e : Envelope β) : Prop :=
  ∃ e₀ ∈ D.envelopes, e₀.id = e.id ∧ ∀ v, hasVersion e₀ v → hasVersion e v

theorem grew_self {D : Store β} {e : Envelope β} (h : e ∈ D.envelopes) : Grew D e :=
  ⟨e, h, rfl, fun _ hv => hv⟩

theorem write_grew {D : Store β} {e x : Envelope β} (h : Grew D e)
    (hx : x ∈ (write D e).envelopes) : Grew D x := by
  rcases mem_upsert.mp hx with rfl | ⟨hx, -⟩
  · exact h
  · exact grew_self hx

theorem hasVersion_setStatus {e : Envelope β} {v w : ℕ} {s : RecordStatus} {a : Option ℕ}
    (h : hasVersion e w) :
    hasVersion { e with versions := setStatus v s e.versions, activeVersion := a } w := by
  unfold hasVersion
  rw [setStatus_versions]
  exact h

theorem hasVersion_withActivated {e : Envelope β} {v w : ℕ} (h : hasVersion e w) :
    hasVersion (withActivated v e) w := by
  unfold hasVersion withActivated
  rw [setStatus_versions]
  cases e.activeVersion with
  | none => exact h
  | some prior =>
    simp only
    split
    · rw [setStatus_versions]
      exact h
    · exact h

theorem transition_grew {D : Store β} {change : Envelope β → Envelope β}
    (hc : ∀ e, (change e).id = e.id ∧ ∀ v, hasVersion e v → hasVersion (change e) v)
    {recordId : String} {v : ℕ} {x : Envelope β}
    (hx : x ∈ (commit D (transition change D recordId v)).envelopes) : Grew D x := by
  unfold transition at hx
  cases hr : read D recordId with
  | none =>
    simp only [hr, commit] at hx
    exact grew_self hx
  | some e =>
    simp only [hr] at hx
    split at hx
    · exact write_grew ⟨e, read_mem hr, (hc e).1.symm, (hc e).2⟩ hx
    · exact grew_self hx

theorem step_versions {D : Store β} {c : Call β} {e : Envelope β}
    (he : e ∈ (step D c).envelopes) :
    Grew D e ∨ ∃ r, c = .create r ∧ r.id = e.id ∧ read D r.id = none := by
  cases c with
  | create r =>
    change e ∈ (commit D (create D r)).envelopes at he
    unfold create at he
    cases hr : read D r.id with
    | some x =>
      simp only [hr, commit] at he
      exact .inl (grew_self he)
    | none =>
      simp only [hr] at he
      split at he
      · exact .inl (grew_self he)
      · rcases mem_upsert.mp he with rfl | ⟨he, -⟩
        · exact .inr ⟨r, rfl, rfl, hr⟩
        · exact .inl (grew_self he)
  | update r =>
    change e ∈ (commit D (update D r)).envelopes at he
    unfold update at he
    cases hr : read D r.id with
    | none =>
      simp only [hr, commit] at he
      exact .inl (grew_self he)
    | some x =>
      simp only [hr] at he
      split at he
      · exact .inl (grew_self he)
      · have hgrew : Grew D { x with versions := x.versions ++ [(expectedVersion x, r)] } := by
          refine ⟨x, read_mem hr, rfl, fun v hv => ?_⟩
          unfold hasVersion
          rw [List.map_append]
          exact List.mem_append_left _ hv
        exact .inl (write_grew hgrew he)
  | activate recordId v =>
    change e ∈ (commit D (transition (withActivated v) D recordId v)).envelopes at he
    refine .inl (transition_grew ?_ he)
    exact fun e => ⟨rfl, fun w hw => hasVersion_withActivated hw⟩
  | deprecateVersion recordId v =>
    change e ∈ (commit D (transition (withDeprecated v) D recordId v)).envelopes at he
    refine .inl (transition_grew ?_ he)
    exact fun e => ⟨rfl, fun w hw => hasVersion_setStatus hw⟩
  | retire recordId v =>
    change e ∈ (commit D (transition (withRetired v) D recordId v)).envelopes at he
    refine .inl (transition_grew ?_ he)
    exact fun e => ⟨rfl, fun w hw => hasVersion_setStatus hw⟩
  | delete recordId =>
    change e ∈ (commit D (delete D recordId)).envelopes at he
    unfold delete at he
    cases hr : read D recordId with
    | none =>
      simp only [hr, commit] at he
      exact .inl (grew_self he)
    | some x =>
      simp only [hr, commit] at he
      exact .inl (grew_self (List.mem_filter.mp he).1)

theorem step_kind (D : Store β) (c : Call β) : (step D c).kind = D.kind := by
  rcases step_cases D c with he | ⟨e, he, -⟩ | ⟨recordId, he⟩
  · rw [he]
  · rw [he]
    rfl
  · rw [he]

section

variable [DecidableEq β]

theorem sound_author {w : World β} (h : Sound w) {c : Call β} (ht : Tidy w (.author c)) :
    Sound (act w (.author c)) := by
  obtain ⟨hplaced, hcreate⟩ := ht
  have hstores : Stores (fun recordId r => r.id = recordId) (step w.files c) :=
    step_stores (fun _ _ _ h => h) (fun _ _ => rfl) h.keyed.owns
  refine ⟨(step_ok_iff h.ok c).mpr hplaced, ⟨step_nodup h.keyed.nodup c, hstores⟩, h.keys,
    h.owned, fun r hr e he hid hv => ?_⟩
  rcases step_versions he with ⟨e₀, he₀, hid₀, hgrew⟩ | ⟨x, rfl, hxid, hnone⟩
  · exact h.leftovers r hr e₀ he₀ (hid₀.trans hid) fun hv₀ => hv (hgrew _ hv₀)
  · exact hcreate x rfl hnone r hr (hid.symm.trans hxid.symm)

/-- A row after a sync is a row of a card that was read, or was there before; what was retired
stays so. -/
theorem sync_row {w : World β} (h : Sound w) {retireMissing : Bool} {out : List (Row β) × Counts}
    (hs : sync retireMissing w.table (globbed w) = some out) {r : Row β} (hr : r ∈ out.1) :
    ∃ x, (x ∈ cardRows (globbed w) ∨ x ∈ w.table) ∧ r.id = x.id ∧ r.version = x.version ∧
      r.body = x.body ∧ (x.status = .retired → r.status = .retired) := by
  rw [sync_table h.keys hs] at hr
  obtain ⟨x, hx, rfl⟩ := List.mem_map.mp hr
  refine ⟨x, ?_, ?_⟩
  · exact ((mem_foldl_upsert (cardRows_keys_nodup h.globbed.2.1 h.globbed.1)).mp hx).imp_right
      And.left
  · cases retireMissing with
    | false => exact ⟨rfl, rfl, rfl, fun hx => hx⟩
    | true =>
      simp only [if_true, retireRow]
      split
      · exact ⟨rfl, rfl, rfl, fun hx => hx⟩
      · exact ⟨rfl, rfl, rfl, fun _ => rfl⟩

theorem sound_sync {w : World β} (h : Sound w) (retireMissing : Bool) :
    Sound (act w (.sync retireMissing)) := by
  obtain ⟨hok, hkeyed, hleft⟩ := h.globbed
  cases hs : sync retireMissing w.table (globbed w) with
  | none => simpa [act, hs] using h
  | some out =>
    have hm := mirrors_sync hkeyed hok h.keys hleft hs
    have hact : act w (.sync retireMissing) = { w with table := out.1 } := by simp [act, hs]
    rw [hact]
    refine ⟨h.ok, h.keyed, hm.keys, fun r hr => ?_, fun r hr e he hid hv => ?_⟩
    · obtain ⟨x, hx, hxid, _, hbody, _⟩ := sync_row h hs hr
      rw [hbody, hxid]
      rcases hx with hx | hx
      · obtain ⟨e, he, p, hp, rfl⟩ := mem_cardRows.mp hx
        exact hkeyed.owns e he p hp
      · exact h.owned x hx
    · obtain ⟨x, hx, hxid, hver, _, hstays⟩ := sync_row h hs hr
      rcases hx with hx | hx
      · obtain ⟨e', he', p, hp, rfl⟩ := mem_cardRows.mp hx
        have heq : e' = e := List.inj_on_of_nodup_map h.keyed.nodup (mem_globbed.mp he').1 he
          (hxid.symm.trans hid.symm)
        rw [hver] at hv
        exact absurd (heq ▸ List.mem_map_of_mem hp) hv
      · exact hstays (h.leftovers x hx e he (hid.trans hxid) (hver ▸ hv))

theorem sound_move {w : World β} (h : Sound w) (recordId : String) (depth : ℕ) :
    Sound (act w (.move recordId depth)) := by
  simp only [act]
  split_ifs
  · exact ⟨h.ok, h.keyed, h.keys, h.owned, h.leftovers⟩
  · exact h

theorem run_snoc (kind : String) (acts : List (Action β)) (a : Action β) :
    run kind (acts ++ [a]) = act (run kind acts) a := by simp [run]

theorem run_sound (kind : String) {acts : List (Action β)}
    (h : ListSplit.AtEach (fun before a => Tidy (run kind before) a) acts) :
    Sound (run kind acts) := by
  induction acts using List.reverseRecOn with
  | nil =>
    refine ⟨?_, ⟨List.nodup_nil, ?_⟩, List.nodup_nil, ?_, ?_⟩
    · intro e he
      cases he
    · intro e he
      cases he
    · intro r hr
      cases hr
    · intro r hr
      cases hr
  | append_singleton acts a ih =>
    obtain ⟨hacts, ha⟩ := ListSplit.atEach_snoc.mp h
    rw [run_snoc]
    cases a with
    | author c => exact sound_author (ih hacts) ha
    | move recordId depth => exact sound_move (ih hacts) recordId depth
    | sync retireMissing => exact sound_sync (ih hacts) retireMissing

theorem run_kind (kind : String) (acts : List (Action β)) : (run kind acts).files.kind = kind := by
  induction acts using List.reverseRecOn with
  | nil => rfl
  | append_singleton acts a ih =>
    rw [run_snoc]
    cases a with
    | author c => exact (step_kind _ c).trans ih
    | move recordId depth =>
      simp only [act]
      split_ifs <;> exact ih
    | sync retireMissing =>
      cases hs : sync retireMissing (run kind acts).table (globbed (run kind acts)) with
      | none => simpa [act, hs] using ih
      | some out => simpa [act, hs] using ih

end

theorem load_nodup (kind : String) (rows : List (Row β)) :
    ((load kind rows).envelopes.map Envelope.id).Nodup := by
  induction rows using List.reverseRecOn with
  | nil => exact List.nodup_nil
  | append_singleton rows r ih =>
    rw [load_snoc, loadRow]
    split
    · have hids : ((load kind rows).envelopes.map fun e =>
          if e.id = r.id then addRow e r else e).map
          Envelope.id = (load kind rows).envelopes.map Envelope.id := by
        rw [List.map_map]
        apply List.map_congr_left
        intro e _
        simp only [Function.comp_apply]
        split <;> rfl
      rw [hids]
      exact ih
    · next hnew =>
      rw [List.map_append, List.nodup_append]
      refine ⟨ih, by simp, ?_⟩
      rintro x hx y hy rfl
      simp only [List.map_cons, List.map_nil, List.mem_singleton] at hy
      have hxr : x = r.id := hy
      exact hnew (hxr ▸ hx)

/-- The backend's envelopes: one for each id, and every record under its own. -/
theorem load_keyed {fetched : List (Row β)} (hk : (fetched.map Row.key).Nodup)
    (hown : ∀ r ∈ fetched, r.body.id = r.id) (kind : String) : Keyed (load kind fetched) := by
  refine ⟨load_nodup kind fetched, fun e he p hp => ?_⟩
  have hread : read (load kind fetched) e.id = some e := by
    cases hr : read (load kind fetched) e.id with
    | none => exact absurd (List.find?_eq_none.mp hr e he) (by simp)
    | some x =>
      have hx : x.id = e.id := by simpa using List.find?_some hr
      rw [List.inj_on_of_nodup_map (load_nodup kind fetched) (read_mem hr) he hx]
  rw [read_load] at hread
  split at hread
  · simp at hread
  · have heq := Option.some.inj hread
    rw [← heq, envelopeOf_versions e.id (rowsOf_versions hk e.id)] at hp
    obtain ⟨r, hr, rfl⟩ := List.mem_map.mp hp
    obtain ⟨hr, hid⟩ := mem_rowsOf.mp hr
    exact (hown r hr).trans hid

def listServed (kind : String) (fetched : List (Row β)) : List (RegistryRecord β) :=
  (load kind fetched).envelopes.filterMap fun e => activeOf (load kind fetched) e.id

theorem listServed_perm (kind : String) (fetched : List (Row β)) :
    (listServed kind fetched).Perm (listActive (load kind fetched)) :=
  ((sorted_perm _).filterMap _).symm

theorem served_none {fetched : List (Row β)} (hk : (fetched.map Row.key).Nodup) (kind : String)
    {recordId : String} (h : ∀ r ∈ fetched, r.id = recordId → r.status = .retired) :
    getOptional (load kind fetched) recordId = none := by
  cases hg : getOptional (load kind fetched) recordId with
  | none => rfl
  | some rec =>
    obtain ⟨r, -, -, hlast, -⟩ := (served_iff hk kind).mp hg
    obtain ⟨x, hx, hs, -⟩ := lastActive_some hlast
    obtain ⟨hx, hid⟩ := mem_rowsOf.mp hx
    simp [h x hx hid] at hs

section

variable [DecidableEq β]

theorem sync_some (retireMissing : Bool) (table : List (Row β)) {D : Store β}
    (h : D.envelopes ≠ []) : ∃ out, sync retireMissing table D = some out := by
  unfold sync
  rw [if_neg h]
  cases retireMissing with
  | false => exact ⟨_, rfl⟩
  | true => exact ⟨_, rfl⟩

/-- After a sync that ends a tidy history, the service reads from the database what it reads
from the files of every card that the script reads: the active record and every single version.
Where missing cards are retired no other id is served, and the lists of active records agree but
for the cards the script does not read. Only a deprecated record, which the files still serve,
is not served. -/
theorem database_serves_files (kind : String) (acts : List (Action β)) (retireMissing : Bool)
    (htidy : ListSplit.AtEach (fun before a => Tidy (run kind before) a) acts)
    (hcards : (globbed (run kind acts)).envelopes ≠ []) (fetched : List (Row β))
    (hf : Fetched (run kind (acts ++ [.sync retireMissing])).table fetched) :
    let w := run kind acts
    (∀ e ∈ w.files.envelopes, Globbed w e.id →
      getOptional (load kind fetched) e.id = activeOf w.files e.id ∧
      ∀ v, hasVersion e v →
        RegistryReads.get (load kind fetched) e.id (some v) =
          RegistryReads.get w.files e.id (some v)) ∧
    (retireMissing = true →
      (∀ recordId, (∀ e ∈ w.files.envelopes, e.id = recordId → ¬ Globbed w recordId) →
        getOptional (load kind fetched) recordId = none) ∧
      (listServed kind fetched).Perm ((listActive w.files).filter fun r => Globbed w r.id)) := by
  have hs := run_sound kind htidy
  obtain ⟨hok, hkeyed, hleft⟩ := hs.globbed
  obtain ⟨out, hout⟩ := sync_some retireMissing (run kind acts).table hcards
  have hm := mirrors_sync hkeyed hok hs.keys hleft hout
  have htable : (run kind (acts ++ [.sync retireMissing])).table = out.1 := by
    rw [run_snoc]
    simp [act, hout]
  rw [htable] at hf
  have hkeys := hf.keys hm.keys
  have hread : ∀ e ∈ (run kind acts).files.envelopes, Globbed (run kind acts) e.id →
      read (globbed (run kind acts)) e.id = some e := by
    intro e he hg
    have hmem := mem_globbed.mpr ⟨he, hg⟩
    cases hr : read (globbed (run kind acts)) e.id with
    | none => exact absurd (List.find?_eq_none.mp hr e hmem) (by simp)
    | some x =>
      rw [List.inj_on_of_nodup_map hkeyed.nodup (read_mem hr) hmem
        (by simpa using List.find?_some hr)]
  have hserved : ∀ e ∈ (run kind acts).files.envelopes, Globbed (run kind acts) e.id →
      getOptional (load kind fetched) e.id = activeOf (run kind acts).files e.id := by
    intro e he hg
    rw [hm.served hf hok kind (hread e he hg), activeOf_globbed hg]
  refine ⟨fun e he hg => ⟨hserved e he hg, fun v hv => ?_⟩, ?_⟩
  · have hversion := hm.version_read hf hok (hread e he hg) hv
    have hkind : (globbed (run kind acts)).kind = kind := run_kind kind acts
    rw [hkind, get_globbed hg] at hversion
    exact hversion
  · rintro rfl
    have hgone : ∀ recordId, (∀ e ∈ (run kind acts).files.envelopes, e.id = recordId →
        ¬ Globbed (run kind acts) recordId) →
        getOptional (load kind fetched) recordId = none := by
      intro recordId hno
      apply served_none hkeys
      intro r hrf hid
      refine sync_retires hs.keys hout (hf.perm.mem_iff.mp hrf) fun hin => ?_
      obtain ⟨e, he, heid⟩ := List.mem_map.mp hin
      obtain ⟨he, hg⟩ := mem_globbed.mp he
      exact hno e he (heid.trans hid) (hid ▸ heid ▸ hg)
    refine ⟨hgone, (listServed_perm kind fetched).trans ?_⟩
    have hown : ∀ r ∈ fetched, r.body.id = r.id := by
      have hsync := (sound_sync hs true).owned
      rw [← run_snoc, htable] at hsync
      exact fun r hr => hsync r (hf.perm.mem_iff.mp hr)
    have hloaded := load_keyed hkeys hown kind
    rw [List.perm_ext_iff_of_nodup (listActive_nodup hloaded).of_map
      ((listActive_nodup hs.keyed).of_map.filter _)]
    intro r
    rw [List.mem_filter, decide_eq_true_eq, mem_listActive hloaded, mem_listActive hs.keyed]
    by_cases hcard : ∃ e ∈ (run kind acts).files.envelopes, e.id = r.id ∧
        Globbed (run kind acts) r.id
    · obtain ⟨e, he, hid, hg⟩ := hcard
      rw [← hid, hserved e he (hid ▸ hg), activeOf, Option.filter_eq_some_iff]
      simp [hid, hg]
    · push Not at hcard
      rw [hgone r.id fun e he hid => hcard e he hid]
      refine iff_of_false (fun h => by cases h.1) ?_
      rintro ⟨⟨hget, _⟩, hg⟩
      obtain ⟨e, v, hr, _⟩ := getOptional_cases hget
      exact hcard e (read_mem hr) (by simpa using List.find?_some hr) hg

/-- Re-running the sync that ends a tidy history writes nothing. -/
theorem sync_rerun_writes_nothing (kind : String) (acts : List (Action β)) (retireMissing : Bool)
    (htidy : ListSplit.AtEach (fun before a => Tidy (run kind before) a) acts)
    (hcards : (globbed (run kind acts)).envelopes ≠ []) :
    let w := run kind (acts ++ [.sync retireMissing])
    ∃ n, sync retireMissing w.table (globbed w) = some (w.table, ⟨n, 0, 0⟩) := by
  have hs := run_sound kind htidy
  obtain ⟨hok, hkeyed, hleft⟩ := hs.globbed
  obtain ⟨out, hout⟩ := sync_some retireMissing (run kind acts).table hcards
  have hw : run kind (acts ++ [.sync retireMissing]) = { run kind acts with table := out.1 } := by
    rw [run_snoc]
    simp [act, hout]
  rw [hw]
  exact ⟨_, sync_again hkeyed hok hs.keys hleft hout⟩

end

def card (recordId : String) (version : ℕ) (status : RecordStatus) : RegistryRecord Unit :=
  ⟨recordId, version, status, ()⟩

def authored : List (Action Unit) :=
  [.author (.create (card "search_kb" 1 .draft)), .author (.activate "search_kb" 1),
    .move "search_kb" 1, .sync false, .author (.update (card "search_kb" 2 .draft)),
    .author (.activate "search_kb" 2), .author (.create (card "get_kb" 1 .draft)),
    .author (.activate "get_kb" 1)]

theorem authored_tidy :
    ListSplit.AtEach (fun before a => Tidy (run "tools" before) a) authored := by
  have hcall {w : World Unit} {c : Call Unit} (hp : Placed w.files c) (hc : ∀ r, c ≠ .create r) :
      Tidy w (.author c) := ⟨hp, fun r hr => absurd hr (hc r)⟩
  have hsplit : authored = [] ++ [.author (.create (card "search_kb" 1 .draft))] ++
      [.author (.activate "search_kb" 1)] ++ [.move "search_kb" 1] ++ [.sync false] ++
      [.author (.update (card "search_kb" 2 .draft))] ++ [.author (.activate "search_kb" 2)] ++
      [.author (.create (card "get_kb" 1 .draft))] ++ [.author (.activate "get_kb" 1)] := rfl
  rw [hsplit]
  simp only [ListSplit.atEach_snoc]
  refine ⟨⟨⟨⟨⟨⟨⟨⟨ListSplit.atEach_nil, ?_⟩, ?_⟩, trivial⟩, trivial⟩, ?_⟩, ?_⟩, ?_⟩, ?_⟩
  · refine ⟨fun _ _ => .inl rfl, fun r _ _ x hx => ?_⟩
    cases hx
  · exact hcall trivial nofun
  · exact hcall (fun e _ _ => ⟨by decide, nofun⟩) nofun
  · exact hcall trivial nofun
  · refine ⟨fun _ _ => .inl rfl, fun r hr _ x hx hid => ?_⟩
    cases hr
    revert x
    decide
  · exact hcall trivial nofun

/-- The database serves the tool in its folder and not the one on top. -/
theorem database_serves_files_authored :
    (listServed "tools" (run "tools" (authored ++ [.sync true])).table).map
        (fun r => (r.id, r.version)) = [("search_kb", 2)] ∧
    (listActive (run "tools" authored).files).map (fun r => (r.id, r.version)) =
      [("get_kb", 1), ("search_kb", 2)] ∧
    (listServed "tools" (run "tools" (authored ++ [.sync true])).table).Perm
      ((listActive (run "tools" authored).files).filter fun r =>
        Globbed (run "tools" authored) r.id) :=
  ⟨by decide, by decide, ((database_serves_files "tools" authored true authored_tidy (by decide) _
    ⟨.refl _, by decide⟩).2 rfl).2⟩

theorem sync_rerun_writes_nothing_authored :
    ∃ n, sync true (run "tools" (authored ++ [.sync true])).table
      (globbed (run "tools" (authored ++ [.sync true]))) =
        some ((run "tools" (authored ++ [.sync true])).table, ⟨n, 0, 0⟩) :=
  sync_rerun_writes_nothing "tools" authored true authored_tidy (by decide)

/-- An id that is used again while the table still has its old versions: the service goes on
with version 2 of the deleted card. -/
example :
    lastActive (run "tools" (authored ++ [.sync false, .author (.delete "search_kb"),
      .author (.create (card "search_kb" 1 .draft)), .author (.activate "search_kb" 1),
      .move "search_kb" 1, .sync true])).table = some 2 := by
  decide

end RegistrySync
