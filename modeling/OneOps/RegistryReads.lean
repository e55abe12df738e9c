import OneOps.VersionedRegistry

/-! What the versioned store reads back: one version, or the active one, and the records
that are active. Every record is stored under its own id. -/
namespace RegistryReads

open VersionedRegistry
open RowMerge

variable {β : Type*} {D : Store β}

def get (D : Store β) (recordId : String) (version : Option ℕ) :
    Except RegistryError (RegistryRecord β) :=
  match read D recordId with
  | none => .error (.notFound (label D recordId ++ " does not exist"))
  | some e =>
    match version.or e.activeVersion with
    | none => .error (.notFound (label D recordId ++
        " has no active version (still DRAFT or fully retired)"))
    | some v =>
      match e.versions.find? fun p => p.1 = v with
      | none => .error (.notFound (label D recordId ++ " has no version " ++ toString v))
      | some p => .ok p.2

def getOptional (D : Store β) (recordId : String) : Option (RegistryRecord β) :=
  match get D recordId none with
  | .ok r => some r
  | .error _ => none

def activeOf (D : Store β) (recordId : String) : Option (RegistryRecord β) :=
  (getOptional D recordId).filter fun r => r.status = .active

/-- A deprecated record is served but not listed. -/
def listActive (D : Store β) : List (RegistryRecord β) :=
  (sorted D).filterMap fun e => activeOf D e.id

def Stores (J : String → RegistryRecord β → Prop) (D : Store β) : Prop :=
  ∀ e ∈ D.envelopes, ∀ p ∈ e.versions, J e.id p.2

structure Keyed (D : Store β) : Prop where
  nodup : (D.envelopes.map Envelope.id).Nodup
  owns : Stores (fun recordId r => r.id = recordId) D

def brings : Call β → Option (RegistryRecord β)
  | .create r => some r
  | .update r => some r
  | _ => none

/-- An envelope whose versions are those of a stored one, whatever their status, and the
record that the call brings. -/
def Follows (D : Store β) (c : Call β) (e : Envelope β) : Prop :=
  ∀ p ∈ e.versions, (brings c = some p.2 ∧ p.2.id = e.id) ∨
    ∃ e₀ ∈ D.envelopes, e₀.id = e.id ∧ ∃ q ∈ e₀.versions, ∃ s, p.2 = { q.2 with status := s }

theorem setStatus_follows {v : ℕ} {s : RecordStatus} {versions : List (ℕ × RegistryRecord β)}
    {p : ℕ × RegistryRecord β} (h : p ∈ setStatus v s versions) :
    ∃ q ∈ versions, ∃ s, p.2 = { q.2 with status := s } := by
  obtain ⟨q, hq, rfl⟩ := List.mem_map.mp h
  refine ⟨q, hq, ?_⟩
  by_cases hv : q.1 = v
  · exact ⟨s, by rw [if_pos hv]⟩
  · exact ⟨q.2.status, by rw [if_neg hv]⟩

theorem withActivated_follows {v : ℕ} {e : Envelope β} {p : ℕ × RegistryRecord β}
    (h : p ∈ (withActivated v e).versions) :
    ∃ q ∈ e.versions, ∃ s, p.2 = { q.2 with status := s } := by
  obtain ⟨q, hq, s, hp⟩ := setStatus_follows h
  -- the demoted versions are stored ones too
  have hdem : ∃ q' ∈ e.versions, ∃ s, q.2 = { q'.2 with status := s } := by
    revert hq
    cases e.activeVersion with
    | none => exact fun hq => ⟨q, hq, q.2.status, rfl⟩
    | some prior =>
      intro hq
      by_cases hne : prior = v
      · simp only [hne, ne_eq, not_true, if_false] at hq
        exact ⟨q, hq, q.2.status, rfl⟩
      · simp only [hne, ne_eq, not_false_eq_true, if_true] at hq
        exact setStatus_follows hq
  obtain ⟨q', hq', s', hq'e⟩ := hdem
  exact ⟨q', hq', s, by rw [hp, hq'e]⟩

theorem step_cases (D : Store β) (c : Call β) :
    step D c = D ∨ (∃ e, step D c = write D e ∧ Follows D c e) ∨
      ∃ recordId,
        step D c = { D with envelopes := D.envelopes.filter fun e => e.id ≠ recordId } := by
  have htrans : ∀ (change : Envelope β → Envelope β) (recordId : String) (v : ℕ),
      (∀ e, (change e).id = e.id ∧ ∀ p ∈ (change e).versions,
        ∃ q ∈ e.versions, ∃ s, p.2 = { q.2 with status := s }) →
      commit D (transition change D recordId v) = D ∨
        ∃ e, commit D (transition change D recordId v) = write D e ∧ Follows D c e := by
    intro change recordId v hchange
    unfold transition
    cases hr : read D recordId with
    | none => exact .inl rfl
    | some e =>
      by_cases hv : hasVersion e v
      · refine .inr ⟨change e, by simp only [if_pos hv, commit], ?_⟩
        intro p hp
        exact .inr ⟨e, read_mem hr, (hchange e).1.symm, (hchange e).2 p hp⟩
      · exact .inl (by simp only [if_neg hv, commit])
  cases c with
  | create r =>
    have hstep : step D (.create r) = commit D (create D r) := rfl
    rw [hstep, create]
    cases hr : read D r.id with
    | some e => exact .inl rfl
    | none =>
      by_cases hv : r.version ≠ 1
      · exact .inl (by simp only [if_pos hv, commit])
      · refine .inr (.inl ⟨⟨r.id, [(1, r)], none⟩, by simp only [if_neg hv, commit], ?_⟩)
        intro p hp
        rw [List.mem_singleton] at hp
        exact .inl ⟨by rw [hp]; rfl, by rw [hp]⟩
  | update r =>
    have hstep : step D (.update r) = commit D (update D r) := rfl
    rw [hstep, update]
    cases hr : read D r.id with
    | none => exact .inl rfl
    | some e =>
      have hid : e.id = r.id := by simpa using List.find?_some hr
      by_cases hv : r.version ≠ expectedVersion e
      · exact .inl (by simp only [if_pos hv, commit])
      · refine .inr (.inl ⟨⟨e.id, e.versions ++ [(expectedVersion e, r)], e.activeVersion⟩,
          by simp only [if_neg hv, commit], ?_⟩)
        intro p hp
        rcases List.mem_append.mp hp with hp | hp
        · exact .inr ⟨e, read_mem hr, rfl, p, hp, p.2.status, rfl⟩
        · rw [List.mem_singleton] at hp
          exact .inl ⟨by rw [hp]; rfl, by rw [hp]; exact hid.symm⟩
  | activate recordId v =>
    exact (htrans (withActivated v) recordId v
      fun e => ⟨rfl, fun p hp => withActivated_follows hp⟩).imp_right .inl
  | deprecateVersion recordId v =>
    exact (htrans (withDeprecated v) recordId v
      fun e => ⟨rfl, fun p hp => setStatus_follows hp⟩).imp_right .inl
  | retire recordId v =>
    exact (htrans (withRetired v) recordId v
      fun e => ⟨rfl, fun p hp => setStatus_follows hp⟩).imp_right .inl
  | delete recordId =>
    have hstep : step D (.delete recordId) = commit D (delete D recordId) := rfl
    rw [hstep, delete]
    cases hr : read D recordId with
    | none => exact .inl rfl
    | some e => exact .inr (.inr ⟨recordId, rfl⟩)

theorem step_stores {J : String → RegistryRecord β → Prop}
    (hs : ∀ k r s, J k r → J k { r with status := s }) {c : Call β}
    (hc : ∀ r, brings c = some r → J r.id r) (h : Stores J D) : Stores J (step D c) := by
  rcases step_cases D c with he | ⟨e, he, hf⟩ | ⟨recordId, he⟩
  · rwa [he]
  · rw [he]
    intro x hx p hp
    rcases mem_upsert.mp hx with rfl | ⟨hx, _⟩
    · rcases hf p hp with ⟨hb, hid⟩ | ⟨e₀, he₀, hid, q, hq, s, hqs⟩
      · rw [← hid]
        exact hc p.2 hb
      · rw [← hid, hqs]
        exact hs _ _ _ (h e₀ he₀ q hq)
    · exact h x hx p hp
  · rw [he]
    intro x hx p hp
    exact h x (List.mem_filter.mp hx).1 p hp

theorem step_nodup (h : (D.envelopes.map Envelope.id).Nodup) (c : Call β) :
    ((step D c).envelopes.map Envelope.id).Nodup := by
  rcases step_cases D c with he | ⟨e, he, _⟩ | ⟨recordId, he⟩
  · rwa [he]
  · rw [he]
    exact upsert_nodup h
  · rw [he]
    exact h.sublist (List.filter_sublist.map _)

theorem after_stores {J : String → RegistryRecord β → Prop}
    (hs : ∀ k r s, J k r → J k { r with status := s }) (kind : String) {calls : List (Call β)}
    (hc : ∀ c ∈ calls, ∀ r, brings c = some r → J r.id r) : Stores J (after kind calls) := by
  induction calls using List.reverseRecOn with
  | nil =>
    intro e he
    cases he
  | append_singleton calls c ih =>
    rw [after_snoc]
    apply step_stores hs (hc c (by simp))
    exact ih fun c' hc' => hc c' (List.mem_append_left _ hc')

/-- Whatever is called, a record is stored under its own id, and once. -/
theorem after_keyed (kind : String) (calls : List (Call β)) : Keyed (after kind calls) := by
  refine ⟨?_, after_stores (fun _ _ _ h => h) kind fun _ _ _ _ => rfl⟩
  induction calls using List.reverseRecOn with
  | nil => exact List.nodup_nil
  | append_singleton calls c ih =>
    rw [after_snoc]
    exact step_nodup ih c

theorem getOptional_cases {recordId : String} {r : RegistryRecord β}
    (h : getOptional D recordId = some r) :
    ∃ e v, read D recordId = some e ∧ e.activeVersion = some v ∧ (v, r) ∈ e.versions := by
  unfold getOptional get at h
  cases hr : read D recordId with
  | none => simp [hr] at h
  | some e =>
    cases ha : e.activeVersion with
    | none => simp [hr, ha] at h
    | some v =>
      cases hf : e.versions.find? fun p => p.1 = v with
      | none => simp [hr, ha, hf] at h
      | some p =>
        simp only [hr, ha, hf, Option.none_or, Option.some.injEq] at h
        refine ⟨e, v, rfl, ha, ?_⟩
        have hv : p.1 = v := by simpa using List.find?_some hf
        rw [← h, ← hv]
        exact List.mem_of_find?_eq_some hf

theorem getOptional_id (hD : Keyed D) {recordId : String} {r : RegistryRecord β}
    (h : getOptional D recordId = some r) : r.id = recordId := by
  obtain ⟨e, v, hr, _, hm⟩ := getOptional_cases h
  have hid : e.id = recordId := by simpa using List.find?_some hr
  rw [hD.owns e (read_mem hr) (v, r) hm, hid]

/-- The active records are those that the store serves with that status. -/
theorem mem_listActive (hD : Keyed D) {r : RegistryRecord β} :
    r ∈ listActive D ↔ getOptional D r.id = some r ∧ r.status = .active := by
  unfold listActive
  rw [List.mem_filterMap]
  constructor
  · rintro ⟨e, _, h⟩
    obtain ⟨hg, hs⟩ := Option.filter_eq_some_iff.mp h
    exact ⟨(getOptional_id hD hg).symm ▸ hg, by simpa using hs⟩
  · rintro ⟨hg, hs⟩
    obtain ⟨e, v, hr, _⟩ := getOptional_cases hg
    have hid : e.id = r.id := by simpa using List.find?_some hr
    exact ⟨e, (sorted_perm D).mem_iff.mpr (read_mem hr),
      Option.filter_eq_some_iff.mpr ⟨hid ▸ hg, by simpa using hs⟩⟩

theorem listActive_nodup (hD : Keyed D) : ((listActive D).map RegistryRecord.id).Nodup := by
  have hsub : ∀ l : List (Envelope β), ((l.filterMap fun e => activeOf D e.id).map
      RegistryRecord.id).Sublist (l.map Envelope.id) := by
    intro l
    induction l with
    | nil => exact .refl _
    | cons e l ih =>
      rw [List.filterMap_cons]
      cases hg : activeOf D e.id with
      | none => exact ih.cons e.id
      | some r =>
        have hid := getOptional_id hD (Option.filter_eq_some_iff.mp hg).1
        simp only [List.map_cons, hid]
        exact ih.cons_cons e.id
  exact (((sorted_perm D).map Envelope.id).nodup_iff.mpr hD.nodup).sublist (hsub _)

end RegistryReads
