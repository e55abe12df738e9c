import Mathlib.Data.List.Nodup
import Mathlib.Data.List.Sort

/-! A relational table with a primary key and one optional UNIQUE column.
The constraints are fields, so a table that violates them cannot be built.
An UPDATE maps the matching rows in place; an INSERT is refused on a clash. -/
namespace KeyedTable

variable {α κ ν : Type*} {key : α → κ} {alt : α → Option ν}

/-- Rows whose UNIQUE column is `none` never clash, as NULLs do in SQL. -/
structure Table (key : α → κ) (alt : α → Option ν) where
  rows : List α
  key_unique : (rows.map key).Nodup
  alt_unique : (rows.filterMap alt).Nodup

def Table.empty : Table key alt := ⟨[], List.nodup_nil, List.nodup_nil⟩

def updateWhere (p : α → Bool) (f : α → α) (rows : List α) : List α :=
  rows.map fun r => if p r then f r else r

theorem map_updateWhere {β : Type*} {g : α → β} {f : α → α} (hf : ∀ r, g (f r) = g r)
    (p : α → Bool) (rows : List α) : (updateWhere p f rows).map g = rows.map g := by
  simp only [updateWhere, List.map_map]
  apply List.map_congr_left
  intro r _
  by_cases h : p r <;> simp [h, hf]

theorem filterMap_updateWhere {f : α → α} (hf : ∀ r, alt (f r) = alt r)
    (p : α → Bool) (rows : List α) : (updateWhere p f rows).filterMap alt = rows.filterMap alt := by
  simp only [updateWhere, List.filterMap_map]
  apply List.filterMap_congr
  intro r _
  by_cases h : p r <;> simp [h, hf]

def Table.update (t : Table key alt) (p : α → Bool) (f : α → α)
    (hk : ∀ r, key (f r) = key r) (ha : ∀ r, alt (f r) = alt r) : Table key alt where
  rows := updateWhere p f t.rows
  key_unique := by rw [map_updateWhere hk]; exact t.key_unique
  alt_unique := by rw [filterMap_updateWhere ha]; exact t.alt_unique

theorem Table.eq_of_key (t : Table key alt) {r s : α} (hr : r ∈ t.rows) (hs : s ∈ t.rows)
    (h : key r = key s) : r = s :=
  List.inj_on_of_nodup_map t.key_unique hr hs h

theorem Table.mem_update {t : Table key alt} {p : α → Bool} {f : α → α} {hk ha} {r : α} :
    r ∈ (t.update p f hk ha).rows ↔ ∃ q ∈ t.rows, (if p q then f q else q) = r :=
  List.mem_map

/-- A row holding a value of the UNIQUE column is the only one to hold it. -/
theorem Table.eq_of_alt (t : Table key alt) {r s : α} {v : ν} (hr : r ∈ t.rows)
    (hs : s ∈ t.rows) (hv : alt r = some v) (hw : alt s = some v) : r = s := by
  have main : ∀ rows : List α, (rows.filterMap alt).Nodup → r ∈ rows → s ∈ rows → r = s := by
    intro rows
    induction rows with
    | nil => intro _ hr; cases hr
    | cons a rows ih =>
      intro hn hr hs
      have hmem : ∀ q ∈ rows, alt q = some v → v ∈ rows.filterMap alt :=
        fun q hq hqv => List.mem_filterMap.mpr ⟨q, hq, hqv⟩
      cases ha : alt a with
      | none =>
        rw [List.filterMap_cons_none ha] at hn
        refine ih hn ((List.mem_cons.mp hr).resolve_left ?_) ((List.mem_cons.mp hs).resolve_left ?_)
        · rintro rfl; simp [ha] at hv
        · rintro rfl; simp [ha] at hw
      | some w =>
        rw [List.filterMap_cons_some ha, List.nodup_cons] at hn
        rcases List.mem_cons.mp hr with hra | hra <;> rcases List.mem_cons.mp hs with hsa | hsa
        · rw [hra, hsa]
        · rw [← hra, hv] at ha
          cases ha
          exact absurd (hmem s hsa hw) hn.1
        · rw [← hsa, hw] at ha
          cases ha
          exact absurd (hmem r hra hv) hn.1
        · exact ih hn.2 hra hsa
  exact main t.rows t.alt_unique hr hs

section Decidable

variable [DecidableEq κ]

def Table.lookup (t : Table key alt) (k : κ) : Option α := t.rows.find? fun r => key r = k

theorem Table.key_of_lookup {t : Table key alt} {k : κ} {r : α} (h : t.lookup k = some r) :
    key r = k := by
  have := List.find?_some h
  simpa using this

theorem Table.lookup_eq_some {t : Table key alt} {k : κ} {r : α} :
    t.lookup k = some r ↔ r ∈ t.rows ∧ key r = k := by
  refine ⟨fun h => ⟨List.mem_of_find?_eq_some h, key_of_lookup h⟩, ?_⟩
  rintro ⟨hr, hk⟩
  cases h : t.lookup k with
  | none =>
    have := List.find?_eq_none.mp h r hr
    simp [hk] at this
  | some s =>
    have hs := key_of_lookup h
    rw [t.eq_of_key (List.mem_of_find?_eq_some h) hr (hs.trans hk.symm)]

theorem Table.lookup_eq_none {t : Table key alt} {k : κ} :
    t.lookup k = none ↔ k ∉ t.rows.map key := by
  simp [Table.lookup]

theorem Table.lookup_key {t : Table key alt} {r : α} (hr : r ∈ t.rows) :
    t.lookup (key r) = some r := Table.lookup_eq_some.mpr ⟨hr, rfl⟩

/-- An UPDATE acts row by row: the row under a key depends on that row alone. -/
theorem Table.lookup_update (t : Table key alt) (p : α → Bool) (f : α → α) (hk ha) (k : κ) :
    (t.update p f hk ha).lookup k = (t.lookup k).map fun r => if p r then f r else r := by
  have hkey : ∀ q : α, key (if p q then f q else q) = key q := by
    intro q
    by_cases h : p q <;> simp [h, hk]
  cases h : t.lookup k with
  | none =>
    simp only [Option.map_none, lookup, List.find?_eq_none, decide_eq_true_eq]
    intro r hr
    obtain ⟨q, hq, rfl⟩ := Table.mem_update.mp hr
    rw [hkey]
    simpa using List.find?_eq_none.mp h q hq
  | some r =>
    obtain ⟨hr, rfl⟩ := Table.lookup_eq_some.mp h
    exact Table.lookup_eq_some.mpr ⟨Table.mem_update.mpr ⟨r, hr, rfl⟩, hkey r⟩

variable [DecidableEq ν]

def Table.insert (t : Table key alt) (r : α) : Option (Table key alt) :=
  if h : key r ∉ t.rows.map key ∧ ∀ v ∈ alt r, v ∉ t.rows.filterMap alt then
    some {
      rows := t.rows ++ [r]
      key_unique := by
        rw [List.map_append, List.nodup_append]
        refine ⟨t.key_unique, by simp, ?_⟩
        intro a ha b hb
        simp only [List.map_cons, List.map_nil, List.mem_singleton] at hb
        subst hb
        exact fun he => h.1 (he ▸ ha)
      alt_unique := by
        rw [List.filterMap_append, List.nodup_append]
        refine ⟨t.alt_unique, ?_, ?_⟩
        · cases h : alt r <;> simp [h]
        · intro a ha b hb he
          subst he
          simp only [List.filterMap_cons, List.filterMap_nil] at hb
          cases hr : alt r with
          | none => simp [hr] at hb
          | some v =>
            simp only [hr, List.mem_singleton] at hb
            subst hb
            exact h.2 _ hr ha }
  else none

theorem Table.insert_eq_some {t u : Table key alt} {r : α} (h : t.insert r = some u) :
    u.rows = t.rows ++ [r] ∧ key r ∉ t.rows.map key ∧ ∀ v ∈ alt r, v ∉ t.rows.filterMap alt := by
  unfold Table.insert at h
  split at h
  · rename_i hc
    cases h
    exact ⟨rfl, hc⟩
  · cases h

theorem Table.insert_eq_none {t : Table key alt} {r : α} (h : t.insert r = none) :
    key r ∈ t.rows.map key ∨ ∃ v ∈ alt r, v ∈ t.rows.filterMap alt := by
  unfold Table.insert at h
  split at h
  · cases h
  · rename_i hc
    by_contra hn
    push Not at hn
    exact hc hn

theorem Table.lookup_insert {t u : Table key alt} {r : α} (h : t.insert r = some u) (k : κ) :
    u.lookup k = if key r = k then some r else t.lookup k := by
  obtain ⟨hrows, hkey, _⟩ := Table.insert_eq_some h
  split
  · rename_i he
    exact Table.lookup_eq_some.mpr ⟨by rw [hrows]; simp, he⟩
  · rename_i he
    simp [Table.lookup, hrows, List.find?_append, he]

end Decidable

end KeyedTable
