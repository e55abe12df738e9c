import OneOps.RowMerge
import Mathlib.Data.List.Induction

/-! Dictionaries with a default value, and two that are filled by loops: the index of some
items by their terms, and the number of times that each key occurs. -/
namespace InvertedIndex

open RowMerge

variable {α κ ν τ : Type*} [DecidableEq κ] [DecidableEq τ]

def getD (d : ν) (table : List (κ × ν)) (k : κ) : ν :=
  ((table.find? fun e => e.1 = k).map Prod.snd).getD d

theorem getD_cons (d : ν) (e : κ × ν) (table : List (κ × ν)) (k : κ) :
    getD d (e :: table) k = if e.1 = k then e.2 else getD d table k := by
  by_cases h : e.1 = k
  · simp [getD, h]
  · simp [getD, h]

theorem getD_append {d v : ν} {table : List (κ × ν)} {k k' : κ} (h : k ∉ table.map Prod.fst) :
    getD d (table ++ [(k, v)]) k' = if k = k' then v else getD d table k' := by
  induction table with
  | nil => rw [List.nil_append, getD_cons]
  | cons e table ih =>
    rw [List.map_cons, List.mem_cons, not_or] at h
    rw [List.cons_append, getD_cons, getD_cons, ih h.2]
    by_cases he : e.1 = k'
    · rw [if_pos he, if_pos he, if_neg fun hk => h.1 (hk.trans he.symm)]
    · rw [if_neg he, if_neg he]

theorem getD_replace_ne {d v : ν} {k k' : κ} (h : k ≠ k') (table : List (κ × ν)) :
    getD d (table.map fun e => if e.1 = k then (k, v) else e) k' = getD d table k' := by
  induction table with
  | nil => rfl
  | cons e table ih =>
    rw [List.map_cons, getD_cons, getD_cons, ih]
    by_cases he : e.1 = k
    · rw [if_pos he, if_neg h, he, if_neg h]
    · rw [if_neg he]

theorem getD_replace_self {d v : ν} {k : κ} {table : List (κ × ν)} (h : k ∈ table.map Prod.fst) :
    getD d (table.map fun e => if e.1 = k then (k, v) else e) k = v := by
  induction table with
  | nil => cases h
  | cons e table ih =>
    rw [List.map_cons, getD_cons]
    by_cases he : e.1 = k
    · rw [if_pos he, if_pos rfl]
    · rw [if_neg he, if_neg he]
      apply ih
      rw [List.map_cons, List.mem_cons] at h
      exact h.resolve_left fun hk => he hk.symm

theorem getD_upsert (d : ν) (table : List (κ × ν)) (k k' : κ) (v : ν) :
    getD d (upsert Prod.fst table (k, v)) k' = if k = k' then v else getD d table k' := by
  by_cases hk : k ∈ table.map Prod.fst
  · rw [upsert, if_pos hk]
    by_cases hkk : k = k'
    · rw [if_pos hkk, ← hkk]
      exact getD_replace_self hk
    · rw [if_neg hkk]
      exact getD_replace_ne hkk table
  · rw [upsert_new hk, getD_append hk]

/-- `table.setdefault(k, []).append(v)`. -/
def append (table : List (κ × List ν)) (k : κ) (v : ν) : List (κ × List ν) :=
  upsert Prod.fst table (k, getD [] table k ++ [v])

def enter (table : List (τ × List ν)) (terms : List τ) (v : ν) : List (τ × List ν) :=
  terms.foldl (fun table t => append table t v) table

theorem getD_enter {terms : List τ} (hn : terms.Nodup) (table : List (τ × List ν)) (v : ν)
    (t : τ) : getD [] (enter table terms v) t =
      getD [] table t ++ if t ∈ terms then [v] else [] := by
  induction terms generalizing table with
  | nil => simp [enter]
  | cons u terms ih =>
    obtain ⟨hu, hn⟩ := List.nodup_cons.mp hn
    have hcons : enter table (u :: terms) v = enter (append table u v) terms v := rfl
    rw [hcons, ih hn, append, getD_upsert]
    by_cases hut : u = t
    · subst hut
      simp [hu]
    · have hne : ¬ t = u := fun h => hut h.symm
      simp [hut, hne]

def build (terms : α → List τ) (entry : α → ν) (items : List α) : List (τ × List ν) :=
  items.foldl (fun table a => enter table (terms a) (entry a)) []

/-- Under a term stand the items that have it, in their order. -/
theorem getD_build {terms : α → List τ} (hn : ∀ a, (terms a).Nodup) (entry : α → ν)
    (items : List α) (t : τ) :
    getD [] (build terms entry items) t = (items.filter fun a => t ∈ terms a).map entry := by
  induction items using List.reverseRecOn with
  | nil => rfl
  | append_singleton items a ih =>
    have hsnoc : build terms entry (items ++ [a]) =
        enter (build terms entry items) (terms a) (entry a) := by
      rw [build, List.foldl_append]
      rfl
    rw [hsnoc, getD_enter (hn a), ih, List.filter_append, List.map_append]
    by_cases ht : t ∈ terms a <;> simp [ht]

def bump (table : List (κ × ℕ)) (k : κ) : List (κ × ℕ) :=
  upsert Prod.fst table (k, getD 0 table k + 1)

def tally (keys : List κ) : List (κ × ℕ) := keys.foldl bump []

theorem getD_tally (keys : List κ) (k : κ) : getD 0 (tally keys) k = keys.count k := by
  induction keys using List.reverseRecOn with
  | nil => rfl
  | append_singleton keys x ih =>
    have hsnoc : tally (keys ++ [x]) = bump (tally keys) x := by
      rw [tally, List.foldl_append]
      rfl
    rw [hsnoc, bump, getD_upsert, List.count_append, List.count_singleton]
    by_cases hx : x = k
    · rw [if_pos hx, hx, ih]
      simp
    · rw [if_neg hx, ih]
      simp [hx]

/-- Terms looked up one after the other list an item as often as there are terms of it. -/
theorem count_lookups {terms : α → List τ} (hn : ∀ a, (terms a).Nodup) {entry : α → ν}
    {key : ν → κ} {items : List α} (hkeys : (items.map fun a => key (entry a)).Nodup) {a : α}
    (ha : a ∈ items) (query : List τ) :
    (query.flatMap fun t => (getD [] (build terms entry items) t).map key).count
        (key (entry a)) = (query.filter fun t => t ∈ terms a).length := by
  have hone : ∀ t, ((getD [] (build terms entry items) t).map key).count (key (entry a)) =
      if t ∈ terms a then 1 else 0 := by
    intro t
    rw [getD_build hn, List.map_map]
    have hnodup : ((items.filter fun b => t ∈ terms b).map (key ∘ entry)).Nodup :=
      hkeys.sublist (List.filter_sublist.map _)
    rw [hnodup.count]
    -- no other item has the key
    have hmem : key (entry a) ∈ (items.filter fun b => t ∈ terms b).map (key ∘ entry) ↔
        t ∈ terms a := by
      constructor
      · intro h
        obtain ⟨b, hb, hkey⟩ := List.mem_map.mp h
        obtain ⟨hb, ht⟩ := List.mem_filter.mp hb
        rw [← List.inj_on_of_nodup_map hkeys hb ha hkey]
        simpa using ht
      · intro ht
        exact List.mem_map.mpr ⟨a, List.mem_filter.mpr ⟨ha, by simpa using ht⟩, rfl⟩
    exact if_congr hmem rfl rfl
  induction query with
  | nil => rfl
  | cons t query ih =>
    rw [List.flatMap_cons, List.count_append, hone, ih, List.filter_cons]
    by_cases ht : t ∈ terms a
    · simp only [ht, if_true, decide_true, List.length_cons]
      omega
    · simp only [ht, if_false, decide_false, Bool.false_eq_true]
      omega

theorem count_lookups_of_not_mem {terms : α → List τ} (hn : ∀ a, (terms a).Nodup) {entry : α → ν}
    {key : ν → κ} {items : List α} {k : κ} (hk : ∀ a ∈ items, key (entry a) ≠ k)
    (query : List τ) :
    (query.flatMap fun t => (getD [] (build terms entry items) t).map key).count k = 0 := by
  rw [List.count_eq_zero]
  intro hmem
  obtain ⟨t, _, ht⟩ := List.mem_flatMap.mp hmem
  rw [getD_build hn, List.map_map] at ht
  obtain ⟨a, ha, hkey⟩ := List.mem_map.mp ht
  exact hk a (List.mem_filter.mp ha).1 hkey

end InvertedIndex
