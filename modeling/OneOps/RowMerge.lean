import Mathlib.Data.List.Nodup
import Mathlib.Data.List.Pairwise

/-! Rows folded into an insertion-ordered map and read back as a list. With `upsert` the
last row of a key wins and keeps the first one's place; with `insertNew` the first row
wins. Both leave one row for each key. -/
namespace RowMerge

variable {α κ : Type*} [DecidableEq κ] (key : α → κ)

def upsert (rows : List α) (r : α) : List α :=
  if key r ∈ rows.map key then rows.map fun x => if key x = key r then r else x
  else rows ++ [r]

def insertNew (rows : List α) (r : α) : List α :=
  if key r ∈ rows.map key then rows else rows ++ [r]

def mergeLast (left right : List α) : List α := (left ++ right).foldl (upsert key) []

def mergeFirst (left right : List α) : List α := (left ++ right).foldl (insertNew key) []

variable {key}

theorem upsert_new {rows : List α} {r : α} (h : key r ∉ rows.map key) :
    upsert key rows r = rows ++ [r] := if_neg h

theorem insertNew_new {rows : List α} {r : α} (h : key r ∉ rows.map key) :
    insertNew key rows r = rows ++ [r] := if_neg h

theorem insertNew_old {rows : List α} {r : α} (h : key r ∈ rows.map key) :
    insertNew key rows r = rows := if_pos h

theorem mem_upsert {rows : List α} {r x : α} :
    x ∈ upsert key rows r ↔ x = r ∨ (x ∈ rows ∧ key x ≠ key r) := by
  by_cases hr : key r ∈ rows.map key
  · rw [upsert, if_pos hr, List.mem_map]
    constructor
    · rintro ⟨y, hy, rfl⟩
      by_cases hk : key y = key r
      · exact .inl (if_pos hk)
      · exact .inr ⟨by rwa [if_neg hk], by rwa [if_neg hk]⟩
    · rintro (rfl | ⟨hx, hk⟩)
      · obtain ⟨y, hy, hk⟩ := List.mem_map.mp hr
        exact ⟨y, hy, if_pos hk⟩
      · exact ⟨x, hx, if_neg hk⟩
  · rw [upsert_new hr, List.mem_append, List.mem_singleton, or_comm]
    refine or_congr_right ⟨fun hx => ⟨hx, ?_⟩, fun hx => hx.1⟩
    intro hk
    exact hr (hk ▸ List.mem_map_of_mem hx)

theorem keys_upsert_old {rows : List α} {r : α} (h : key r ∈ rows.map key) :
    (upsert key rows r).map key = rows.map key := by
  rw [upsert, if_pos h, List.map_map]
  apply List.map_congr_left
  intro x _
  by_cases hx : key x = key r <;> simp [hx]

theorem mem_keys_upsert {rows : List α} {r : α} {k : κ} :
    k ∈ (upsert key rows r).map key ↔ k ∈ rows.map key ∨ k = key r := by
  by_cases hr : key r ∈ rows.map key
  · rw [keys_upsert_old hr]
    refine ⟨.inl, ?_⟩
    rintro (h | rfl)
    · exact h
    · exact hr
  · rw [upsert_new hr]
    simp

theorem upsert_nodup {rows : List α} {r : α} (h : (rows.map key).Nodup) :
    ((upsert key rows r).map key).Nodup := by
  by_cases hr : key r ∈ rows.map key
  · rwa [keys_upsert_old hr]
  · rw [upsert_new hr, List.map_append, List.nodup_append]
    refine ⟨h, by simp, ?_⟩
    rintro a ha b hb rfl
    simp only [List.map_cons, List.map_nil, List.mem_singleton] at hb
    exact hr (hb ▸ ha)

/-- Two rows of one key: only the later one is left. -/
theorem upsert_same {rows : List α} {r x : α} (h : key r = key x) :
    upsert key (upsert key rows r) x = upsert key rows x := by
  by_cases hr : key r ∈ rows.map key
  · have hx : key x ∈ rows.map key := h ▸ hr
    have hx' : key x ∈ (upsert key rows r).map key := by rwa [keys_upsert_old hr]
    rw [upsert, if_pos hx', upsert, if_pos hr, upsert, if_pos hx, List.map_map]
    apply List.map_congr_left
    intro y _
    by_cases hy : key y = key r
    · simp [hy, h]
    · have hyx : key y ≠ key x := fun he => hy (he.trans h.symm)
      simp [hy, hyx]
  · have hx : key x ∉ rows.map key := h ▸ hr
    have hold : rows.map (fun y => if key y = key x then x else y) = rows := by
      refine (List.map_congr_left ?_).trans (List.map_id rows)
      intro y hy
      exact if_neg fun (he : key y = key x) => hx (he ▸ List.mem_map_of_mem hy)
    have hin : key x ∈ (rows ++ [r]).map key := by
      rw [List.map_append, ← h]
      exact List.mem_append_right _ List.mem_cons_self
    rw [upsert_new hr, upsert_new hx, upsert, if_pos hin, List.map_append, hold]
    simp [h]

/-- A row that replaces an older one commutes with a row of another key. -/
theorem upsert_comm {rows : List α} {r x : α} (hne : key x ≠ key r)
    (hr : key r ∈ rows.map key) :
    upsert key (upsert key rows x) r = upsert key (upsert key rows r) x := by
  have hr' : key r ∈ (upsert key rows x).map key := mem_keys_upsert.mpr (.inl hr)
  by_cases hx : key x ∈ rows.map key
  · have hx' : key x ∈ (upsert key rows r).map key := mem_keys_upsert.mpr (.inl hx)
    rw [upsert, if_pos hr', upsert, if_pos hx, upsert, if_pos hx', upsert, if_pos hr,
      List.map_map, List.map_map]
    apply List.map_congr_left
    intro y _
    by_cases hyx : key y = key x
    · have hyr : key y ≠ key r := hyx ▸ hne
      simp [hyx, hne]
    · by_cases hyr : key y = key r
      · simp [hyr, hne.symm]
      · simp [hyx, hyr]
  · have hx' : key x ∉ (upsert key rows r).map key := by rwa [keys_upsert_old hr]
    rw [upsert_new hx', upsert_new hx]
    rw [upsert_new hx] at hr'
    rw [upsert, if_pos hr', upsert, if_pos hr, List.map_append]
    simp [hne]

theorem upsert_foldl_upsert {rows new : List α} {r : α} (hr : key r ∈ rows.map key)
    (hnew : key r ∉ new.map key) :
    upsert key (new.foldl (upsert key) rows) r = new.foldl (upsert key) (upsert key rows r) := by
  induction new generalizing rows with
  | nil => rfl
  | cons x new ih =>
    rw [List.map_cons, List.mem_cons, not_or] at hnew
    rw [List.foldl_cons, List.foldl_cons, ih (mem_keys_upsert.mpr (.inl hr)) hnew.2,
      upsert_comm (Ne.symm hnew.1) hr]

/-- Folding in rows where one has been replaced is replacing it after the fold. -/
theorem foldl_upsert_replace {rows base : List α} {r : α} (h : (rows.map key).Nodup) :
    (upsert key rows r).foldl (upsert key) base = upsert key (rows.foldl (upsert key) base) r := by
  by_cases hr : key r ∈ rows.map key
  · obtain ⟨t, ht, hk⟩ := List.mem_map.mp hr
    obtain ⟨before, after, rfl⟩ := List.append_of_mem ht
    rw [List.map_append, List.map_cons, List.nodup_append, List.nodup_cons] at h
    have hbefore : ∀ y ∈ before, key y ≠ key r := by
      intro y hy he
      exact h.2.2 _ (List.mem_map_of_mem hy) _ List.mem_cons_self (he.trans hk.symm)
    have hafter : key r ∉ after.map key := hk ▸ h.2.1.1
    have hmap : upsert key (before ++ t :: after) r = before ++ r :: after := by
      have hb : before.map (fun y => if key y = key r then r else y) = before :=
        (List.map_congr_left fun y hy => if_neg (hbefore y hy)).trans (List.map_id _)
      have ha : after.map (fun y => if key y = key r then r else y) = after := by
        refine (List.map_congr_left fun y hy => if_neg ?_).trans (List.map_id _)
        intro he
        exact hafter (he ▸ List.mem_map_of_mem hy)
      rw [upsert, if_pos hr, List.map_append, List.map_cons, hb, ha, if_pos hk]
    have hin : key r ∈ (upsert key (before.foldl (upsert key) base) t).map key :=
      mem_keys_upsert.mpr (.inr hk.symm)
    rw [hmap, List.foldl_append, List.foldl_append, List.foldl_cons, List.foldl_cons,
      upsert_foldl_upsert hin hafter, upsert_same hk]
  · rw [upsert_new hr, List.foldl_append]
    rfl

/-- Rows may be folded into an intermediate map first. -/
theorem foldl_upsert_assoc {base rows new : List α} (h : (rows.map key).Nodup) :
    (new.foldl (upsert key) rows).foldl (upsert key) base =
      new.foldl (upsert key) (rows.foldl (upsert key) base) := by
  induction new generalizing rows with
  | nil => rfl
  | cons r new ih =>
    rw [List.foldl_cons, List.foldl_cons, ih (upsert_nodup h), foldl_upsert_replace h]

theorem mem_keys_foldl_upsert {rows new : List α} {k : κ} :
    k ∈ (new.foldl (upsert key) rows).map key ↔ k ∈ rows.map key ∨ k ∈ new.map key := by
  induction new generalizing rows with
  | nil => simp
  | cons r new ih => rw [List.foldl_cons, ih, mem_keys_upsert, List.map_cons,
      List.mem_cons, or_assoc]

theorem foldl_upsert_nodup {rows new : List α} (h : (rows.map key).Nodup) :
    ((new.foldl (upsert key) rows).map key).Nodup := by
  induction new generalizing rows with
  | nil => exact h
  | cons r new ih => exact ih (upsert_nodup h)

omit [DecidableEq κ] in
/-- Rows with fresh keys are appended as they come, whichever row wins. -/
theorem foldl_fresh {f : List α → α → List α}
    (hf : ∀ {rows : List α} {r : α}, key r ∉ rows.map key → f rows r = rows ++ [r])
    {rows new : List α} (h : ((rows ++ new).map key).Nodup) : new.foldl f rows = rows ++ new := by
  induction new generalizing rows with
  | nil => simp
  | cons r new ih =>
    have hr : key r ∉ rows.map key := by
      rw [List.map_append, List.nodup_append] at h
      intro hk
      exact h.2.2 _ hk _ (by simp) rfl
    rw [List.foldl_cons, hf hr, ih (by simpa using h)]
    simp

theorem mergeLast_fresh {left new : List α} (h : ((left ++ new).map key).Nodup) :
    mergeLast key left new = left ++ new := by
  rw [mergeLast, foldl_fresh upsert_new (by simpa using h), List.nil_append]

theorem mergeFirst_eq_foldl {left right : List α} (h : (left.map key).Nodup) :
    mergeFirst key left right = right.foldl (insertNew key) left := by
  have hl : left.foldl (insertNew key) [] = [] ++ left :=
    foldl_fresh insertNew_new (by simpa using h)
  rw [mergeFirst, List.foldl_append, hl, List.nil_append]

/-- A first-wins merge keeps every row it starts from. -/
theorem mem_foldl_insertNew {rows new : List α} {x : α} (h : x ∈ rows) :
    x ∈ new.foldl (insertNew key) rows := by
  induction new generalizing rows with
  | nil => exact h
  | cons r new ih =>
    rw [List.foldl_cons]
    apply ih
    by_cases hr : key r ∈ rows.map key
    · rwa [insertNew_old hr]
    · rw [insertNew_new hr]
      exact List.mem_append_left _ h

theorem insertNew_nodup {rows : List α} {r : α} (h : (rows.map key).Nodup) :
    ((insertNew key rows r).map key).Nodup := by
  by_cases hr : key r ∈ rows.map key
  · rwa [insertNew_old hr]
  · rw [insertNew_new hr, List.map_append, List.nodup_append]
    refine ⟨h, by simp, ?_⟩
    intro a ha b hb
    simp only [List.map_cons, List.map_nil, List.mem_singleton] at hb
    rw [hb]
    rintro rfl
    exact hr ha

theorem mem_keys_insertNew {rows : List α} {r : α} {k : κ} :
    k ∈ (insertNew key rows r).map key ↔ k ∈ rows.map key ∨ k = key r := by
  by_cases hr : key r ∈ rows.map key
  · rw [insertNew_old hr]
    refine ⟨.inl, ?_⟩
    rintro (h | rfl)
    · exact h
    · exact hr
  · rw [insertNew_new hr]
    simp

theorem foldl_insertNew_nodup {rows new : List α} (h : (rows.map key).Nodup) :
    ((new.foldl (insertNew key) rows).map key).Nodup := by
  induction new generalizing rows with
  | nil => exact h
  | cons r new ih => exact ih (insertNew_nodup h)

/-- Distinct new rows are appended unless their key is taken. -/
theorem foldl_insertNew_filter {rows new : List α} (h : (new.map key).Nodup) :
    new.foldl (insertNew key) rows = rows ++ new.filter fun r => key r ∉ rows.map key := by
  induction new generalizing rows with
  | nil => simp
  | cons r new ih =>
    rw [List.map_cons, List.nodup_cons] at h
    rw [List.foldl_cons]
    by_cases hr : key r ∈ rows.map key
    · rw [insertNew_old hr, ih h.2, List.filter_cons_of_neg (by simpa using hr)]
    · rw [insertNew_new hr, ih h.2, List.filter_cons_of_pos (by simpa using hr), List.append_assoc,
        List.singleton_append]
      congr 2
      apply List.filter_congr
      intro x hx
      have hne : key x ≠ key r := fun he => h.1 (he ▸ List.mem_map_of_mem hx)
      simp [hne]

theorem filter_key {rows : List α} (h : (rows.map key).Nodup) (k : κ) :
    (rows.filter fun r => key r = k) = [] ∨
      ∃ r ∈ rows, key r = k ∧ (rows.filter fun r => key r = k) = [r] := by
  induction rows with
  | nil => exact .inl rfl
  | cons r rows ih =>
    rw [List.map_cons, List.nodup_cons] at h
    by_cases hr : key r = k
    · refine .inr ⟨r, List.mem_cons_self, hr, ?_⟩
      rw [List.filter_cons_of_pos (by simpa using hr)]
      congr 1
      apply List.filter_eq_nil_iff.mpr
      intro x hx hk
      rw [decide_eq_true_eq] at hk
      exact h.1 ((hr.trans hk.symm) ▸ List.mem_map_of_mem hx)
    · rw [List.filter_cons_of_neg (by simpa using hr)]
      rcases ih h.2 with hn | ⟨x, hx, hk, he⟩
      · exact .inl hn
      · exact .inr ⟨x, List.mem_cons_of_mem _ hx, hk, he⟩

theorem insertNew_known {rows : List α} {x : α} (h : x ∈ rows) : insertNew key rows x = rows :=
  insertNew_old (List.mem_map_of_mem h)

theorem upsert_known {rows : List α} {x : α} (hn : (rows.map key).Nodup) (h : x ∈ rows) :
    upsert key rows x = rows := by
  rw [upsert, if_pos (List.mem_map_of_mem h)]
  refine (List.map_congr_left ?_).trans (List.map_id rows)
  intro y hy
  split
  · rename_i hk
    exact (List.inj_on_of_nodup_map hn hy h hk).symm
  · rfl

omit [DecidableEq κ] in
theorem foldl_known {f : List α → α → List α} {rows new : List α} (h : ∀ x ∈ new, f rows x = rows) :
    new.foldl f rows = rows := by
  induction new with
  | nil => rfl
  | cons x new ih =>
    rw [List.foldl_cons, h x List.mem_cons_self]
    exact ih fun y hy => h y (List.mem_cons_of_mem x hy)

theorem foldl_insertNew_assoc {base rows new : List α} :
    (new.foldl (insertNew key) rows).foldl (insertNew key) base =
      new.foldl (insertNew key) (rows.foldl (insertNew key) base) := by
  induction new generalizing rows with
  | nil => rfl
  | cons r new ih =>
    rw [List.foldl_cons, List.foldl_cons, ih]
    congr 1
    by_cases hr : key r ∈ rows.map key
    · have hin : ∀ {sub out : List α}, key r ∈ out.map key ∨ key r ∈ sub.map key →
          key r ∈ (sub.foldl (insertNew key) out).map key := by
        intro sub
        induction sub with
        | nil => rintro out (h | h); exacts [h, absurd h List.not_mem_nil]
        | cons x sub ih =>
          intro out h
          rw [List.foldl_cons]
          apply ih
          rw [List.map_cons, List.mem_cons] at h
          rw [mem_keys_insertNew]
          tauto
      rw [insertNew_old hr, insertNew_old (hin (.inr hr))]
    · rw [insertNew_new hr, List.foldl_append]
      rfl

theorem foldl_upsert_nil (base new : List α) :
    (new.foldl (upsert key) []).foldl (upsert key) base = new.foldl (upsert key) base := by
  have hnil : (([] : List α).map key).Nodup := List.nodup_nil
  exact foldl_upsert_assoc hnil

theorem foldl_insertNew_nil (base new : List α) :
    (new.foldl (insertNew key) []).foldl (insertNew key) base =
      new.foldl (insertNew key) base := by
  rw [foldl_insertNew_assoc]
  rfl

theorem mergeLast_nodup (left right : List α) : ((mergeLast key left right).map key).Nodup :=
  foldl_upsert_nodup List.nodup_nil

theorem mergeFirst_nodup (left right : List α) : ((mergeFirst key left right).map key).Nodup :=
  foldl_insertNew_nodup List.nodup_nil

theorem mergeLast_eq_foldl {left right : List α} :
    mergeLast key left right = right.foldl (upsert key) (mergeLast key left []) := by
  unfold mergeLast
  rw [List.foldl_append, List.append_nil]

theorem mergeFirst_eq_foldl' {left right : List α} :
    mergeFirst key left right = right.foldl (insertNew key) (mergeFirst key left []) := by
  unfold mergeFirst
  rw [List.foldl_append, List.append_nil]

theorem mergeLast_assoc (a b c : List α) :
    mergeLast key (mergeLast key a b) c = mergeLast key a (mergeLast key b c) := by
  have hfresh : mergeLast key (mergeLast key a b) [] = mergeLast key a b := by
    rw [mergeLast_fresh (by rw [List.append_nil]; exact mergeLast_nodup a b), List.append_nil]
  have hab := @mergeLast_eq_foldl _ _ _ key a b
  have hbc : mergeLast key b c = (b ++ c).foldl (upsert key) [] := rfl
  rw [mergeLast_eq_foldl, hfresh, hab, @mergeLast_eq_foldl _ _ _ key a (mergeLast key b c), hbc,
    foldl_upsert_nil, List.foldl_append]

theorem mergeFirst_assoc (a b c : List α) :
    mergeFirst key (mergeFirst key a b) c = mergeFirst key a (mergeFirst key b c) := by
  have hfresh : mergeFirst key (mergeFirst key a b) [] = mergeFirst key a b := by
    rw [mergeFirst_eq_foldl (mergeFirst_nodup a b), List.foldl_nil]
  have hab := @mergeFirst_eq_foldl' _ _ _ key a b
  have hbc : mergeFirst key b c = (b ++ c).foldl (insertNew key) [] := rfl
  rw [mergeFirst_eq_foldl', hfresh, hab, @mergeFirst_eq_foldl' _ _ _ key a (mergeFirst key b c),
    hbc,
    foldl_insertNew_nil, List.foldl_append]

theorem mergeLast_self (a : List α) : mergeLast key a a = mergeLast key a [] := by
  have hnodup : ((mergeLast key a []).map key).Nodup := mergeLast_nodup a []
  have hself : a.foldl (upsert key) [] = mergeLast key a [] := by
    unfold mergeLast
    rw [List.append_nil]
  rw [mergeLast_eq_foldl]
  calc a.foldl (upsert key) (mergeLast key a [])
      = (a.foldl (upsert key) []).foldl (upsert key) (mergeLast key a []) :=
        (foldl_upsert_nil _ a).symm
    _ = (mergeLast key a []).foldl (upsert key) (mergeLast key a []) := by rw [hself]
    _ = mergeLast key a [] := foldl_known fun x hx => upsert_known hnodup hx

theorem mergeFirst_self (a : List α) : mergeFirst key a a = mergeFirst key a [] := by
  have hself : a.foldl (insertNew key) [] = mergeFirst key a [] := by
    unfold mergeFirst
    rw [List.append_nil]
  rw [mergeFirst_eq_foldl']
  calc a.foldl (insertNew key) (mergeFirst key a [])
      = (a.foldl (insertNew key) []).foldl (insertNew key) (mergeFirst key a []) :=
        (foldl_insertNew_nil _ a).symm
    _ = (mergeFirst key a []).foldl (insertNew key) (mergeFirst key a []) := by rw [hself]
    _ = mergeFirst key a [] := foldl_known fun x hx => insertNew_known hx

variable (key) in
/-- A first-wins fold appends some of the new rows, in their order. -/
theorem foldl_insertNew_sublist (rows new : List α) :
    ∃ taken, List.Sublist taken new ∧ new.foldl (insertNew key) rows = rows ++ taken := by
  induction new generalizing rows with
  | nil => exact ⟨[], .refl _, (List.append_nil rows).symm⟩
  | cons r new ih =>
    rw [List.foldl_cons]
    by_cases hr : key r ∈ rows.map key
    · obtain ⟨taken, hsub, heq⟩ := ih rows
      rw [insertNew_old hr]
      exact ⟨taken, hsub.cons r, heq⟩
    · obtain ⟨taken, hsub, heq⟩ := ih (rows ++ [r])
      rw [insertNew_new hr]
      exact ⟨r :: taken, hsub.cons_cons r, by rw [heq, List.append_assoc]; rfl⟩

variable (key) in
/-- The first row of a key; in a merged list it is the only one. -/
def lookup (rows : List α) (k : κ) : Option α := rows.find? fun r => key r = k

theorem lookup_append (a b : List α) (k : κ) :
    lookup key (a ++ b) k = (lookup key a k).or (lookup key b k) := List.find?_append

theorem lookup_eq_none {rows : List α} {k : κ} :
    lookup key rows k = none ↔ k ∉ rows.map key := by
  unfold lookup
  rw [List.find?_eq_none]
  simp

theorem lookup_some {rows : List α} {k : κ} {x : α} (h : lookup key rows k = some x) :
    x ∈ rows ∧ key x = k :=
  ⟨List.mem_of_find?_eq_some h, by simpa using List.find?_some h⟩

theorem lookup_cons (r : α) (rows : List α) (k : κ) :
    lookup key (r :: rows) k = if key r = k then some r else lookup key rows k := by
  unfold lookup
  rw [List.find?_cons]
  split <;> rename_i h
  · rw [if_pos (of_decide_eq_true h)]
  · rw [if_neg (of_decide_eq_false h)]

/-- Replacing the rows of one key changes what is found under that key only. -/
theorem lookup_replace (rows : List α) (r : α) (k : κ) :
    lookup key (rows.map fun x => if key x = key r then r else x) k =
      if key r = k then (lookup key rows k).map fun _ => r else lookup key rows k := by
  induction rows with
  | nil => simp [lookup]
  | cons x rows ih =>
    rw [List.map_cons, lookup_cons, lookup_cons, ih]
    by_cases hx : key x = key r
    · by_cases hk : key r = k <;> simp [hx, hk]
    · by_cases hk : key r = k
      · have hxk : key x ≠ k := hk ▸ hx
        simp [hk, hxk]
      · simp [hx, hk]

theorem lookup_upsert (rows : List α) (r : α) (k : κ) :
    lookup key (upsert key rows r) k = (lookup key [r] k).or (lookup key rows k) := by
  rw [lookup_cons]
  by_cases hr : key r ∈ rows.map key
  · rw [upsert, if_pos hr, lookup_replace]
    by_cases hk : key r = k
    · cases hu : lookup key rows k with
      | none => exact absurd (hk ▸ hr) (lookup_eq_none.mp hu)
      | some u => simp [hk]
    · rw [if_neg hk, if_neg hk]
      rfl
  · rw [upsert_new hr, lookup_append, lookup_cons]
    by_cases hk : key r = k
    · rw [lookup_eq_none.mpr (hk ▸ hr), if_pos hk]
      rfl
    · rw [if_neg hk]
      exact Option.or_none

/-- The last new row of a key is stored, the old one if there is none. -/
theorem lookup_foldl_upsert (rows new : List α) (k : κ) :
    lookup key (new.foldl (upsert key) rows) k =
      (lookup key new.reverse k).or (lookup key rows k) := by
  induction new generalizing rows with
  | nil => rfl
  | cons r new ih =>
    rw [List.foldl_cons, ih, lookup_upsert, List.reverse_cons, lookup_append, Option.or_assoc]

theorem lookup_insertNew (rows : List α) (r : α) (k : κ) :
    lookup key (insertNew key rows r) k = (lookup key rows k).or (lookup key [r] k) := by
  by_cases hr : key r ∈ rows.map key
  · rw [insertNew_old hr]
    cases hu : lookup key rows k with
    | some u => rfl
    | none =>
      have hk := lookup_eq_none.mp hu
      have hnone : lookup key [r] k = none :=
        lookup_eq_none.mpr (by rintro he; exact hk (List.mem_singleton.mp he ▸ hr))
      rw [hnone]
      rfl
  · rw [insertNew_new hr, lookup_append]

theorem lookup_foldl_insertNew (rows new : List α) (k : κ) :
    lookup key (new.foldl (insertNew key) rows) k =
      (lookup key rows k).or (lookup key new k) := by
  induction new generalizing rows with
  | nil => exact (Option.or_none).symm
  | cons r new ih =>
    have hcons : lookup key (r :: new) k = (lookup key [r] k).or (lookup key new k) :=
      lookup_append [r] new k
    rw [List.foldl_cons, ih, lookup_insertNew, hcons, Option.or_assoc]

theorem lookup_mergeLast (left right : List α) (k : κ) :
    lookup key (mergeLast key left right) k =
      (lookup key right.reverse k).or (lookup key (mergeLast key left []) k) := by
  rw [mergeLast_eq_foldl, lookup_foldl_upsert]

theorem lookup_mergeFirst (left right : List α) (k : κ) :
    lookup key (mergeFirst key left right) k = (lookup key left k).or (lookup key right k) := by
  rw [mergeFirst, lookup_foldl_insertNew, lookup_append]
  rfl

variable (key) in
def DisjointKeys (a b : List α) : Prop := ∀ x ∈ a, ∀ y ∈ b, key x ≠ key y

omit [DecidableEq κ] in
instance : Std.Symm (DisjointKeys key) :=
  ⟨fun _ _ h y hy x hx he => h x hx y hy he.symm⟩

theorem DisjointKeys.lookup_none {a b : List α} (h : DisjointKeys key a b) (k : κ) :
    lookup key a k = none ∨ lookup key b k = none := by
  cases ha : lookup key a k with
  | none => exact .inl rfl
  | some x =>
    cases hb : lookup key b k with
    | none => exact .inr rfl
    | some y =>
      obtain ⟨hxa, hxk⟩ := lookup_some ha
      obtain ⟨hyb, hyk⟩ := lookup_some hb
      exact absurd (hxk.trans hyk.symm) (h x hxa y hyb)

theorem lookup_foldl_mergeFirst (ws : List (List α)) (acc : List α) (k : κ) :
    lookup key (ws.foldl (mergeFirst key) acc) k =
      ws.foldl (fun found w => found.or (lookup key w k)) (lookup key acc k) := by
  induction ws generalizing acc with
  | nil => rfl
  | cons w ws ih => rw [List.foldl_cons, List.foldl_cons, ih, lookup_mergeFirst]

theorem foldl_mergeFirst_perm {writes writes' : List (List α)} (hp : writes.Perm writes')
    (hd : writes.Pairwise (DisjointKeys key)) (acc : List α) (k : κ) :
    lookup key (writes.foldl (mergeFirst key) acc) k =
      lookup key (writes'.foldl (mergeFirst key) acc) k := by
  rw [lookup_foldl_mergeFirst, lookup_foldl_mergeFirst]
  refine hp.foldl_eq' ?_ _
  intro a ha b hb found
  by_cases hab : a = b
  · rw [hab]
  · rcases (hd.forall ha hb hab).lookup_none k with hn | hn
    · rw [hn, Option.or_none, Option.or_none]
    · rw [hn, Option.or_none, Option.or_none]

theorem lookup_foldl_mergeLast (ws : List (List α)) {acc : List α} (h : (acc.map key).Nodup)
    (k : κ) : lookup key (ws.foldl (mergeLast key) acc) k =
      ws.foldl (fun found w => (lookup key w.reverse k).or found) (lookup key acc k) := by
  induction ws generalizing acc with
  | nil => rfl
  | cons w ws ih =>
    have hfresh : mergeLast key acc [] = acc := by
      rw [mergeLast_fresh (by rwa [List.append_nil]), List.append_nil]
    rw [List.foldl_cons, List.foldl_cons, ih (mergeLast_nodup acc w), lookup_mergeLast, hfresh]

/-- The first write leaves one row for each key of the accumulated list. -/
theorem foldl_mergeLast_cons (acc w : List α) (ws : List (List α)) :
    (w :: ws).foldl (mergeLast key) acc =
      (w :: ws).foldl (mergeLast key) (mergeLast key acc []) := by
  rw [List.foldl_cons, List.foldl_cons, mergeLast_assoc]
  congr 1
  unfold mergeLast
  rw [List.nil_append, List.foldl_append, List.foldl_append, foldl_upsert_nil]

theorem foldl_lookup_perm {writes writes' : List (List α)} (hp : writes.Perm writes')
    (hd : writes.Pairwise (DisjointKeys key)) (k : κ) (found : Option α) :
    writes.foldl (fun found w => (lookup key w.reverse k).or found) found =
      writes'.foldl (fun found w => (lookup key w.reverse k).or found) found := by
  refine hp.foldl_eq' ?_ _
  intro a ha b hb found
  by_cases hab : a = b
  · rw [hab]
  · have hrev : DisjointKeys key a.reverse b.reverse := fun x hx y hy =>
      hd.forall ha hb hab x (List.mem_reverse.mp hx) y (List.mem_reverse.mp hy)
    rcases hrev.lookup_none k with hn | hn
    · rw [hn, Option.none_or, Option.none_or]
    · rw [hn, Option.none_or, Option.none_or]

theorem foldl_mergeLast_perm {writes writes' : List (List α)} (hp : writes.Perm writes')
    (hd : writes.Pairwise (DisjointKeys key)) (acc : List α) (k : κ) :
    lookup key (writes.foldl (mergeLast key) acc) k =
      lookup key (writes'.foldl (mergeLast key) acc) k := by
  cases writes with
  | nil => rw [List.nil_perm.mp hp]
  | cons w ws =>
    cases writes' with
    | nil => exact absurd hp.eq_nil (List.cons_ne_nil w ws)
    | cons w' ws' =>
      rw [foldl_mergeLast_cons, foldl_mergeLast_cons acc w',
        lookup_foldl_mergeLast _ (mergeLast_nodup acc []),
        lookup_foldl_mergeLast _ (mergeLast_nodup acc [])]
      exact foldl_lookup_perm hp hd k _

end RowMerge
