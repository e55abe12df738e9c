import OneOps.PythonText
import OneOps.RouterFunnel

/-! The clean-up of a decomposition. Of the sub-queries that have one text, up to case and
white space, the first one is kept; a last one that depends on three or more others, and on
all of them, is dropped; and the rest are numbered afresh. An edge between two kept
sub-queries stays, and one that names a dropped sub-query goes with it. -/
namespace SubQueryCleanup

open RouterFunnel (SubQuery)

def checked (s : SubQuery) : Except String SubQuery :=
  if s.id = "" then .error "SubQuery.id is mandatory"
  else if s.id ∈ s.dependsOn then .error ("sub-query " ++ s.id ++ " cannot depend on itself")
  else .ok s

section Cleanup

variable (lower : String → String)

def textKey (text : String) : String := String.intercalate " " (PythonText.split (lower text))

/-- The first of each text; `seen` holds the keys so far. -/
def dedupe {α : Type*} (text : α → String) : (seen : List String) → List α → List α
  | _, [] => []
  | seen, s :: rest =>
    if textKey lower (text s) ∈ seen then dedupe text seen rest
    else s :: dedupe text (textKey lower (text s) :: seen) rest

def IsRollup (others : List SubQuery) (tail : SubQuery) : Prop :=
  3 ≤ others.length ∧ ∀ s ∈ others, s.id ∈ tail.dependsOn

instance (others : List SubQuery) (tail : SubQuery) : Decidable (IsRollup others tail) :=
  inferInstanceAs (Decidable (_ ∧ _))

def dropRollup (deduped : List SubQuery) : List SubQuery :=
  match deduped.getLast? with
  | none => deduped
  | some tail => if IsRollup deduped.dropLast tail then deduped.dropLast else deduped

def newId (i : ℕ) : String := "sq" ++ toString (i + 1)

def idRemap (kept : List SubQuery) (id : String) : Option String :=
  (kept.zipIdx.reverse.find? fun e => e.1.id = id).map fun e => newId e.2

def remapBinding (kept : List SubQuery) (b : String × String × String) :
    Option (String × String × String) :=
  (idRemap kept b.1).map fun id => (id, b.2.1, b.2.2)

/-- Edges whose source is not among the kept sub-queries are dropped. -/
def remapped (kept : List SubQuery) (s : SubQuery) : SubQuery where
  id := (idRemap kept s.id).getD ""
  text := s.text
  dependsOn := s.dependsOn.filterMap (idRemap kept)
  bindings := s.bindings.filterMap (remapBinding kept)

def relabel (kept : List SubQuery) : Except String (List SubQuery) :=
  kept.mapM fun s => checked (remapped kept s)

def sanitizeSubqueries (subs : List SubQuery) : Except String (List SubQuery) :=
  if subs.length ≤ 1 then .ok subs
  else relabel (dropRollup (dedupe lower SubQuery.text [] subs))

section Dedupe

variable {lower} {α : Type*} {text : α → String}

theorem dedupe_sublist (seen : List String) (subs : List α) :
    (dedupe lower text seen subs).Sublist subs := by
  induction subs generalizing seen with
  | nil => exact List.Sublist.refl _
  | cons s rest ih =>
    rw [dedupe]
    split_ifs
    · exact (ih seen).cons s
    · exact (ih _).cons_cons s

theorem dedupe_keys (seen : List String) (subs : List α) :
    ((dedupe lower text seen subs).map fun s => textKey lower (text s)).Nodup ∧
      ∀ s ∈ dedupe lower text seen subs, textKey lower (text s) ∉ seen := by
  induction subs generalizing seen with
  | nil => exact ⟨List.nodup_nil, by simp [dedupe]⟩
  | cons s rest ih =>
    rw [dedupe]
    split_ifs with h
    · exact ih seen
    · obtain ⟨hnodup, hnew⟩ := ih (textKey lower (text s) :: seen)
      refine ⟨List.nodup_cons.mpr ⟨?_, hnodup⟩, ?_⟩
      · intro hmem
        obtain ⟨k, hk, hkey⟩ := List.mem_map.mp hmem
        exact hnew k hk (by simp [hkey])
      · intro k hk
        rcases List.mem_cons.mp hk with rfl | hk
        · exact h
        · exact fun hs => hnew k hk (List.mem_cons_of_mem _ hs)

theorem dedupe_cover (seen : List String) {subs : List α} {s : α} (h : s ∈ subs) :
    textKey lower (text s) ∈ seen ∨
      ∃ k ∈ dedupe lower text seen subs, textKey lower (text k) = textKey lower (text s) := by
  induction subs generalizing seen with
  | nil => cases h
  | cons a rest ih =>
    rw [dedupe]
    split_ifs with ha
    · rcases List.mem_cons.mp h with rfl | h
      · exact .inl ha
      · exact ih seen h
    · rcases List.mem_cons.mp h with rfl | h
      · exact .inr ⟨s, by simp, rfl⟩
      · rcases ih (textKey lower (text a) :: seen) h with hs | ⟨k, hk, hkey⟩
        · rcases List.mem_cons.mp hs with hs | hs
          · exact .inr ⟨a, by simp, hs.symm⟩
          · exact .inl hs
        · exact .inr ⟨k, List.mem_cons_of_mem _ hk, hkey⟩

end Dedupe

theorem dropRollup_cases (deduped : List SubQuery) :
    dropRollup deduped = deduped ∨
      ∃ tail, deduped = dropRollup deduped ++ [tail] ∧ IsRollup (dropRollup deduped) tail := by
  unfold dropRollup
  split
  · exact .inl rfl
  · rename_i tail hlast
    split_ifs with h
    · exact .inr ⟨tail, (List.dropLast_append_getLast? tail hlast).symm, h⟩
    · exact .inl rfl

theorem dropRollup_sublist (deduped : List SubQuery) : (dropRollup deduped).Sublist deduped := by
  rcases dropRollup_cases deduped with h | ⟨tail, h, _⟩
  · rw [h]
  · conv_rhs => rw [h]
    exact List.sublist_append_left _ _

theorem newId_toList (i : ℕ) : (newId i).toList = ['s', 'q'] ++ Nat.toDigits 10 (i + 1) := by
  simp [newId, Nat.toString_eq_repr, Nat.repr]

theorem newId_inj {i j : ℕ} (h : newId i = newId j) : i = j := by
  have ht := congrArg String.toList h
  rw [newId_toList, newId_toList] at ht
  have hij := PythonText.toDigits_inj (List.append_cancel_left ht)
  omega

theorem newId_ne_empty (i : ℕ) : newId i ≠ "" := by
  intro h
  have ht := congrArg String.toList h
  rw [newId_toList] at ht
  cases ht

section Remap

variable {kept : List SubQuery}

theorem idRemap_eq_some {id n : String} (h : idRemap kept id = some n) :
    ∃ i, ∃ hi : i < kept.length, kept[i].id = id ∧ n = newId i := by
  obtain ⟨e, he, rfl⟩ := Option.map_eq_some_iff.mp h
  have hmem := List.mem_reverse.mp (List.mem_of_find?_eq_some he)
  have hid : e.1.id = id := by simpa using List.find?_some he
  obtain ⟨hi, hget⟩ := List.mem_zipIdx' hmem
  exact ⟨e.2, hi, by rw [← hget, hid], rfl⟩

theorem idRemap_ne_none {id : String} : idRemap kept id ≠ none ↔ id ∈ kept.map SubQuery.id := by
  constructor
  · intro h
    obtain ⟨n, hn⟩ := Option.ne_none_iff_exists'.mp h
    obtain ⟨i, hi, rfl, _⟩ := idRemap_eq_some hn
    exact List.mem_map_of_mem (List.getElem_mem hi)
  · intro h hnone
    obtain ⟨s, hs, rfl⟩ := List.mem_map.mp h
    obtain ⟨i, hi, rfl⟩ := List.getElem_of_mem hs
    have hfind := List.find?_eq_none.mp (Option.map_eq_none_iff.mp hnone) (kept[i], i)
      (List.mem_reverse.mpr (List.mk_mem_zipIdx_iff_getElem?.mpr (List.getElem?_eq_getElem hi)))
    simp at hfind

/-- Distinct ids get distinct new ones. -/
theorem idRemap_inj {a b n : String} (ha : idRemap kept a = some n) (hb : idRemap kept b = some n) :
    a = b := by
  obtain ⟨i, hi, hia, hin⟩ := idRemap_eq_some ha
  obtain ⟨j, hj, hjb, hjn⟩ := idRemap_eq_some hb
  obtain rfl := newId_inj (hin.symm.trans hjn)
  rw [← hia, ← hjb]

/-- Under distinct ids each sub-query gets the number of its place. -/
theorem idRemap_get (hids : (kept.map SubQuery.id).Nodup) {i : ℕ} (hi : i < kept.length) :
    idRemap kept kept[i].id = some (newId i) := by
  obtain ⟨n, hn⟩ := Option.ne_none_iff_exists'.mp
    (idRemap_ne_none.mpr (List.mem_map_of_mem (List.getElem_mem hi)))
  obtain ⟨j, hj, hid, rfl⟩ := idRemap_eq_some hn
  have hsame := List.inj_on_of_nodup_map hids (List.getElem_mem hj) (List.getElem_mem hi) hid
  rw [hn, (List.Nodup.getElem_inj_iff (hids.of_map _)).mp hsame]

theorem idRemap_self {s : SubQuery} (hs : s ∈ kept) :
    idRemap kept s.id = some (remapped kept s).id := by
  obtain ⟨n, hn⟩ := Option.ne_none_iff_exists'.mp
    (idRemap_ne_none.mpr (List.mem_map_of_mem hs))
  rw [remapped, hn, Option.getD_some]

theorem remapped_self {s : SubQuery} (hs : s ∈ kept) (hself : s.id ∉ s.dependsOn) :
    (remapped kept s).id ∉ (remapped kept s).dependsOn := by
  intro hmem
  obtain ⟨d, hd, hdn⟩ := List.mem_filterMap.mp hmem
  exact hself (idRemap_inj (idRemap_self hs) hdn ▸ hd)

theorem remapped_id_ne_empty {s : SubQuery} (hs : s ∈ kept) : (remapped kept s).id ≠ "" := by
  obtain ⟨i, _, _, hid⟩ := idRemap_eq_some (idRemap_self hs)
  rw [hid]
  exact newId_ne_empty i

theorem checked_eq_ok {s : SubQuery} (hid : s.id ≠ "") (hself : s.id ∉ s.dependsOn) :
    checked s = .ok s := by
  rw [checked, if_neg hid, if_neg hself]

/-- The checks of the constructor always pass on the new sub-queries. -/
theorem relabel_eq_ok (hself : ∀ s ∈ kept, s.id ∉ s.dependsOn) :
    relabel kept = .ok (kept.map (remapped kept)) := by
  have main : ∀ l : List SubQuery, (∀ s ∈ l, s ∈ kept) →
      (l.mapM fun s => checked (remapped kept s)) = .ok (l.map (remapped kept)) := by
    intro l
    induction l with
    | nil => exact fun _ => rfl
    | cons s l ih =>
      intro hl
      have hs := hl s (by simp)
      rw [List.mapM_cons, checked_eq_ok (remapped_id_ne_empty hs) (remapped_self hs (hself s hs)),
        ih fun x hx => hl x (by simp [hx])]
      rfl
  exact main kept fun _ hs => hs

end Remap

end Cleanup

def renamed (rename : String → String) (kept : List SubQuery) (s : SubQuery) : SubQuery where
  id := rename s.id
  text := s.text
  dependsOn := (s.dependsOn.filter fun d => d ∈ kept.map SubQuery.id).map rename
  bindings := (s.bindings.filter fun b => b.1 ∈ kept.map SubQuery.id).map
    fun b => (rename b.1, b.2.1, b.2.2)

/-- `out` is made of the sub-queries `kept` of `subs`. -/
structure CleanedUp (lower : String → String) (subs kept : List SubQuery)
    (rename : String → String) (out : List SubQuery) : Prop where
  author_order : kept.Sublist subs
  numbered : ∀ i, ∀ hi : i < kept.length, rename kept[i].id = newId i
  edges : out = kept.map (renamed rename kept)
  ids : out.map SubQuery.id = (List.range out.length).map newId
  distinct : (out.map fun s => textKey lower s.text).Nodup
  missing : ∀ s ∈ subs, s ∉ kept →
    (∃ k ∈ kept, textKey lower k.text = textKey lower s.text) ∨
      ∃ tail, (kept ++ [tail]).Sublist subs ∧ IsRollup kept tail ∧
        textKey lower tail.text = textKey lower s.text
  present : ∀ s ∈ out, (∀ d ∈ s.dependsOn, d ∈ out.map SubQuery.id) ∧
    ∀ b ∈ s.bindings, b.1 ∈ out.map SubQuery.id
  not_self : ∀ s ∈ out, s.id ∉ s.dependsOn
  own_binding : ∀ s ∈ kept, (∃ b ∈ (renamed rename kept s).bindings, b.1 = rename s.id) →
    ∃ b ∈ s.bindings, b.1 = s.id

section Cleaned

variable {lower : String → String} {subs kept : List SubQuery}

def renameOf (kept : List SubQuery) (id : String) : String := (idRemap kept id).getD ""

theorem idRemap_eq_ite (id : String) : idRemap kept id =
    if id ∈ kept.map SubQuery.id then some (renameOf kept id) else none := by
  split_ifs with h
  · obtain ⟨n, hn⟩ := Option.ne_none_iff_exists'.mp (idRemap_ne_none.mpr h)
    rw [renameOf, hn, Option.getD_some]
  · exact not_not.mp (mt idRemap_ne_none.mp h)

theorem remapped_eq (s : SubQuery) : remapped kept s = renamed (renameOf kept) kept s := by
  have hdeps : ∀ ds : List String, ds.filterMap (idRemap kept) =
      (ds.filter fun d => d ∈ kept.map SubQuery.id).map (renameOf kept) := by
    intro ds
    rw [← List.filterMap_eq_map, List.filterMap_filter]
    refine List.filterMap_congr fun d _ => ?_
    simp only [idRemap_eq_ite, decide_eq_true_eq, Function.comp_apply]
  have hbindings : ∀ bs : List (String × String × String), bs.filterMap (remapBinding kept) =
      (bs.filter fun b => b.1 ∈ kept.map SubQuery.id).map
        fun b => (renameOf kept b.1, b.2.1, b.2.2) := by
    intro bs
    rw [← List.filterMap_eq_map, List.filterMap_filter]
    refine List.filterMap_congr fun b _ => ?_
    rw [remapBinding, idRemap_eq_ite]
    by_cases hb : b.1 ∈ kept.map SubQuery.id <;> simp [hb]
  rw [remapped, renamed, hdeps, hbindings]
  rfl

theorem renameOf_inj {a b : String} (ha : a ∈ kept.map SubQuery.id)
    (hb : b ∈ kept.map SubQuery.id) (h : renameOf kept a = renameOf kept b) : a = b := by
  have hsome : ∀ c ∈ kept.map SubQuery.id, idRemap kept c = some (renameOf kept c) :=
    fun c hc => by rw [idRemap_eq_ite, if_pos hc]
  exact idRemap_inj (hsome a ha) (h ▸ hsome b hb)

theorem ids_renamed (rename : String → String) :
    (kept.map (renamed rename kept)).map SubQuery.id = (kept.map SubQuery.id).map rename := by
  rw [List.map_map, List.map_map]
  rfl

end Cleaned

/-- Every list of two or more sub-queries with distinct ids is cleaned up without an error:
the survivors stand in author order under the ids `sq1`, `sq2` and so on, their texts are
distinct, nothing else is lost than repeated texts and a rollup, and every edge between
survivors is kept. An edge that names a dropped sub-query is left out. -/
theorem sanitize_cleansUp (lower : String → String) {subs : List SubQuery}
    (hlen : 2 ≤ subs.length) (hids : (subs.map SubQuery.id).Nodup)
    (hvalid : ∀ s ∈ subs, s.id ≠ "" ∧ s.id ∉ s.dependsOn) :
    ∃ kept rename out, sanitizeSubqueries lower subs = .ok out ∧
      CleanedUp lower subs kept rename out := by
  have hdedupe := @dedupe_sublist lower _ SubQuery.text [] subs
  have horder := (dropRollup_sublist (dedupe lower SubQuery.text [] subs)).trans hdedupe
  generalize hkept : dropRollup (dedupe lower SubQuery.text [] subs) = kept at horder
  have hself : ∀ s ∈ kept, s.id ∉ s.dependsOn := fun s hs => (hvalid s (horder.subset hs)).2
  have hkids : (kept.map SubQuery.id).Nodup := hids.sublist (horder.map _)
  have hnum : ∀ i, ∀ hi : i < kept.length, renameOf kept kept[i].id = newId i := by
    intro i hi
    rw [renameOf, idRemap_get hkids hi, Option.getD_some]
  refine ⟨kept, renameOf kept, kept.map (renamed (renameOf kept) kept), ?_, ?_⟩
  · rw [sanitizeSubqueries, if_neg (by omega), hkept, relabel_eq_ok hself]
    exact congrArg Except.ok (List.map_congr_left fun s _ => remapped_eq s)
  · refine ⟨horder, hnum, rfl, ?_, ?_, ?_, ?_, ?_, ?_⟩
    · rw [ids_renamed, List.length_map]
      refine List.ext_getElem (by simp) fun i hi _ => ?_
      simpa using hnum i (by simpa using hi)
    · have hkeys := (@dedupe_keys lower _ SubQuery.text [] subs).1
      rw [List.map_map]
      exact hkeys.sublist ((hkept ▸ dropRollup_sublist _).map _)
    · intro s hs _
      obtain ⟨k, hk, hkey⟩ :=
        (@dedupe_cover lower _ SubQuery.text [] subs s hs).resolve_left (by simp)
      rcases dropRollup_cases (dedupe lower SubQuery.text [] subs) with hall | ⟨tail, hsplit, hroll⟩
      · rw [← hall, hkept] at hk
        exact .inl ⟨k, hk, hkey⟩
      · rw [hkept] at hsplit hroll
        rw [hsplit] at hk
        rcases List.mem_append.mp hk with hk | hk
        · exact .inl ⟨k, hk, hkey⟩
        · obtain rfl := List.mem_singleton.mp hk
          exact .inr ⟨k, hsplit ▸ hdedupe, hroll, hkey⟩
    · intro o ho
      obtain ⟨s, hs, rfl⟩ := List.mem_map.mp ho
      rw [ids_renamed]
      constructor
      · intro d hd
        obtain ⟨x, hx, rfl⟩ := List.mem_map.mp hd
        exact List.mem_map_of_mem (by simpa using (List.mem_filter.mp hx).2)
      · intro b hb
        obtain ⟨x, hx, rfl⟩ := List.mem_map.mp hb
        exact List.mem_map_of_mem (by simpa using (List.mem_filter.mp hx).2)
    · intro o ho
      obtain ⟨s, hs, rfl⟩ := List.mem_map.mp ho
      rw [← remapped_eq]
      exact remapped_self hs (hself s hs)
    · rintro s hs ⟨b, hb, hown⟩
      obtain ⟨x, hx, rfl⟩ := List.mem_map.mp hb
      obtain ⟨hx, hknown⟩ := List.mem_filter.mp hx
      exact ⟨x, hx, renameOf_inj (by simpa using hknown) (List.mem_map_of_mem hs) hown⟩

def repeatedSource : List SubQuery :=
  [⟨"sq1", "list incidents", [], []⟩, ⟨"sq2", "list  incidents", [], []⟩,
    ⟨"sq3", "summarize them", ["sq2"], [("sq2", "ids", "ids"), ("sq3", "note", "text")]⟩]

theorem repeatedSource_cleansUp :
    ∃ kept rename out, sanitizeSubqueries id repeatedSource = .ok out ∧
      CleanedUp id repeatedSource kept rename out :=
  sanitize_cleansUp id (by decide) (by decide) (by decide)

/-- The dependency and the binding on the dropped copy are lost, and a binding of a sub-query
to itself stays. -/
theorem repeated_source_unbound :
    textKey id "list  incidents" = textKey id "list incidents" ∧
      sanitizeSubqueries id repeatedSource = .ok [⟨"sq1", "list incidents", [], []⟩,
        ⟨"sq2", "summarize them", [], [("sq2", "note", "text")]⟩] := by
  decide

end SubQueryCleanup
