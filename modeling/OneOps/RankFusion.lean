import Mathlib.Data.Finset.Card
import OneOps.StableRanking

/-! Reciprocal rank fusion of ranked lists: every key gets a slot at its first row and the sum of
the weights of its ranks, and the slots are sorted by it. What stands where is said by the ranks
alone. -/
namespace RankFusion

open StableRanking

variable {α κ F : Type*} [DecidableEq κ] [Add F] [LinearOrder F] (key : α → κ) (recip : ℕ → F)

structure Slot (α F : Type*) where
  row : α
  score : F

def addRow (slots : List (Slot α F)) (e : α × ℕ) : List (Slot α F) :=
  if key e.1 ∈ slots.map (fun s => key s.row) then
    slots.map fun s => if key s.row = key e.1 then { s with score := s.score + recip e.2 } else s
  else slots ++ [⟨e.1, recip e.2⟩]

def fuse (ranked : List (α × ℕ)) : List (Slot α F) := ranked.foldl (addRow key recip) []

def ranksOf (ranked : List (α × ℕ)) (k : κ) : List ℕ :=
  (ranked.filter fun e => key e.1 = k).map Prod.snd

/-- The weights of a key's ranks, added in the order in which they are met. A key without a
rank is never asked for. -/
def weight (ranked : List (α × ℕ)) (k : κ) : F :=
  match ranksOf key ranked k with
  | [] => recip 0
  | r :: rs => rs.foldl (fun w r => w + recip r) (recip r)

def place (ranked : List (α × ℕ)) (k : κ) : ℕ := ranked.findIdx fun e => key e.1 = k

/-- A key stands before another: by its weight or, for equal weights, by its first place. -/
def Ahead (ranked : List (α × ℕ)) (j k : κ) : Prop :=
  weight key recip ranked k < weight key recip ranked j ∨
    weight key recip ranked j = weight key recip ranked k ∧
      place key ranked j < place key ranked k

instance (ranked : List (α × ℕ)) : DecidableRel (Ahead key recip ranked) :=
  fun _ _ => inferInstanceAs (Decidable (_ ∨ _))

def standing (ranked : List (α × ℕ)) (k : κ) : ℕ :=
  ((ranked.map fun e => key e.1).toFinset.filter fun j => Ahead key recip ranked j k).card

variable {key recip} {ranked : List (α × ℕ)} {j k : κ}

theorem ahead_irrefl (k : κ) : ¬ Ahead key recip ranked k k := by
  rintro (h | ⟨_, h⟩)
  · exact lt_irrefl _ h
  · exact lt_irrefl _ h

theorem Ahead.asymm (h : Ahead key recip ranked j k) : ¬ Ahead key recip ranked k j := by
  rintro (h' | ⟨he', h'⟩)
  · rcases h with h | ⟨he, _⟩
    · exact lt_asymm h h'
    · exact h'.ne he
  · rcases h with h | ⟨_, h⟩
    · exact h.ne he'
    · exact lt_asymm h h'

theorem Ahead.trans {i : κ} (h : Ahead key recip ranked i j) (h' : Ahead key recip ranked j k) :
    Ahead key recip ranked i k := by
  rcases h with h | ⟨he, h⟩
  · rcases h' with h' | ⟨he', _⟩
    · exact Or.inl (h'.trans h)
    · exact Or.inl (he' ▸ h)
  · rcases h' with h' | ⟨he', h'⟩
    · exact Or.inl (he ▸ h')
    · exact Or.inr ⟨he.trans he', h.trans h'⟩

theorem standing_le (h : Ahead key recip ranked j k) :
    standing key recip ranked j ≤ standing key recip ranked k := by
  apply Finset.card_le_card
  intro i hi
  rw [Finset.mem_filter] at hi ⊢
  exact ⟨hi.1, hi.2.trans h⟩

variable {e : α × ℕ}

omit [Add F] [LinearOrder F] in
theorem ranksOf_concat :
    ranksOf key (ranked ++ [e]) k = ranksOf key ranked k ++ if key e.1 = k then [e.2] else [] := by
  unfold ranksOf
  rw [List.filter_append, List.map_append]
  by_cases h : key e.1 = k <;> simp [h]

omit [LinearOrder F] in
theorem weight_concat_ne (h : key e.1 ≠ k) :
    weight key recip (ranked ++ [e]) k = weight key recip ranked k := by
  unfold weight
  rw [ranksOf_concat, if_neg h, List.append_nil]

omit [LinearOrder F] in
theorem weight_concat_new (h : key e.1 ∉ ranked.map fun e => key e.1) :
    weight key recip (ranked ++ [e]) (key e.1) = recip e.2 := by
  have hnone : ranksOf key ranked (key e.1) = [] := by
    unfold ranksOf
    rw [List.map_eq_nil_iff, List.filter_eq_nil_iff]
    intro d hd he
    exact h (of_decide_eq_true he ▸ List.mem_map_of_mem hd)
  unfold weight
  rw [ranksOf_concat, hnone, if_pos rfl]
  rfl

omit [LinearOrder F] in
theorem weight_concat_old (h : key e.1 ∈ ranked.map fun e => key e.1) :
    weight key recip (ranked ++ [e]) (key e.1) =
      weight key recip ranked (key e.1) + recip e.2 := by
  unfold weight
  rw [ranksOf_concat, if_pos rfl]
  cases hr : ranksOf key ranked (key e.1) with
  | nil =>
    obtain ⟨d, hd, hk⟩ := List.mem_map.mp h
    unfold ranksOf at hr
    rw [List.map_eq_nil_iff, List.filter_eq_nil_iff] at hr
    exact absurd (decide_eq_true hk) (hr d hd)
  | cons r rs =>
    show (rs ++ [e.2]).foldl _ _ = _
    rw [List.foldl_append]
    rfl

omit [Add F] [LinearOrder F] in
theorem place_concat (h : k ∈ ranked.map fun e => key e.1) :
    place key (ranked ++ [e]) k = place key ranked k := by
  unfold place
  obtain ⟨d, hd, hk⟩ := List.mem_map.mp h
  have hlt : ranked.findIdx (fun e => decide (key e.1 = k)) < ranked.length :=
    List.findIdx_lt_length_of_exists ⟨d, hd, decide_eq_true hk⟩
  rw [List.findIdx_append, if_pos hlt]

omit [Add F] [LinearOrder F] in
theorem place_lt (h : k ∈ ranked.map fun e => key e.1) : place key ranked k < ranked.length := by
  obtain ⟨d, hd, hk⟩ := List.mem_map.mp h
  exact List.findIdx_lt_length_of_exists ⟨d, hd, decide_eq_true hk⟩

omit [Add F] [LinearOrder F] in
theorem place_new (h : k ∉ ranked.map fun e => key e.1) : place key ranked k = ranked.length := by
  unfold place
  rw [List.findIdx_eq_length]
  intro d hd
  rw [decide_eq_false_iff_not]
  rintro rfl
  exact h (List.mem_map_of_mem hd)

structure FusedFrom (key : α → κ) (recip : ℕ → F) (ranked : List (α × ℕ))
    (slots : List (Slot α F)) : Prop where
  keys : ∀ k, k ∈ slots.map (fun s => key s.row) ↔ k ∈ ranked.map fun e => key e.1
  rows : ∀ s ∈ slots, s.row ∈ ranked.map Prod.fst
  scores : ∀ s ∈ slots, s.score = weight key recip ranked (key s.row)
  order : slots.Pairwise fun s t => place key ranked (key s.row) < place key ranked (key t.row)

omit [LinearOrder F] in
/-- A further place of an item that is there adds to its score. -/
theorem FusedFrom.addOld {slots : List (Slot α F)} (h : FusedFrom key recip ranked slots)
    {e : α × ℕ} (hin : key e.1 ∈ slots.map fun s => key s.row) :
    FusedFrom key recip (ranked ++ [e]) (slots.map fun s =>
      if key s.row = key e.1 then { s with score := s.score + recip e.2 } else s) := by
  have hmem : ∀ {s}, s ∈ slots → key s.row ∈ ranked.map fun e => key e.1 :=
    fun hs => (h.keys _).mp (List.mem_map_of_mem hs)
  have hold := (h.keys _).mp hin
  have hkey : ∀ s : Slot α F, key (if key s.row = key e.1 then
      { s with score := s.score + recip e.2 } else s).row = key s.row := by
    intro s
    split_ifs <;> rfl
  refine ⟨?_, ?_, ?_, ?_⟩
  · intro k
    rw [List.map_map, List.map_append, List.mem_append, ← h.keys]
    have hfun : ((fun s => key s.row) ∘ fun s : Slot α F => if key s.row = key e.1 then
        { s with score := s.score + recip e.2 } else s) = fun s => key s.row := by
      funext s
      exact hkey s
    rw [hfun]
    refine ⟨Or.inl, ?_⟩
    rintro (hk | hk)
    · exact hk
    · rw [List.mem_singleton.mp hk]
      exact hin
  · intro s hs
    obtain ⟨t, ht, rfl⟩ := List.mem_map.mp hs
    rw [List.map_append]
    apply List.mem_append_left
    have := h.rows t ht
    split_ifs <;> exact this
  · intro s hs
    obtain ⟨t, ht, rfl⟩ := List.mem_map.mp hs
    rw [hkey]
    split_ifs with hk
    · rw [hk, weight_concat_old hold, ← hk, h.scores t ht]
    · rw [weight_concat_ne (Ne.symm hk), h.scores t ht]
  · rw [List.pairwise_map]
    refine h.order.imp_of_mem ?_
    intro s t hs ht hst
    rwa [hkey, hkey, place_concat (hmem hs), place_concat (hmem ht)]

omit [LinearOrder F] in
/-- An item that is met for the first time comes last. -/
theorem FusedFrom.addNew {slots : List (Slot α F)} (h : FusedFrom key recip ranked slots)
    {e : α × ℕ} (hin : key e.1 ∉ slots.map fun s => key s.row) :
    FusedFrom key recip (ranked ++ [e]) (slots ++ [⟨e.1, recip e.2⟩]) := by
  have hmem : ∀ {s}, s ∈ slots → key s.row ∈ ranked.map fun e => key e.1 :=
    fun hs => (h.keys _).mp (List.mem_map_of_mem hs)
  have hnew : key e.1 ∉ ranked.map fun e => key e.1 := fun hk => hin ((h.keys _).mpr hk)
  have hne : ∀ {s}, s ∈ slots → key e.1 ≠ key s.row := by
    intro s hs he
    exact hin (he ▸ List.mem_map_of_mem hs)
  refine ⟨?_, ?_, ?_, ?_⟩
  · intro k
    rw [List.map_append, List.map_append, List.mem_append, List.mem_append, h.keys]
    rfl
  · intro s hs
    rw [List.map_append, List.mem_append]
    rcases List.mem_append.mp hs with hs | hs
    · exact Or.inl (h.rows s hs)
    · rw [List.mem_singleton.mp hs]
      exact Or.inr List.mem_cons_self
  · intro s hs
    rcases List.mem_append.mp hs with hs | hs
    · rw [weight_concat_ne (hne hs), h.scores s hs]
    · rw [List.mem_singleton.mp hs]
      exact (weight_concat_new hnew).symm
  · rw [List.pairwise_append]
    refine ⟨?_, List.pairwise_singleton _ _, ?_⟩
    · refine h.order.imp_of_mem ?_
      intro s t hs ht hst
      rwa [place_concat (hmem hs), place_concat (hmem ht)]
    · intro s hs t ht
      rw [List.mem_singleton.mp ht, place_concat (hmem hs)]
      have hlen : ranked.length ≤ place key (ranked ++ [e]) (key e.1) := by
        unfold place
        have hnone : ranked.findIdx (fun d => decide (key d.1 = key e.1)) = ranked.length :=
          place_new hnew
        rw [List.findIdx_append, hnone, if_neg (lt_irrefl _)]
        exact Nat.le_add_left _ _
      exact lt_of_lt_of_le (place_lt (hmem hs)) hlen

omit [LinearOrder F] in
theorem FusedFrom.addRow {slots : List (Slot α F)} (h : FusedFrom key recip ranked slots)
    (e : α × ℕ) : FusedFrom key recip (ranked ++ [e]) (addRow key recip slots e) := by
  unfold RankFusion.addRow
  split_ifs with hin
  · exact h.addOld hin
  · exact h.addNew hin

variable (key recip) in
omit [LinearOrder F] in
theorem fuse_spec (ranked : List (α × ℕ)) : FusedFrom key recip ranked (fuse key recip ranked) := by
  induction ranked using List.reverseRecOn with
  | nil =>
    refine ⟨fun k => Iff.rfl, fun s hs => ?_, fun s hs => ?_, List.Pairwise.nil⟩
    · cases hs
    · cases hs
  | append_singleton ranked e ih =>
    have hfold : fuse key recip (ranked ++ [e]) = addRow key recip (fuse key recip ranked) e := by
      unfold fuse
      rw [List.foldl_append]
      rfl
    rw [hfold]
    exact ih.addRow e

def ordered (key : α → κ) (recip : ℕ → F) (ranked : List (α × ℕ)) : List (Slot α F) :=
  byDescending Slot.score (fuse key recip ranked)

theorem mem_ordered {s : Slot α F} : s ∈ ordered key recip ranked ↔ s ∈ fuse key recip ranked :=
  mem_byDescending

variable (key recip) in
theorem ordered_ahead (ranked : List (α × ℕ)) :
    (ordered key recip ranked).Pairwise
      fun s t => Ahead key recip ranked (key s.row) (key t.row) := by
  have hspec := fuse_spec key recip ranked
  refine (byDescending_stable (f := Slot.score) hspec.order).imp_of_mem ?_
  intro s t hs ht hst
  rw [hspec.scores s (mem_byDescending.mp hs), hspec.scores t (mem_byDescending.mp ht)] at hst
  exact hst

variable (key recip) in
theorem ordered_keys_nodup (ranked : List (α × ℕ)) :
    ((ordered key recip ranked).map fun s => key s.row).Nodup := by
  rw [List.Nodup, List.pairwise_map]
  refine (ordered_ahead key recip ranked).imp ?_
  intro s t hst he
  rw [he] at hst
  exact ahead_irrefl _ hst

theorem exists_slot (hk : k ∈ ranked.map fun e => key e.1) :
    ∃ s ∈ ordered key recip ranked, key s.row = k := by
  obtain ⟨s, hs, hsk⟩ := List.mem_map.mp (((fuse_spec key recip ranked).keys k).mpr hk)
  exact ⟨s, mem_ordered.mpr hs, hsk⟩

/-- The first `n` slots are those with fewer than `n` keys before them. -/
theorem mem_take_ordered {n : ℕ} {s : Slot α F} :
    s ∈ (ordered key recip ranked).take n ↔
      s ∈ ordered key recip ranked ∧ standing key recip ranked (key s.row) < n := by
  have hcount : standing key recip ranked (key s.row) =
      ((ordered key recip ranked).filter
        fun t => Ahead key recip ranked (key t.row) (key s.row)).length := by
    have hnodup := ordered_keys_nodup key recip ranked
    have hset : (ranked.map fun e => key e.1).toFinset =
        ((ordered key recip ranked).map fun s => key s.row).toFinset := by
      ext k
      rw [List.mem_toFinset, List.mem_toFinset, ← (fuse_spec key recip ranked).keys k]
      exact ((byDescending_perm Slot.score (fuse key recip ranked)).map _).mem_iff.symm
    have hfilter : (ranked.map fun e => key e.1).toFinset.filter
          (fun j => Ahead key recip ranked j (key s.row)) =
        (((ordered key recip ranked).map fun t => key t.row).filter
          fun j => Ahead key recip ranked j (key s.row)).toFinset := by
      rw [hset]
      ext k
      simp
    unfold standing
    rw [hfilter, List.toFinset_card_of_nodup (hnodup.filter _), List.filter_map, List.length_map]
    rfl
  rw [hcount]
  exact @mem_take_iff (Slot α F) _ (fun t u => Ahead key recip ranked (key t.row) (key u.row))
    (fun _ _ => inferInstance) (fun t => ahead_irrefl _) (fun t u h => h.asymm)
    (ordered_ahead key recip ranked) n s

end RankFusion
