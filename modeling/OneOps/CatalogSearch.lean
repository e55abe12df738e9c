import Mathlib.Algebra.Order.Field.Rat
import OneOps.RankFusion

/-! The fusion and the automatic pick of the catalog search: the rows of a dense and a lexical
branch are fused by rank, cut to the best `top_k`, and the match of highest cosine is picked if
it reaches a threshold. The cut is made before the cosines are compared. -/
namespace CatalogSearch

open RankFusion

variable {S F : Type} [LinearOrder S] [Add F] [LinearOrder F]

structure Row (S : Type) where
  catalogItemId : String
  name : String
  description : String
  category : String
  ownerGroup : String
  cosineScore : S
  deriving DecidableEq

structure CatalogMatch (S : Type) where
  catalogItemId : String
  name : String
  description : String
  category : String
  ownerGroup : String
  cosineScore : S
  aboveFloor : Bool
  isAutoPick : Bool
  deriving DecidableEq

structure CatalogSearchResult (S : Type) where
  matches' : List (CatalogMatch S)
  autoPick : Option (CatalogMatch S)
  aboveFloorCount : ℕ
  queryText : String
  deriving DecidableEq

/-- The settings of one search. `recip rank` is `1.0 / (_RRF_K + rank)`. -/
structure Settings (S F : Type) where
  recip : ℕ → F
  topK : ℕ
  cosineFloor : S
  autoPickThreshold : S

def ranked (denseRows ftsRows : List (Row S)) : List (Row S × ℕ) :=
  denseRows.zipIdx 1 ++ ftsRows.zipIdx 1

def toMatch (E : Settings S F) (r : Row S) : CatalogMatch S where
  catalogItemId := r.catalogItemId
  name := r.name
  description := r.description
  category := r.category
  ownerGroup := r.ownerGroup
  cosineScore := r.cosineScore
  aboveFloor := E.cosineFloor ≤ r.cosineScore
  isAutoPick := E.autoPickThreshold ≤ r.cosineScore

def findClosestCatalogItems (E : Settings S F) (denseRows ftsRows : List (Row S))
    (queryText : String) : CatalogSearchResult S :=
  let slots := (ordered Row.catalogItemId E.recip (ranked denseRows ftsRows)).take E.topK
  let found := slots.map fun slot => toMatch E slot.row
  { matches' := found
    autoPick := (found.argmax CatalogMatch.cosineScore).filter CatalogMatch.isAutoPick
    aboveFloorCount := (found.filter CatalogMatch.aboveFloor).length
    queryText := queryText }

/-- The pick is an item of highest cosine among all rows, if that reaches the threshold, and the
matches are distinct items, the closest first. -/
structure PicksClosest (E : Settings S F) (rows : List (Row S)) (res : CatalogSearchResult S) :
    Prop where
  pick : ∀ m, res.autoPick = some m → (∃ r ∈ rows, toMatch E r = m) ∧
    E.autoPickThreshold ≤ m.cosineScore ∧ ∀ r ∈ rows, r.cosineScore ≤ m.cosineScore
  noPick : res.autoPick = none → ∀ r ∈ rows, r.cosineScore < E.autoPickThreshold
  length : res.matches'.length ≤ E.topK
  distinct : (res.matches'.map CatalogMatch.catalogItemId).Nodup
  descending : res.matches'.Pairwise fun m n => n.cosineScore ≤ m.cosineScore

/-- Ranks and cosines agree: among the items with fewer than `top_k` before them by rank, none is
closer than one before it, and if an item reaches the threshold then the one with none before it
is the closest of all. -/
structure RanksAgree (E : Settings S F) (denseRows ftsRows : List (Row S)) : Prop where
  descending : ∀ r ∈ denseRows ++ ftsRows, ∀ s ∈ denseRows ++ ftsRows,
    Ahead Row.catalogItemId E.recip (ranked denseRows ftsRows) r.catalogItemId s.catalogItemId →
      standing Row.catalogItemId E.recip (ranked denseRows ftsRows) s.catalogItemId < E.topK →
        s.cosineScore ≤ r.cosineScore
  first : (∃ r ∈ denseRows ++ ftsRows, E.autoPickThreshold ≤ r.cosineScore) →
    ∀ r ∈ denseRows ++ ftsRows,
      (∀ s ∈ denseRows ++ ftsRows, ¬ Ahead Row.catalogItemId E.recip (ranked denseRows ftsRows)
        s.catalogItemId r.catalogItemId) →
      ∀ s ∈ denseRows ++ ftsRows, s.cosineScore ≤ r.cosineScore

variable {E : Settings S F} {denseRows ftsRows : List (Row S)}

omit [LinearOrder S] in
theorem mem_ranked {r : Row S} :
    r ∈ (ranked denseRows ftsRows).map Prod.fst ↔ r ∈ denseRows ++ ftsRows := by
  unfold ranked
  rw [List.map_append, List.zipIdx_map_fst, List.zipIdx_map_fst]

omit [LinearOrder S] in
theorem ranked_keys : (ranked denseRows ftsRows).map (fun e => e.1.catalogItemId) =
    (denseRows ++ ftsRows).map Row.catalogItemId := by
  unfold ranked
  have hmap : ∀ l : List (Row S),
      (l.zipIdx 1).map (fun e => e.1.catalogItemId) = l.map Row.catalogItemId := by
    intro l
    rw [← Function.comp_def, ← List.map_map, List.zipIdx_map_fst]
  rw [List.map_append, List.map_append, hmap, hmap]

def slots (E : Settings S F) (denseRows ftsRows : List (Row S)) : List (Slot (Row S) F) :=
  ordered Row.catalogItemId E.recip (ranked denseRows ftsRows)

omit [LinearOrder S] in
theorem slot_row {s : Slot (Row S) F} (h : s ∈ slots E denseRows ftsRows) :
    s.row ∈ denseRows ++ ftsRows :=
  mem_ranked.mp ((fuse_spec _ _ _).rows s (mem_ordered.mp h))

omit [LinearOrder S] in
theorem row_slot {r : Row S} (h : r ∈ denseRows ++ ftsRows) :
    ∃ s ∈ slots E denseRows ftsRows, s.row.catalogItemId = r.catalogItemId := by
  apply exists_slot
  rw [ranked_keys]
  exact List.mem_map_of_mem h

omit [LinearOrder S] in
theorem slots_ahead (E : Settings S F) (denseRows ftsRows : List (Row S)) :
    (slots E denseRows ftsRows).Pairwise fun s t => Ahead Row.catalogItemId E.recip
      (ranked denseRows ftsRows) s.row.catalogItemId t.row.catalogItemId :=
  ordered_ahead _ _ _

omit [LinearOrder S] in
/-- Two slots of a list in rank order stand in it as they rank. -/
theorem pairwise_iff_ahead {P : Row S → Row S → Prop} {l : List (Slot (Row S) F)}
    (hl : l.Pairwise fun s t => Ahead Row.catalogItemId E.recip (ranked denseRows ftsRows)
      s.row.catalogItemId t.row.catalogItemId) :
    (l.Pairwise fun s t => P s.row t.row) ↔
      ∀ s ∈ l, ∀ t ∈ l, Ahead Row.catalogItemId E.recip (ranked denseRows ftsRows)
        s.row.catalogItemId t.row.catalogItemId → P s.row t.row := by
  induction l with
  | nil => simp
  | cons a l ih =>
    rw [List.pairwise_cons] at hl
    rw [List.pairwise_cons, ih hl.2]
    constructor
    · rintro ⟨ha, hrest⟩ s hs t ht hst
      rcases List.mem_cons.mp hs with rfl | hs
      · rcases List.mem_cons.mp ht with rfl | ht
        · exact absurd hst (ahead_irrefl _)
        · exact ha t ht
      · rcases List.mem_cons.mp ht with rfl | ht
        · exact absurd hst (hl.1 s ‹_›).asymm
        · exact hrest s ‹_› t ht hst
    · intro h
      refine ⟨fun t ht => h a List.mem_cons_self t (List.mem_cons_of_mem a ht) (hl.1 t ht), ?_⟩
      exact fun s hs t ht => h s (List.mem_cons_of_mem a hs) t (List.mem_cons_of_mem a ht)

section Search

variable {queryText : String}

def kept (E : Settings S F) (denseRows ftsRows : List (Row S)) : List (Slot (Row S) F) :=
  (slots E denseRows ftsRows).take E.topK

theorem matches_eq : (findClosestCatalogItems E denseRows ftsRows queryText).matches' =
    (kept E denseRows ftsRows).map fun s => toMatch E s.row := rfl

theorem matches_distinct :
    ((findClosestCatalogItems E denseRows ftsRows queryText).matches'.map
      CatalogMatch.catalogItemId).Nodup := by
  have hnodup := ordered_keys_nodup Row.catalogItemId E.recip (ranked denseRows ftsRows)
  rw [matches_eq, List.map_map]
  exact hnodup.sublist ((List.take_sublist _ _).map _)

theorem matches_length :
    (findClosestCatalogItems E denseRows ftsRows queryText).matches'.length ≤ E.topK := by
  rw [matches_eq, List.length_map]
  exact List.length_take_le _ _

def OneScore (rows : List (Row S)) : Prop :=
  ∀ r ∈ rows, ∀ s ∈ rows, r.catalogItemId = s.catalogItemId → r.cosineScore = s.cosineScore

theorem descending_iff (hone : OneScore (denseRows ++ ftsRows)) :
    ((findClosestCatalogItems E denseRows ftsRows queryText).matches'.Pairwise
        fun m n => n.cosineScore ≤ m.cosineScore) ↔
      ∀ r ∈ denseRows ++ ftsRows, ∀ s ∈ denseRows ++ ftsRows,
        Ahead Row.catalogItemId E.recip (ranked denseRows ftsRows) r.catalogItemId
          s.catalogItemId →
        standing Row.catalogItemId E.recip (ranked denseRows ftsRows) s.catalogItemId < E.topK →
          s.cosineScore ≤ r.cosineScore := by
  have hahead : (kept E denseRows ftsRows).Pairwise fun s t => Ahead Row.catalogItemId E.recip
      (ranked denseRows ftsRows) s.row.catalogItemId t.row.catalogItemId :=
    (slots_ahead E denseRows ftsRows).sublist (List.take_sublist E.topK _)
  have hmatch : ((findClosestCatalogItems E denseRows ftsRows queryText).matches'.Pairwise
        fun m n => n.cosineScore ≤ m.cosineScore) ↔
      (kept E denseRows ftsRows).Pairwise fun s t => t.row.cosineScore ≤ s.row.cosineScore := by
    rw [matches_eq, List.pairwise_map]
    rfl
  rw [hmatch, pairwise_iff_ahead (P := fun r s => s.cosineScore ≤ r.cosineScore) hahead]
  constructor
  · intro h r hr s hs hrs hstand
    obtain ⟨u, hu, hur⟩ := row_slot (E := E) hr
    obtain ⟨v, hv, hvs⟩ := row_slot (E := E) hs
    rw [hone r hr u.row (slot_row hu) hur.symm, hone s hs v.row (slot_row hv) hvs.symm]
    rw [← hur, ← hvs] at hrs
    rw [← hvs] at hstand
    exact h u (mem_take_ordered.mpr ⟨hu, lt_of_le_of_lt (standing_le hrs) hstand⟩) v
      (mem_take_ordered.mpr ⟨hv, hstand⟩) hrs
  · intro h s hs t ht hst
    obtain ⟨hs, _⟩ := mem_take_ordered.mp hs
    obtain ⟨ht, hstand⟩ := mem_take_ordered.mp ht
    exact h s.row (slot_row hs) t.row (slot_row ht) hst hstand

omit [LinearOrder S] in
/-- The first slot stands before every other item. -/
theorem head_ahead {first : Slot (Row S) F} {rest : List (Slot (Row S) F)}
    (hslots : slots E denseRows ftsRows = first :: rest) {r : Row S}
    (hr : r ∈ denseRows ++ ftsRows) :
    first.row.catalogItemId = r.catalogItemId ∨
      Ahead Row.catalogItemId E.recip (ranked denseRows ftsRows) first.row.catalogItemId
        r.catalogItemId := by
  obtain ⟨s, hs, hsr⟩ := row_slot (E := E) hr
  have hahead := slots_ahead E denseRows ftsRows
  rw [hslots] at hs hahead
  rcases List.mem_cons.mp hs with rfl | hs
  · exact Or.inl hsr
  · exact Or.inr (hsr ▸ (List.pairwise_cons.mp hahead).1 s hs)

theorem argmax_of_descending (hk : 0 < E.topK) {first : Slot (Row S) F}
    {rest : List (Slot (Row S) F)} (hslots : slots E denseRows ftsRows = first :: rest)
    (hdesc : (findClosestCatalogItems E denseRows ftsRows queryText).matches'.Pairwise
      fun m n => n.cosineScore ≤ m.cosineScore) :
    ∃ m, (findClosestCatalogItems E denseRows ftsRows queryText).matches'.argmax
        CatalogMatch.cosineScore = some m ∧ m.cosineScore = first.row.cosineScore ∧
      ∃ r ∈ denseRows ++ ftsRows, toMatch E r = m := by
  obtain ⟨k, hk⟩ := Nat.exists_eq_succ_of_ne_zero (Nat.ne_of_gt hk)
  have hlist : (findClosestCatalogItems E denseRows ftsRows queryText).matches' =
      toMatch E first.row :: (rest.take k).map fun s => toMatch E s.row := by
    rw [matches_eq, kept, hslots, hk]
    rfl
  cases hm : (findClosestCatalogItems E denseRows ftsRows queryText).matches'.argmax
      CatalogMatch.cosineScore with
  | none =>
    rw [List.argmax_eq_none, hlist] at hm
    exact absurd hm (List.cons_ne_nil _ _)
  | some m =>
    have hmem := List.argmax_mem hm
    refine ⟨m, rfl, le_antisymm ?_ ?_, ?_⟩
    · rw [hlist] at hmem hdesc
      rcases List.mem_cons.mp hmem with rfl | hmem
      · exact le_refl _
      · exact (List.pairwise_cons.mp hdesc).1 m hmem
    · have hfirst : toMatch E first.row ∈
          (findClosestCatalogItems E denseRows ftsRows queryText).matches' := by
        rw [hlist]
        exact List.mem_cons_self
      exact List.le_of_mem_argmax hfirst hm
    · rw [matches_eq] at hmem
      obtain ⟨s, hs, rfl⟩ := List.mem_map.mp hmem
      exact ⟨s.row, slot_row (mem_take_ordered.mp hs).1, rfl⟩

theorem autoPick_eq : (findClosestCatalogItems E denseRows ftsRows queryText).autoPick =
    ((findClosestCatalogItems E denseRows ftsRows queryText).matches'.argmax
      CatalogMatch.cosineScore).filter CatalogMatch.isAutoPick := rfl

theorem picksClosest_of_nil (hslots : slots E denseRows ftsRows = []) :
    PicksClosest E (denseRows ++ ftsRows)
        (findClosestCatalogItems E denseRows ftsRows queryText) ∧
      RanksAgree E denseRows ftsRows := by
  have hrows : ∀ r, r ∉ denseRows ++ ftsRows := by
    intro r hr
    obtain ⟨s, hs, _⟩ := row_slot (E := E) hr
    rw [hslots] at hs
    cases hs
  have hnil : (findClosestCatalogItems E denseRows ftsRows queryText).matches' = [] := by
    rw [matches_eq, kept, hslots, List.take_nil, List.map_nil]
  refine ⟨⟨?_, fun _ r hr => absurd hr (hrows r), matches_length, matches_distinct, ?_⟩,
    fun r hr => absurd hr (hrows r), fun _ r hr => absurd hr (hrows r)⟩
  · intro m hm
    rw [autoPick_eq, hnil] at hm
    cases hm
  · rw [hnil]
    exact List.Pairwise.nil

section First

variable {first : Slot (Row S) F} {rest : List (Slot (Row S) F)}

theorem ranksAgree_of_picks (hone : OneScore (denseRows ++ ftsRows)) (hk : 0 < E.topK)
    (hslots : slots E denseRows ftsRows = first :: rest)
    (h : PicksClosest E (denseRows ++ ftsRows)
      (findClosestCatalogItems E denseRows ftsRows queryText)) :
    RanksAgree E denseRows ftsRows := by
  have hfirst : first.row ∈ denseRows ++ ftsRows :=
    slot_row (E := E) (by rw [hslots]; exact List.mem_cons_self)
  obtain ⟨hpick, hno, _, _, hdesc⟩ := h
  refine ⟨(descending_iff hone).mp hdesc, ?_⟩
  rintro ⟨r, hr, hreach⟩ u hu hnone s hs
  obtain ⟨m, hm, hmf, _⟩ := argmax_of_descending hk hslots hdesc
  have huf : u.cosineScore = first.row.cosineScore := by
    rcases head_ahead hslots hu with heq | hahead
    · exact hone u hu first.row hfirst heq.symm
    · exact absurd hahead (hnone first.row hfirst)
  cases hp : (findClosestCatalogItems E denseRows ftsRows queryText).autoPick with
  | none => exact absurd hreach (not_le.mpr (hno hp r hr))
  | some m' =>
    have hmm : m' = m := by
      rw [autoPick_eq, hm, Option.filter_eq_some_iff] at hp
      exact (Option.some.inj hp.1).symm
    rw [huf, ← hmf, ← hmm]
    exact (hpick m' hp).2.2 s hs

/-- Where the rankings agree, the first match has the highest cosine as soon as one row reaches
the threshold. -/
theorem picks_of_ranksAgree (hone : OneScore (denseRows ++ ftsRows)) (hk : 0 < E.topK)
    (hslots : slots E denseRows ftsRows = first :: rest) (h : RanksAgree E denseRows ftsRows) :
    PicksClosest E (denseRows ++ ftsRows)
      (findClosestCatalogItems E denseRows ftsRows queryText) := by
  have hfirst : first.row ∈ denseRows ++ ftsRows :=
    slot_row (E := E) (by rw [hslots]; exact List.mem_cons_self)
  obtain ⟨hdesc, hclosest⟩ := h
  have hdesc' := (@descending_iff _ _ _ _ _ E denseRows ftsRows queryText hone).mpr hdesc
  obtain ⟨m, hm, hmf, r, hr, hrm⟩ := argmax_of_descending hk hslots hdesc'
  have hnone : ∀ s ∈ denseRows ++ ftsRows, ¬ Ahead Row.catalogItemId E.recip
      (ranked denseRows ftsRows) s.catalogItemId first.row.catalogItemId := by
    intro s hs hahead
    rcases head_ahead hslots hs with heq | hahead'
    · rw [heq] at hahead
      exact ahead_irrefl _ hahead
    · exact hahead.asymm hahead'
  have hmax : (∃ r ∈ denseRows ++ ftsRows, E.autoPickThreshold ≤ r.cosineScore) →
      ∀ s ∈ denseRows ++ ftsRows, s.cosineScore ≤ m.cosineScore := by
    intro hex s hs
    rw [hmf]
    exact hclosest hex first.row hfirst hnone s hs
  have hauto : m.isAutoPick = true ↔ E.autoPickThreshold ≤ m.cosineScore := by
    rw [← hrm]
    exact decide_eq_true_iff
  refine ⟨?_, ?_, matches_length, matches_distinct, hdesc'⟩
  · intro m' hp
    rw [autoPick_eq, hm, Option.filter_eq_some_iff] at hp
    obtain rfl := Option.some.inj hp.1
    have hreach := hauto.mp hp.2
    refine ⟨⟨r, hr, hrm⟩, hreach, hmax ⟨r, hr, ?_⟩⟩
    rw [← hrm] at hreach
    exact hreach
  · intro hp s hs
    by_contra hns
    have hreach : E.autoPickThreshold ≤ m.cosineScore :=
      (not_lt.mp hns).trans (hmax ⟨s, hs, not_lt.mp hns⟩ s hs)
    rw [autoPick_eq, hm, Option.filter_eq_none_iff] at hp
    exact hp m rfl (hauto.mpr hreach)

end First

/-- The search picks the closest item and lists the closest first exactly when ranks and cosines
agree. -/
theorem picksClosest_iff (hone : OneScore (denseRows ++ ftsRows)) (hk : 0 < E.topK) :
    PicksClosest E (denseRows ++ ftsRows)
        (findClosestCatalogItems E denseRows ftsRows queryText) ↔
      RanksAgree E denseRows ftsRows := by
  cases hslots : slots E denseRows ftsRows with
  | nil => exact And.elim iff_of_true (picksClosest_of_nil hslots)
  | cons first rest =>
    exact ⟨ranksAgree_of_picks hone hk hslots, picks_of_ranksAgree hone hk hslots⟩

end Search

def plainRow (id : String) (cosineScore : ℚ) : Row ℚ := ⟨id, id, "", "", "", cosineScore⟩

def single : Settings ℚ ℚ := ⟨fun rank => 1 / (60 + rank), 1, 1 / 2, 3 / 5⟩

def vpnRows : List (Row ℚ) := [plainRow "CAT1" (61 / 100), plainRow "CAT2" (55 / 100)]

theorem closest_pushed_out :
    ¬ PicksClosest single (vpnRows ++ [plainRow "CAT2" (55 / 100)])
      (findClosestCatalogItems single vpnRows [plainRow "CAT2" (55 / 100)] "Name: vpn") := by
  intro h
  have hnone : (findClosestCatalogItems single vpnRows [plainRow "CAT2" (55 / 100)]
      "Name: vpn").autoPick = none := by
    decide +kernel
  have hlt : (plainRow "CAT1" (61 / 100)).cosineScore < single.autoPickThreshold :=
    h.noPick hnone _ List.mem_cons_self
  exact absurd hlt (by decide +kernel)

def laptopDense : List (Row ℚ) :=
  [plainRow "CAT1" (61 / 100), plainRow "CAT2" (55 / 100), plainRow "CAT3" (40 / 100)]

def laptopLexical : List (Row ℚ) := [plainRow "CAT2" (55 / 100), plainRow "CAT1" (61 / 100)]

def topThree : Settings ℚ ℚ := { single with topK := 3 }

theorem laptop_picked : PicksClosest topThree (laptopDense ++ laptopLexical)
    (findClosestCatalogItems topThree laptopDense laptopLexical "Name: laptop") :=
  (picksClosest_iff (by unfold OneScore; decide +kernel) (by decide)).mpr
    ⟨by decide +kernel, by decide +kernel⟩

end CatalogSearch
