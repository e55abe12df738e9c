import OneOps.TriageSimilarity

/-! The duplicate verdict of triage. The best row of the retrieval is the match if its score
reaches the threshold, and the probe's own row is taken out of the answer afterwards. -/
namespace TriageDuplicates

open StableRanking
open TriageSimilarity
open PythonText (strip)

/-- What the tool reads of its ticket: the id under its column and as `id`, the two fields that
boost a neighbour, and the text to search with. -/
structure ProbeTicket where
  idColumn : Option String
  id : Option String
  ciId : Option String
  serviceName : Option String
  embeddingInput : String

def safeStr (s : Option String) : Option String := (s.map strip).filter fun t => t ≠ ""

def ProbeTicket.selfId (t : ProbeTicket) : Option String :=
  safeStr (if given t.idColumn then t.idColumn else t.id)

def ProbeTicket.probe (t : ProbeTicket) : Probe :=
  ⟨safeStr t.ciId, safeStr t.serviceName, t.embeddingInput⟩

inductive DuplicateVerdict where
  | duplicate
  | none
  deriving DecidableEq, Repr

structure Settings (F : Type) [LinearOrder F] [OfScientific F] where
  duplicateThreshold : F
  maxCandidates : ℕ
  threshold_range : 0.5 ≤ duplicateThreshold ∧ duplicateThreshold ≤ 1.0
  candidates_range : 1 ≤ maxCandidates ∧ maxCandidates ≤ 50

structure DuplicateCheckResult (F : Type) where
  candidates : List (ScoredNeighbour F)
  topMatch : Option (ScoredNeighbour F)
  duplicateVerdict : DuplicateVerdict
  duplicateThreshold : F

section Tool

variable {F : Type} [LinearOrder F] [Add F] [Sub F] [Mul F] [Div F] [Neg F] [NatCast F]
  [OfScientific F]

def Other (t : ProbeTicket) (id : String) : Prop := some id ≠ t.selfId

instance (t : ProbeTicket) : DecidablePred (Other t) := fun _ => inferInstanceAs (Decidable (¬ _))

def checkDuplicateCandidates (E : Env F) (S : Settings F) (t : ProbeTicket) (embed : Embedding F)
    (ftsRows vecRows : List (Hit F)) : Except Raised (DuplicateCheckResult F) := do
  let (candidates, topMatch) ← searchSimilar E t.probe embed S.duplicateThreshold S.maxCandidates
    ftsRows vecRows
  let candidates := candidates.filter fun c => Other t c.id
  let topMatch := topMatch.filter fun c => Other t c.id
  if ¬ (0.5 ≤ S.duplicateThreshold ∧ S.duplicateThreshold ≤ 1.0) then
    .error (.validationError "duplicate_threshold")
  else
    pure ⟨candidates, topMatch, if topMatch.isSome then .duplicate else .none,
      S.duplicateThreshold⟩

def retrieved (t : ProbeTicket) (embed : Embedding F) (ftsRows vecRows : List (Hit F)) :
    List (Slot F) :=
  floored ftsRows (vectorRows t.probe embed vecRows)

/-- A retrieved row other than the probe's whose score reaches the threshold. -/
structure Duplicates (E : Env F) (S : Settings F) (t : ProbeTicket) (embed : Embedding F)
    (ftsRows vecRows : List (Hit F)) (s : Slot F) : Prop where
  retrieved : s ∈ retrieved t embed ftsRows vecRows
  other : Other t s.id
  reaches : S.duplicateThreshold ≤ rerankScore E t.probe s

/-- The verdict is `duplicate` exactly when there is such a row, and the match is one of
greatest score. -/
structure VerdictRight (E : Env F) (S : Settings F) (t : ProbeTicket) (embed : Embedding F)
    (ftsRows vecRows : List (Hit F)) (r : DuplicateCheckResult F) : Prop where
  verdict : r.duplicateVerdict = .duplicate ↔ ∃ s, Duplicates E S t embed ftsRows vecRows s
  topMatch : r.duplicateVerdict = .duplicate → ∃ s, r.topMatch = some (scored E t.probe s) ∧
    Duplicates E S t embed ftsRows vecRows s ∧
    ∀ s' ∈ retrieved t embed ftsRows vecRows, Other t s'.id →
      rerankScore E t.probe s' ≤ rerankScore E t.probe s

/-- None of the rows to be returned carries a negative cosine, and where the first row of
greatest score is the probe's own, no other row reaches the threshold. -/
structure OwnRowHarmless (E : Env F) (S : Settings F) (t : ProbeTicket) (embed : Embedding F)
    (ftsRows vecRows : List (Hit F)) : Prop where
  cosines : ∀ s ∈ topRows E t.probe S.maxCandidates ftsRows (vectorRows t.probe embed vecRows),
    0.0 ≤ s.score .vec
  own : ∀ s, (retrieved t embed ftsRows vecRows).argmax (rerankScore E t.probe) = some s →
    ¬ Other t s.id → ∀ s' ∈ retrieved t embed ftsRows vecRows, Other t s'.id →
      rerankScore E t.probe s' < S.duplicateThreshold

variable {E : Env F} {S : Settings F} {t : ProbeTicket} {embed : Embedding F}
  {ftsRows vecRows : List (Hit F)} {r : DuplicateCheckResult F}

theorem checkDuplicateCandidates_returns_iff (hfts : ∀ h ∈ ftsRows, 0.0 ≤ h.score)
    (hvec : ∀ h ∈ vecRows, -1.0 ≤ h.score ∧ h.score ≤ 1.0) :
    (∃ r, checkDuplicateCandidates E S t embed ftsRows vecRows = .ok r) ↔
      ∀ s ∈ topRows E t.probe S.maxCandidates ftsRows (vectorRows t.probe embed vecRows),
        0.0 ≤ s.score .vec := by
  constructor
  · rintro ⟨r, h⟩
    obtain ⟨⟨candidates, topMatch⟩, hsearch, -⟩ := ExceptLoops.bind_eq_ok.mp h
    exact ((searchSimilar_eq_ok_iff hfts hvec).mp hsearch).1
  · intro hpos
    have hsearch : searchSimilar E t.probe embed S.duplicateThreshold S.maxCandidates ftsRows
        vecRows = .ok (_, _) := (searchSimilar_eq_ok_iff hfts hvec).mpr ⟨hpos, rfl, rfl⟩
    unfold checkDuplicateCandidates
    rw [hsearch]
    exact ⟨_, if_neg (not_not.mpr S.threshold_range)⟩

theorem checkDuplicateCandidates_spec (hfts : ∀ h ∈ ftsRows, 0.0 ≤ h.score)
    (hvec : ∀ h ∈ vecRows, -1.0 ≤ h.score ∧ h.score ≤ 1.0)
    (h : checkDuplicateCandidates E S t embed ftsRows vecRows = .ok r) :
    (r.duplicateVerdict = .duplicate ↔ r.topMatch ≠ none) ∧
    ∀ m, r.topMatch = some m ↔ ∃ s,
      (retrieved t embed ftsRows vecRows).argmax (rerankScore E t.probe) = some s ∧
      m = scored E t.probe s ∧ Other t s.id ∧
      S.duplicateThreshold ≤ rerankScore E t.probe s := by
  obtain ⟨⟨candidates, topMatch⟩, hsearch, h⟩ := ExceptLoops.bind_eq_ok.mp h
  obtain ⟨-, rfl, rfl⟩ := (searchSimilar_eq_ok_iff hfts hvec).mp hsearch
  dsimp only at h
  rw [if_neg (not_not.mpr S.threshold_range)] at h
  cases h
  refine ⟨?_, ?_⟩
  · dsimp only
    rw [Option.ne_none_iff_isSome]
    split
    · next hs => exact iff_of_true rfl hs
    · next hs => exact iff_of_false (by simp) hs
  · intro m
    dsimp only
    rw [List.head?_map, head?_topRows E t.probe S.candidates_range.1]
    simp only [Option.filter_eq_some_iff, Option.map_eq_some_iff, decide_eq_true_eq]
    constructor
    · rintro ⟨⟨⟨s, hs, rfl⟩, hreach⟩, hother⟩
      exact ⟨s, hs, rfl, hother, hreach⟩
    · rintro ⟨s, hs, rfl, hother, hreach⟩
      exact ⟨⟨⟨s, hs, rfl⟩, hreach⟩, hother⟩

theorem ownRowHarmless_of_right (hfts : ∀ h ∈ ftsRows, 0.0 ≤ h.score)
    (hvec : ∀ h ∈ vecRows, -1.0 ≤ h.score ∧ h.score ≤ 1.0)
    (hr : checkDuplicateCandidates E S t embed ftsRows vecRows = .ok r)
    (hright : VerdictRight E S t embed ftsRows vecRows r) :
    OwnRowHarmless E S t embed ftsRows vecRows := by
  obtain ⟨hverdict, hmatch⟩ := checkDuplicateCandidates_spec hfts hvec hr
  refine ⟨(checkDuplicateCandidates_returns_iff hfts hvec).mp ⟨r, hr⟩, ?_⟩
  intro s hs hown s' hs' hother
  by_contra hreach
  have hdup := hright.verdict.mpr ⟨s', hs', hother, not_lt.mp hreach⟩
  obtain ⟨m, hm⟩ := Option.ne_none_iff_exists'.mp (hverdict.mp hdup)
  obtain ⟨s₁, hs₁, -, hother₁, -⟩ := (hmatch m).mp hm
  cases hs.symm.trans hs₁
  exact hown hother₁

/-- For every rows that the two queries can return, the verdict and its match are right
exactly when no returned row carries a negative cosine and the probe's own row, where it comes
first, hides no other that reaches the threshold. -/
theorem verdict_right_iff (E : Env F) (S : Settings F) (t : ProbeTicket) (embed : Embedding F)
    (hfts : ∀ h ∈ ftsRows, 0.0 ≤ h.score)
    (hvec : ∀ h ∈ vecRows, -1.0 ≤ h.score ∧ h.score ≤ 1.0) :
    (∃ r, checkDuplicateCandidates E S t embed ftsRows vecRows = .ok r ∧
        VerdictRight E S t embed ftsRows vecRows r) ↔
      OwnRowHarmless E S t embed ftsRows vecRows := by
  constructor
  · rintro ⟨r, hr, hright⟩
    exact ownRowHarmless_of_right hfts hvec hr hright
  · intro h
    obtain ⟨r, hr⟩ := (checkDuplicateCandidates_returns_iff hfts hvec).mpr h.cosines
    obtain ⟨hverdict, hmatch⟩ := checkDuplicateCandidates_spec hfts hvec hr
    have htop : ∀ m, r.topMatch = some m → ∃ s, m = scored E t.probe s ∧
        Duplicates E S t embed ftsRows vecRows s ∧
        ∀ s' ∈ retrieved t embed ftsRows vecRows, Other t s'.id →
          rerankScore E t.probe s' ≤ rerankScore E t.probe s := by
      intro m hm
      obtain ⟨s, hs, rfl, hother, hreach⟩ := (hmatch m).mp hm
      exact ⟨s, rfl, ⟨List.argmax_mem hs, hother, hreach⟩,
        fun s' hs' _ => List.le_of_mem_argmax hs' hs⟩
    refine ⟨r, hr, ?_, ?_⟩
    · rw [hverdict]
      constructor
      · intro hne
        obtain ⟨m, hm⟩ := Option.ne_none_iff_exists'.mp hne
        obtain ⟨s, -, hdup, -⟩ := htop m hm
        exact ⟨s, hdup⟩
      · rintro ⟨s', hdup⟩
        obtain ⟨s, hs⟩ : ∃ s, (retrieved t embed ftsRows vecRows).argmax
            (rerankScore E t.probe) = some s := by
          rw [← Option.ne_none_iff_exists', ne_eq, List.argmax_eq_none]
          exact List.ne_nil_of_mem hdup.retrieved
        have hreach : S.duplicateThreshold ≤ rerankScore E t.probe s :=
          hdup.reaches.trans (List.le_of_mem_argmax hdup.retrieved hs)
        have hother : Other t s.id := by
          by_contra hown
          exact absurd hdup.reaches
            (not_le.mpr (h.own s hs hown s' hdup.retrieved hdup.other))
        rw [(hmatch _).mpr ⟨s, hs, rfl, hother, hreach⟩]
        exact Option.some_ne_none _
    · intro hdup
      obtain ⟨m, hm⟩ := Option.ne_none_iff_exists'.mp (hverdict.mp hdup)
      obtain ⟨s, rfl, hrest⟩ := htop m hm
      exact ⟨s, hm, hrest⟩

end Tool

noncomputable def duplicatePoint : ℝ := 0.05 + Real.log (17 / 3) / 12

theorem squash_realEnv (now : ℤ) (days : ℕ) (x : ℝ) :
    squash (realEnv now days) x = 1 / (1 + Real.exp (-12 * (x - 0.05))) := by
  simp only [squash, realEnv]
  norm_num

theorem squash_mono (now : ℤ) (days : ℕ) {x y : ℝ} (h : x ≤ y) :
    squash (realEnv now days) x ≤ squash (realEnv now days) y := by
  rw [squash_realEnv, squash_realEnv]
  have hx := Real.exp_pos (-12 * (y - 0.05))
  have hexp : Real.exp (-12 * (y - 0.05)) ≤ Real.exp (-12 * (x - 0.05)) :=
    Real.exp_le_exp.mpr (by linarith)
  exact one_div_le_one_div_of_le (by linarith) (by linarith)

theorem reaches_iff (now : ℤ) (days : ℕ) (x : ℝ) :
    0.85 ≤ squash (realEnv now days) x ↔ duplicatePoint ≤ x := by
  rw [squash_realEnv]
  have hpos := Real.exp_pos (-12 * (x - 0.05))
  have hlog : Real.log (3 / 17) = -Real.log (17 / 3) := by
    rw [← Real.log_inv]
    norm_num
  have hexp : Real.exp (-12 * (x - 0.05)) ≤ 3 / 17 ↔ duplicatePoint ≤ x := by
    rw [← Real.le_log_iff_exp_le (by norm_num), hlog, duplicatePoint]
    constructor
    · intro h
      linarith
    · intro h
      linarith
  rw [← hexp, le_div_iff₀ (by linarith)]
  constructor
  · intro h
    linarith
  · intro h
    linarith

theorem log_le : Real.log (17 / 3) ≤ 1.99 := by
  rw [Real.log_le_iff_le_exp (by norm_num)]
  have hhalf := Real.quadratic_le_exp_of_nonneg (show (0 : ℝ) ≤ 0.995 by norm_num)
  have hsplit : Real.exp 1.99 = Real.exp 0.995 * Real.exp 0.995 := by
    rw [← Real.exp_add]
    norm_num
  rw [hsplit]
  norm_num at hhalf
  nlinarith

noncomputable def defaultSettings : Settings ℝ where
  duplicateThreshold := 0.85
  maxCandidates := 5
  threshold_range := by norm_num
  candidates_range := by decide

structure EvidenceFree (ftsRows vecRows : List (Hit ℝ)) (id : String) : Prop where
  fts : ∀ h ∈ ftsRows, h.row.id = id → h.score = 0
  vec : ∀ h ∈ vecRows, h.row.id = id → h.score ≤ 0

def MatchHasEvidence (now : ℤ) (days : ℕ) (t : ProbeTicket) (embed : Embedding ℝ)
    (ftsRows vecRows : List (Hit ℝ)) : Prop :=
  ∀ r m, checkDuplicateCandidates (realEnv now days) defaultSettings t embed ftsRows vecRows =
      .ok r → r.topMatch = some m →
    ¬ EvidenceFree ftsRows (vectorRows t.probe embed vecRows) m.id

/-- The first row of greatest score, unless it is the probe's own or the call raises, has
textual evidence, or ranks and boosts that stay below the point of a duplicate. -/
def EvidenceOrWeak (now : ℤ) (days : ℕ) (t : ProbeTicket) (embed : Embedding ℝ)
    (ftsRows vecRows : List (Hit ℝ)) : Prop :=
  ∀ s, (retrieved t embed ftsRows vecRows).argmax (rerankScore (realEnv now days) t.probe) =
      some s → Other t s.id →
    (∀ s' ∈ topRows (realEnv now days) t.probe defaultSettings.maxCandidates ftsRows
      (vectorRows t.probe embed vecRows), 0.0 ≤ s'.score .vec) →
    EvidenceFree ftsRows (vectorRows t.probe embed vecRows) s.id →
    s.fused + boost (realEnv now days) t.probe s.row < duplicatePoint

/-- In exact arithmetic, no row without textual evidence is the match of a duplicate verdict,
exactly when the first row of greatest score has such evidence or stays below the point of a
duplicate by its ranks and boosts. -/
theorem match_has_evidence_iff (now : ℤ) (days : ℕ) (t : ProbeTicket) (embed : Embedding ℝ)
    {ftsRows vecRows : List (Hit ℝ)} (hfts : ∀ h ∈ ftsRows, (0.0 : ℝ) ≤ h.score)
    (hvec : ∀ h ∈ vecRows, (-1.0 : ℝ) ≤ h.score ∧ h.score ≤ 1.0) :
    MatchHasEvidence now days t embed ftsRows vecRows ↔
      EvidenceOrWeak now days t embed ftsRows vecRows := by
  constructor
  · intro h s hs hother hpos hfree
    by_contra hreach
    obtain ⟨r, hr⟩ := (checkDuplicateCandidates_returns_iff hfts hvec).mpr hpos
    have hmatch := ((checkDuplicateCandidates_spec hfts hvec hr).2 _).mpr
      ⟨s, hs, rfl, hother, (reaches_iff now days _).mpr (not_lt.mp hreach)⟩
    exact h r _ hr hmatch hfree
  · intro h r m hr hm hfree
    obtain ⟨s, hs, rfl, hother, hreach⟩ := ((checkDuplicateCandidates_spec hfts hvec hr).2 m).mp hm
    have hpos := (checkDuplicateCandidates_returns_iff hfts hvec).mp ⟨r, hr⟩
    exact absurd ((reaches_iff now days _).mp hreach) (not_le.mpr (h s hs hother hpos hfree))

def twinProbe : ProbeTicket :=
  ⟨some "INC0000001", none, some "CI0000001", some "VPN", "VPN drops"⟩

theorem twinProbe_selfId : twinProbe.selfId = some "INC0000001" := by decide

theorem boost_twinRow (id : String) :
    boost (realEnv 0 365) twinProbe.probe (twinRow id) = 0.2 := by
  have hci : given twinProbe.probe.ciId ∧ (twinRow id).ciId = twinProbe.probe.ciId := by
    change given (safeStr (some "CI0000001")) ∧ some "CI0000001" = safeStr (some "CI0000001")
    decide
  have hservice : given twinProbe.probe.serviceName ∧
      (twinRow id).serviceName = twinProbe.probe.serviceName := by
    change given (safeStr (some "VPN")) ∧ some "VPN" = safeStr (some "VPN")
    decide
  have hrecency : recency (realEnv 0 365) 0 = 1 := by
    simp [recency, realEnv]
    norm_num
  have hcreated : (twinRow id).createdAt = some 0 := rfl
  unfold boost
  simp only [if_pos hci, if_pos hservice, hcreated, hrecency]
  norm_num

theorem fuseRrf_two (x y : ℝ) {id id' : String} (hne : id ≠ id') :
    fuseRrf [⟨twinRow id, x⟩, ⟨twinRow id', y⟩] [] =
      [loneSlot .fts ⟨twinRow id, x⟩,
        (newSlot .fts ⟨twinRow id', y⟩).bump .fts y 2] := by
  have hnew : RowMerge.insertNew Slot.id [loneSlot .fts ⟨twinRow id, x⟩]
      (newSlot .fts ⟨twinRow id', y⟩) =
      [loneSlot .fts ⟨twinRow id, x⟩, newSlot .fts ⟨twinRow id', y⟩] := by
    refine RowMerge.insertNew_new ?_
    change id' ∉ [id]
    simpa using hne.symm
  have hadd : addHit .fts [loneSlot .fts ⟨twinRow id, x⟩] (⟨twinRow id', y⟩, 2) =
      [loneSlot .fts ⟨twinRow id, x⟩, (newSlot .fts ⟨twinRow id', y⟩).bump .fts y 2] := by
    unfold addHit
    rw [hnew]
    simp only [List.map_cons, List.map_nil, newSlot_id, if_true]
    rw [if_neg (show (loneSlot .fts ⟨twinRow id, x⟩).id ≠ (twinRow id').id from hne)]
  change byDescending Slot.fused (addHit .fts (addHit .fts [] (⟨twinRow id, x⟩, 1))
    (⟨twinRow id', y⟩, 2)) = _
  rw [addHit_nil, hadd]
  refine List.Pairwise.insertionSort_eq ?_
  simp only [List.pairwise_cons, List.mem_singleton, forall_eq, List.not_mem_nil, false_implies,
    implies_true, List.Pairwise.nil, and_true]
  simp only [loneSlot_fused, Slot.bump, newSlot, rrfK]
  norm_num

theorem retrieved_lone (t : ProbeTicket) (h : Hit ℝ) :
    retrieved t .raised [h] [] = [loneSlot .fts h] := by
  have hfloor : (minFusedScore : ℝ) ≤ (loneSlot .fts h).fused := by
    rw [loneSlot_fused, minFusedScore]
    norm_num
  have hnone : vectorRows t.probe .raised [] = ([] : List (Hit ℝ)) := rfl
  unfold retrieved floored
  rw [hnone, fuseRrf_fts_only, List.filter_cons_of_pos (by simpa using hfloor), List.filter_nil]

theorem argmax_lone {E : Env ℝ} {t : ProbeTicket} {h : Hit ℝ} {s : Slot ℝ}
    (hs : (retrieved t .raised [h] []).argmax (rerankScore E t.probe) = some s) :
    s = loneSlot .fts h := by
  rw [retrieved_lone, List.argmax_singleton] at hs
  exact (Option.some.inj hs).symm

theorem loneRange {x : ℝ} (hx : 0 ≤ x) (row : TicketRow) :
    ∀ h ∈ [(⟨row, x⟩ : Hit ℝ)], (0.0 : ℝ) ≤ h.score := by
  intro h hh
  rw [List.mem_singleton.mp hh]
  norm_num
  exact hx

theorem twin_other (x : ℝ) : Other twinProbe (loneSlot .fts ⟨twinRow "INC0000002", x⟩).id := by
  change some "INC0000002" ≠ twinProbe.selfId
  rw [twinProbe_selfId]
  decide

theorem retrieved_own {t : ProbeTicket} {embed : Embedding ℝ} {ftsRows vecRows : List (Hit ℝ)}
    {s : Slot ℝ} (hs : s ∈ retrieved t embed ftsRows vecRows) :
    s.id ∈ (ftsRows ++ vectorRows t.probe embed vecRows).map fun h => h.row.id := by
  obtain ⟨b, h, hh, hid⟩ := (fuseRrf_fused _ _).origin s (List.mem_filter.mp hs).1
  refine List.mem_map.mpr ⟨h, List.mem_append.mpr ?_, hid⟩
  cases b with
  | fts => exact .inl hh
  | vec => exact .inr hh

/-- A twin among the hits of both searches, and no hit is the probe itself. -/
theorem vpn_twin_verdict_right :
    (∀ h ∈ vpnMatches, (0.0 : ℝ) ≤ h.score) ∧
    (∀ h ∈ vpnNeighbours, (-1.0 : ℝ) ≤ h.score ∧ h.score ≤ 1.0) ∧
    ∃ r, checkDuplicateCandidates (realEnv 0 365) defaultSettings twinProbe (.returned [1])
        vpnMatches vpnNeighbours = .ok r ∧
      VerdictRight (realEnv 0 365) defaultSettings twinProbe (.returned [1])
        vpnMatches vpnNeighbours r := by
  have hrows : vectorRows twinProbe.probe (.returned [1]) vpnNeighbours = vpnNeighbours := by
    have htext : strip twinProbe.probe.text ≠ "" := by decide
    simp only [vectorRows, if_neg htext]
  refine ⟨vpnMatches_range, vpnNeighbours_cosines, (verdict_right_iff (realEnv 0 365)
    defaultSettings twinProbe (.returned [1]) vpnMatches_range vpnNeighbours_cosines).mpr ⟨?_, ?_⟩⟩
  · rw [hrows]
    exact cosines_of_hits fun h hh => (vpnNeighbours_range h hh).1
  · intro s hs hown
    have hmem := retrieved_own (List.argmax_mem hs)
    rw [hrows] at hmem
    have hother : ∀ id ∈ (vpnMatches ++ vpnNeighbours).map fun h => h.row.id,
        Other twinProbe id := by
      simp only [vpnMatches, vpnNeighbours, List.cons_append, List.nil_append, List.map_cons,
        List.map_nil, twinRow, lonelyRow, Other, twinProbe_selfId]
      decide
    exact absurd (hother _ hmem) hown

/-- A row without text match on another item and service stays below the point. -/
theorem lonely_row_weak :
    (∀ h ∈ [(⟨lonelyRow "INC0000002", 0⟩ : Hit ℝ)], (0.0 : ℝ) ≤ h.score) ∧
    MatchHasEvidence 0 365 twinProbe .raised [⟨lonelyRow "INC0000002", 0⟩] [] := by
  have hrange := loneRange (le_refl (0 : ℝ)) (lonelyRow "INC0000002")
  refine ⟨hrange, (match_has_evidence_iff 0 365 twinProbe .raised hrange (by simp)).mpr ?_⟩
  intro s hs _ _ _
  rw [argmax_lone hs, loneSlot_fused]
  have hboost : boost (realEnv 0 365) twinProbe.probe
      (loneSlot .fts ⟨lonelyRow "INC0000002", 0⟩).row = 0 := by
    change boost (realEnv 0 365) twinProbe.probe (lonelyRow "INC0000002") = 0
    have hci : ¬ (given twinProbe.probe.ciId ∧
        (lonelyRow "INC0000002").ciId = twinProbe.probe.ciId) := by
      change ¬ (given (safeStr (some "CI0000001")) ∧ none = safeStr (some "CI0000001"))
      decide
    have hservice : ¬ (given twinProbe.probe.serviceName ∧
        (lonelyRow "INC0000002").serviceName = twinProbe.probe.serviceName) := by
      change ¬ (given (safeStr (some "VPN")) ∧ none = safeStr (some "VPN"))
      decide
    have hcreated : (lonelyRow "INC0000002").createdAt = none := rfl
    unfold boost
    simp only [if_neg hci, if_neg hservice, hcreated]
    norm_num
  have hlog : 0 < Real.log (17 / 3) := Real.log_pos (by norm_num)
  rw [hboost]
  unfold duplicatePoint
  linarith

/-- A ticket opened now on the same item and service, which the text query returned without a
match while the embedding failed, is reported as a duplicate. -/
theorem evidence_free_duplicate :
    (∀ h ∈ [(⟨twinRow "INC0000002", 0⟩ : Hit ℝ)], (0.0 : ℝ) ≤ h.score) ∧
    ¬ MatchHasEvidence 0 365 twinProbe .raised [⟨twinRow "INC0000002", 0⟩] [] := by
  have hrange := loneRange (le_refl (0 : ℝ)) (twinRow "INC0000002")
  refine ⟨hrange, ?_⟩
  intro hevidence
  have hcosines : ∀ s ∈ topRows (realEnv 0 365) twinProbe.probe defaultSettings.maxCandidates
      [⟨twinRow "INC0000002", 0⟩] (vectorRows twinProbe.probe .raised []), 0.0 ≤ s.score .vec :=
    cosines_of_hits (List.forall_mem_nil _)
  obtain ⟨r, hr⟩ := (checkDuplicateCandidates_returns_iff hrange (List.forall_mem_nil _)).mpr
    hcosines
  have hreach : (0.85 : ℝ) ≤ rerankScore (realEnv 0 365) twinProbe.probe
      (loneSlot .fts ⟨twinRow "INC0000002", 0⟩) := by
    have hlog := log_le
    rw [rerankScore, loneSlot_fused, reaches_iff]
    change duplicatePoint ≤ 1 / 61 + boost (realEnv 0 365) twinProbe.probe (twinRow "INC0000002")
    rw [boost_twinRow, duplicatePoint]
    linarith
  have hmatch := ((checkDuplicateCandidates_spec hrange (by simp) hr).2 _).mpr
    ⟨_, by rw [retrieved_lone]; rfl, rfl, twin_other 0, hreach⟩
  refine hevidence r _ hr hmatch ⟨?_, by simp [vectorRows]⟩
  intro h hh _
  rw [List.mem_singleton.mp hh]

noncomputable def twinHits : List (Hit ℝ) :=
  [⟨twinRow "INC0000001", 0.9⟩, ⟨twinRow "INC0000002", 0.8⟩]

noncomputable def twinSlot : Slot ℝ :=
  (newSlot .fts ⟨twinRow "INC0000002", 0.8⟩).bump .fts 0.8 2

theorem twinSlot_fused : twinSlot.fused = 1 / 62 := by
  simp only [twinSlot, Slot.bump, newSlot, rrfK]
  norm_num

theorem retrieved_twinHits :
    retrieved twinProbe .raised twinHits [] =
      [loneSlot .fts ⟨twinRow "INC0000001", 0.9⟩, twinSlot] := by
  have hfirst : (minFusedScore : ℝ) ≤ (loneSlot .fts ⟨twinRow "INC0000001", 0.9⟩).fused := by
    rw [loneSlot_fused, minFusedScore]
    norm_num
  have hsecond : (minFusedScore : ℝ) ≤ twinSlot.fused := by
    rw [twinSlot_fused, minFusedScore]
    norm_num
  change (fuseRrf twinHits []).filter _ = _
  rw [twinHits, fuseRrf_two 0.9 0.8 (by decide),
    List.filter_cons_of_pos (by simpa using hfirst)]
  rw [List.filter_cons_of_pos (by simpa [twinSlot] using hsecond), List.filter_nil]
  rfl

theorem twinHits_range : ∀ h ∈ twinHits, (0.0 : ℝ) ≤ h.score := by
  intro h hh
  simp only [twinHits, List.mem_cons, List.not_mem_nil, or_false] at hh
  rcases hh with rfl | rfl
  · norm_num
  · norm_num

/-- The probe's own row comes first, and its twin on the same item and service, which reaches
the threshold too, is not reported. -/
theorem twin_hidden_by_own_row :
    (∀ h ∈ twinHits, (0.0 : ℝ) ≤ h.score) ∧
    ¬ ∃ r, checkDuplicateCandidates (realEnv 0 365) defaultSettings twinProbe .raised twinHits [] =
        .ok r ∧
      VerdictRight (realEnv 0 365) defaultSettings twinProbe .raised twinHits [] r := by
  refine ⟨twinHits_range, ?_⟩
  rintro ⟨r, hr, hright⟩
  have hharmless := ownRowHarmless_of_right twinHits_range (by simp) hr hright
  have hpoint : duplicatePoint ≤ 1 / 62 + 0.2 := by
    have := log_le
    unfold duplicatePoint
    linarith
  have htwin : rerankScore (realEnv 0 365) twinProbe.probe twinSlot =
      squash (realEnv 0 365) (1 / 62 + 0.2) := by
    rw [rerankScore, twinSlot_fused]
    exact congrArg (fun b => squash (realEnv 0 365) (1 / 62 + b)) (boost_twinRow "INC0000002")
  have hown : rerankScore (realEnv 0 365) twinProbe.probe
      (loneSlot .fts ⟨twinRow "INC0000001", 0.9⟩) = squash (realEnv 0 365) (1 / 61 + 0.2) := by
    rw [rerankScore, loneSlot_fused]
    exact congrArg (fun b => squash (realEnv 0 365) (1 / 61 + b)) (boost_twinRow "INC0000001")
  have hfirst : (retrieved twinProbe .raised twinHits []).argmax
      (rerankScore (realEnv 0 365) twinProbe.probe) =
      some (loneSlot .fts ⟨twinRow "INC0000001", 0.9⟩) := by
    rw [retrieved_twinHits, List.argmax_cons]
    change (if _ < _ then some twinSlot else some _) = _
    rw [if_neg]
    rw [not_lt, htwin, hown]
    exact squash_mono 0 365 (by norm_num)
  have hself : ¬ Other twinProbe (loneSlot .fts ⟨twinRow "INC0000001", 0.9⟩).id := by
    change ¬ some "INC0000001" ≠ twinProbe.selfId
    rw [twinProbe_selfId]
    simp
  have hother : Other twinProbe twinSlot.id := by
    change some "INC0000002" ≠ twinProbe.selfId
    rw [twinProbe_selfId]
    decide
  have hmem : twinSlot ∈ retrieved twinProbe .raised twinHits [] := by
    rw [retrieved_twinHits]
    simp
  have hbelow := hharmless.own _ hfirst hself twinSlot hmem hother
  rw [htwin] at hbelow
  exact absurd ((reaches_iff 0 365 _).mpr hpoint) (not_le.mpr hbelow)

end TriageDuplicates
