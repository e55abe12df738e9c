import Mathlib.Analysis.SpecialFunctions.Log.Basic
import OneOps.ExceptLoops
import OneOps.PythonText
import OneOps.RowMerge
import OneOps.StableRanking

/-! Hybrid retrieval for triage. Rows of a text search and of a vector search are fused by
their ranks, boosted, sorted, thinned by title and returned with the scores of both searches.
Scores are numbers of any ordered type with the operations of floating point. -/
namespace TriageSimilarity

open StableRanking
open PythonText (strip)

structure TicketRow where
  id : String
  title : Option String
  ciId : Option String
  serviceName : Option String
  createdAt : Option ℤ
  deriving DecidableEq, Repr

inductive Branch where
  | fts
  | vec
  deriving DecidableEq, Repr

/-- A row as a search returns it, with its `fts_score` or its `vec_score`. -/
structure Hit (F : Type) where
  row : TicketRow
  score : F

/-- An entry of the fusion: the row that made it with the score column it came with, the
score noted from each search, and the fused score. -/
structure Slot (F : Type) where
  row : TicketRow
  column : Branch → Option F
  noted : Branch → Option F
  fused : F
  sources : List Branch

def Slot.id {F : Type} (s : Slot F) : String := s.row.id

structure Probe where
  ciId : Option String
  serviceName : Option String
  text : String

/-- `str.lower`, the digits of `str.isdigit`, seconds of a time span as a number, and `exp`.
The squash of every score lies between nought and one. -/
structure Env (F : Type) [LinearOrder F] [Add F] [Sub F] [Mul F] [Div F] [Neg F] [NatCast F]
    [OfScientific F] where
  lower : String → String
  isDigit : Char → Bool
  seconds : ℤ → F
  exp : F → F
  now : ℤ
  ageFilterDays : ℕ
  zero_le_one : (0.0 : F) ≤ 1.0
  squash_unit : ∀ x : F, (0.0 : F) < 1.0 / (1.0 + exp (-12.0 * (x - 0.05))) ∧
    1.0 / (1.0 + exp (-12.0 * (x - 0.05))) ≤ (1.0 : F)

/-- The embedding of the probe: no function, an exception, or a vector. -/
inductive Embedding (F : Type) where
  | absent
  | raised
  | returned (vector : List F)

inductive Raised where
  | validationError (field : String)
  deriving DecidableEq, Repr

structure ScoredNeighbour (F : Type) where
  id : String
  fields : TicketRow
  vecScore : F
  ftsScore : F
  fusedScore : F

section Engine

variable {F : Type} [LinearOrder F] [Add F] [Sub F] [Mul F] [Div F] [Neg F] [NatCast F]
  [OfScientific F]

def rrfK : ℕ := 60

def newSlot (b : Branch) (h : Hit F) : Slot F where
  row := h.row
  column := fun b' => if b' = b then some h.score else none
  noted := fun _ => none
  fused := 0.0
  sources := []

def Slot.bump (b : Branch) (score : F) (rank : ℕ) (s : Slot F) : Slot F :=
  { s with
    noted := Function.update s.noted b (some score)
    fused := s.fused + 1.0 / ((rrfK + rank : ℕ) : F)
    sources := s.sources ++ [b] }

/-- One round of `_fuse_rrf`: the entry of the row's id is made if there is none, and bumped. -/
def addHit (b : Branch) (slots : List (Slot F)) (hit : Hit F × ℕ) : List (Slot F) :=
  (RowMerge.insertNew Slot.id slots (newSlot b hit.1)).map fun s =>
    if s.id = hit.1.row.id then s.bump b hit.1.score hit.2 else s

def addBranch (b : Branch) (hits : List (Hit F)) (slots : List (Slot F)) : List (Slot F) :=
  (hits.zipIdx 1).foldl (addHit b) slots

def fuseRrf (ftsRows vecRows : List (Hit F)) : List (Slot F) :=
  byDescending Slot.fused (addBranch .vec vecRows (addBranch .fts ftsRows []))

def minFusedScore : F := 0.012

def recency (E : Env F) (created : ℤ) : F :=
  let window : F := ((max 1 (E.ageFilterDays * 86400) : ℕ) : F)
  max 0.0 (1.0 - max 0.0 (E.seconds (E.now - created)) / window)

def given (s : Option String) : Bool := s.any fun v => v ≠ ""

def boost (E : Env F) (p : Probe) (row : TicketRow) : F :=
  let b : F := 0.0
  let b := if given p.ciId ∧ row.ciId = p.ciId then b + 0.10 else b
  let b := if given p.serviceName ∧ row.serviceName = p.serviceName then b + 0.05 else b
  match row.createdAt with
  | none => b
  | some created => b + 0.05 * recency E created

def squash (E : Env F) (x : F) : F := 1.0 / (1.0 + E.exp (-12.0 * (x - 0.05)))

def rerankScore (E : Env F) (p : Probe) (s : Slot F) : F := squash E (s.fused + boost E p s.row)

def floored (ftsRows vecRows : List (Hit F)) : List (Slot F) :=
  (fuseRrf ftsRows vecRows).filter fun s => minFusedScore ≤ s.fused

def rerank (E : Env F) (p : Probe) (slots : List (Slot F)) : List (Slot F) :=
  byDescending (rerankScore E p) slots

/-- `_normalise_title_for_dedup`: without a serial number in brackets at the end. -/
def normaliseTitle (E : Env F) (title : String) : List Char :=
  let chars := (E.lower (strip title)).toList
  match chars.reverse with
  | ')' :: rest =>
    let inside := rest.takeWhile (· ≠ '(')
    match rest.dropWhile (· ≠ '(') with
    | _ :: c :: before =>
      if inside ≠ [] ∧ inside.all E.isDigit then
        ((c :: before).dropWhile PythonText.isSpace).reverse
      else chars
    | _ => chars
  | _ => chars

def titleKey (E : Env F) (title : String) : String :=
  String.ofList ((normaliseTitle E title).take 60)

def dedupByTitle (E : Env F) : List String → List (Slot F) → List (Slot F)
  | _, [] => []
  | seen, s :: rest =>
    let title := s.row.title.getD ""
    if strip title = "" then s :: dedupByTitle E seen rest
    else if titleKey E title ∈ seen then dedupByTitle E seen rest
    else s :: dedupByTitle E (titleKey E title :: seen) rest

/-- Python's `a or b` on numbers, where `a` may be missing. -/
def orElse (a : Option F) (b : F) : F :=
  match a with
  | none => b
  | some x => if x = 0.0 then b else x

def Slot.score (s : Slot F) (b : Branch) : F := orElse (s.noted b) (orElse (s.column b) 0.0)

def toScored (E : Env F) (p : Probe) (s : Slot F) : Except Raised (ScoredNeighbour F) :=
  let fusedScore := orElse (some (rerankScore E p s)) (orElse (some s.fused) 0.0)
  if ¬ (0.0 ≤ s.score .vec ∧ s.score .vec ≤ 1.0) then .error (.validationError "vec_score")
  else if ¬ 0.0 ≤ s.score .fts then .error (.validationError "fts_score")
  else if ¬ (0.0 ≤ fusedScore ∧ fusedScore ≤ 1.0) then .error (.validationError "fused_score")
  else .ok ⟨s.id, s.row, s.score .vec, s.score .fts, fusedScore⟩

def vectorRows (p : Probe) (embed : Embedding F) (vecRows : List (Hit F)) : List (Hit F) :=
  match embed with
  | .returned (_ :: _) => if strip p.text = "" then [] else vecRows
  | _ => []

def topRows (E : Env F) (p : Probe) (maxCandidates : ℕ) (ftsRows vecRows : List (Hit F)) :
    List (Slot F) :=
  (dedupByTitle E [] (rerank E p (floored ftsRows vecRows))).take maxCandidates

/-- `search_similar`, given what its two queries would return. -/
def searchSimilar (E : Env F) (p : Probe) (embed : Embedding F) (threshold : F)
    (maxCandidates : ℕ) (ftsRows vecRows : List (Hit F)) :
    Except Raised (List (ScoredNeighbour F) × Option (ScoredNeighbour F)) := do
  let rows := topRows E p maxCandidates ftsRows (vectorRows p embed vecRows)
  let candidates ← rows.mapM (toScored E p)
  pure (candidates, candidates.head?.filter fun c => threshold ≤ c.fusedScore)

def OwnScore (hits : List (Hit F)) (id : String) (x : F) : Prop :=
  (∃ h ∈ hits, h.row.id = id ∧ h.score = x) ∨ ((∀ h ∈ hits, h.row.id ≠ id) ∧ x = 0.0)

structure WellRanked (maxCandidates : ℕ) (ftsRows vecRows : List (Hit F))
    (candidates : List (ScoredNeighbour F)) : Prop where
  few : candidates.length ≤ maxCandidates
  distinct : (candidates.map ScoredNeighbour.id).Nodup
  descending : candidates.Pairwise fun c d => d.fusedScore ≤ c.fusedScore
  vecScore : ∀ c ∈ candidates, OwnScore vecRows c.id c.vecScore
  ftsScore : ∀ c ∈ candidates, OwnScore ftsRows c.id c.ftsScore

/-- The entries after some hits of each search: one for each id, with scores of its own rows
only, and with a score noted from each search that has such a row. -/
structure Fused (seen : Branch → List (Hit F)) (slots : List (Slot F)) : Prop where
  nodup : (slots.map Slot.id).Nodup
  noted : ∀ s ∈ slots, ∀ b x, s.noted b = some x → ∃ h ∈ seen b, h.row.id = s.id ∧ h.score = x
  column : ∀ s ∈ slots, ∀ b x, s.column b = some x → ∃ h ∈ seen b, h.row.id = s.id ∧ h.score = x
  missing : ∀ s ∈ slots, ∀ b, s.noted b = none → ∀ h ∈ seen b, h.row.id ≠ s.id
  origin : ∀ s ∈ slots, ∃ b, ∃ h ∈ seen b, h.row.id = s.id
  made : ∀ b, ∀ h ∈ seen b, h.row.id ∈ slots.map Slot.id

omit [LinearOrder F] [Sub F] [Mul F] [Neg F] in
@[simp] theorem bump_id (b : Branch) (x : F) (k : ℕ) (s : Slot F) : (s.bump b x k).id = s.id := rfl

omit [LinearOrder F] [Sub F] [Mul F] [Neg F] in
@[simp] theorem bump_noted (b : Branch) (x : F) (k : ℕ) (s : Slot F) :
    (s.bump b x k).noted = Function.update s.noted b (some x) := rfl

omit [LinearOrder F] [Add F] [Sub F] [Mul F] [Div F] [Neg F] [NatCast F] in
@[simp] theorem newSlot_id (b : Branch) (h : Hit F) : (newSlot b h).id = h.row.id := rfl

omit [LinearOrder F] [Sub F] [Mul F] [Neg F] in
/-- Where an entry comes from: it stood there or was made for the row, and was bumped if it
has the row's id. -/
theorem mem_addHit {b : Branch} {slots : List (Slot F)} {h : Hit F} {k : ℕ} {s' : Slot F}
    (hs' : s' ∈ addHit b slots (h, k)) :
    (s' ∈ slots ∧ s'.id ≠ h.row.id) ∨
      ∃ s, (s ∈ slots ∨ (s = newSlot b h ∧ h.row.id ∉ slots.map Slot.id)) ∧ s.id = h.row.id ∧
        s' = s.bump b h.score k := by
  obtain ⟨s, hs, rfl⟩ := List.mem_map.mp hs'
  have horigin : s ∈ slots ∨ (s = newSlot b h ∧ h.row.id ∉ slots.map Slot.id) := by
    unfold RowMerge.insertNew at hs
    split at hs
    · exact .inl hs
    · next hnew =>
      rcases List.mem_append.mp hs with hs | hs
      · exact .inl hs
      · exact .inr ⟨List.mem_singleton.mp hs, hnew⟩
  dsimp only
  by_cases hid : s.id = h.row.id
  · rw [if_pos hid]
    exact .inr ⟨s, horigin, hid, rfl⟩
  · rw [if_neg hid]
    rcases horigin with hs | ⟨rfl, -⟩
    · exact .inl ⟨hs, hid⟩
    · exact absurd rfl hid

omit [LinearOrder F] [Sub F] [Mul F] [Neg F] in
theorem addHit_ids (b : Branch) (slots : List (Slot F)) (h : Hit F) (k : ℕ) :
    (addHit b slots (h, k)).map Slot.id =
      (RowMerge.insertNew Slot.id slots (newSlot b h)).map Slot.id := by
  unfold addHit
  rw [List.map_map]
  refine List.map_congr_left ?_
  intro s _
  simp only [Function.comp]
  split <;> rfl

omit [LinearOrder F] [Add F] [Sub F] [Mul F] [Div F] [Neg F] [NatCast F]
  [OfScientific F] in
theorem mem_update_append {seen : Branch → List (Hit F)} {b b' : Branch} {h g : Hit F} :
    g ∈ Function.update seen b (seen b ++ [h]) b' ↔ g ∈ seen b' ∨ b' = b ∧ g = h := by
  by_cases hb : b' = b
  · subst hb
    rw [Function.update_self, List.mem_append, List.mem_singleton]
    simp
  · rw [Function.update_of_ne hb]
    simp [hb]

omit [LinearOrder F] [Sub F] [Mul F] [Neg F] in
theorem Fused.add {seen : Branch → List (Hit F)} {slots : List (Slot F)} (hf : Fused seen slots)
    (b : Branch) (h : Hit F) (k : ℕ) :
    Fused (Function.update seen b (seen b ++ [h])) (addHit b slots (h, k)) := by
  have hseen : ∀ b', ∀ g ∈ seen b', g ∈ Function.update seen b (seen b ++ [h]) b' :=
    fun b' g hg => mem_update_append.mpr (.inl hg)
  have hlast : h ∈ Function.update seen b (seen b ++ [h]) b :=
    mem_update_append.mpr (.inr ⟨rfl, rfl⟩)
  refine ⟨?_, ?_, ?_, ?_, ?_, ?_⟩
  · rw [addHit_ids]
    exact RowMerge.insertNew_nodup hf.nodup
  · intro s' hs' b' x hx
    rcases mem_addHit hs' with ⟨hs, -⟩ | ⟨s, horigin, hid, rfl⟩
    · obtain ⟨g, hg, hrest⟩ := hf.noted s' hs b' x hx
      exact ⟨g, hseen b' g hg, hrest⟩
    · by_cases hb : b' = b
      · subst hb
        rw [bump_noted, Function.update_self] at hx
        exact ⟨h, hlast, hid.symm, Option.some.inj hx⟩
      · rw [bump_noted, Function.update_of_ne hb] at hx
        rcases horigin with hs | ⟨rfl, -⟩
        · obtain ⟨g, hg, hrest⟩ := hf.noted s hs b' x hx
          exact ⟨g, hseen b' g hg, hrest⟩
        · cases hx
  · intro s' hs' b' x hx
    rcases mem_addHit hs' with ⟨hs, -⟩ | ⟨s, hs | ⟨rfl, -⟩, hid, rfl⟩
    · obtain ⟨g, hg, hrest⟩ := hf.column s' hs b' x hx
      exact ⟨g, hseen b' g hg, hrest⟩
    · obtain ⟨g, hg, hrest⟩ := hf.column s hs b' x hx
      exact ⟨g, hseen b' g hg, hrest⟩
    · by_cases hb : b' = b
      · subst hb
        exact ⟨h, hlast, rfl, by simpa [Slot.bump, newSlot] using hx⟩
      · simp [Slot.bump, newSlot, hb] at hx
  · intro s' hs' b' hnone g hg
    rcases mem_addHit hs' with ⟨hs, hne⟩ | ⟨s, horigin, hid, rfl⟩
    · rcases mem_update_append.mp hg with hg | ⟨rfl, rfl⟩
      · exact hf.missing s' hs b' hnone g hg
      · exact hne.symm
    · by_cases hb : b' = b
      · subst hb
        rw [bump_noted, Function.update_self] at hnone
        cases hnone
      · rw [bump_noted, Function.update_of_ne hb] at hnone
        have hg : g ∈ seen b' := (mem_update_append.mp hg).resolve_right fun h => hb h.1
        rcases horigin with hs | ⟨rfl, hnew⟩
        · exact hf.missing s hs b' hnone g hg
        · intro heq
          have hmade := hf.made b' g hg
          rw [heq] at hmade
          exact hnew hmade
  · intro s' hs'
    rcases mem_addHit hs' with ⟨hs, -⟩ | ⟨s, -, hid, rfl⟩
    · obtain ⟨b', g, hg, hrest⟩ := hf.origin s' hs
      exact ⟨b', g, hseen b' g hg, hrest⟩
    · exact ⟨b, h, hlast, hid.symm⟩
  · intro b' g hg
    rw [addHit_ids, RowMerge.mem_keys_insertNew]
    rcases mem_update_append.mp hg with hg | ⟨-, rfl⟩
    · exact .inl (hf.made b' g hg)
    · exact .inr rfl

omit [LinearOrder F] [Sub F] [Mul F] [Neg F] in
theorem Fused.addAll {seen : Branch → List (Hit F)} {slots : List (Slot F)} (hf : Fused seen slots)
    (b : Branch) (hits : List (Hit F)) (n : ℕ) :
    Fused (Function.update seen b (seen b ++ hits)) ((hits.zipIdx n).foldl (addHit b) slots) := by
  induction hits generalizing seen slots n with
  | nil => simpa using hf
  | cons h hits ih =>
    have hstep := ih (hf.add b h n) (n + 1)
    rw [Function.update_self, Function.update_idem, List.append_assoc] at hstep
    exact hstep

def bothSearches (ftsRows vecRows : List (Hit F)) : Branch → List (Hit F)
  | .fts => ftsRows
  | .vec => vecRows

omit [Sub F] [Mul F] [Neg F] in
theorem fuseRrf_fused (ftsRows vecRows : List (Hit F)) :
    Fused (bothSearches ftsRows vecRows) (fuseRrf ftsRows vecRows) := by
  have hempty : Fused (fun _ => []) ([] : List (Slot F)) :=
    ⟨List.nodup_nil, by simp, by simp, by simp, by simp, by simp⟩
  have hall : Fused (bothSearches ftsRows vecRows)
      (addBranch .vec vecRows (addBranch .fts ftsRows [])) := by
    unfold addBranch
    convert (hempty.addAll .fts ftsRows 1).addAll .vec vecRows 1 using 1
    funext b
    cases b <;> simp [bothSearches]
  have hperm := byDescending_perm Slot.fused (addBranch .vec vecRows (addBranch .fts ftsRows []))
  refine ⟨(hperm.map Slot.id).nodup_iff.mpr hall.nodup, ?_, ?_, ?_, ?_, ?_⟩
  · exact fun s hs => hall.noted s (mem_byDescending.mp hs)
  · exact fun s hs => hall.column s (mem_byDescending.mp hs)
  · exact fun s hs => hall.missing s (mem_byDescending.mp hs)
  · exact fun s hs => hall.origin s (mem_byDescending.mp hs)
  · exact fun b h hh => ((hperm.map Slot.id).mem_iff).mpr (hall.made b h hh)

omit [Add F] [Sub F] [Mul F] [Div F] [Neg F] [NatCast F] in
theorem Fused.ownScore {seen : Branch → List (Hit F)} {slots : List (Slot F)} {s : Slot F}
    (hf : Fused seen slots) (hs : s ∈ slots) (b : Branch) : OwnScore (seen b) s.id (s.score b) := by
  unfold Slot.score orElse
  cases hnoted : s.noted b with
  | none =>
    cases hcolumn : s.column b with
    | none => exact .inr ⟨hf.missing s hs b hnoted, rfl⟩
    | some y =>
      obtain ⟨h, hh, hid, -⟩ := hf.column s hs b y hcolumn
      exact absurd hid (hf.missing s hs b hnoted h hh)
  | some x =>
    have hx := hf.noted s hs b x hnoted
    dsimp only
    split
    · next hzero =>
      subst hzero
      cases hcolumn : s.column b with
      | none => exact .inl hx
      | some y =>
        dsimp only
        split
        · exact .inl hx
        · exact .inl (hf.column s hs b y hcolumn)
    · exact .inl hx

theorem dedupByTitle_sublist (E : Env F) (seen : List String) (rows : List (Slot F)) :
    (dedupByTitle E seen rows).Sublist rows := by
  induction rows generalizing seen with
  | nil => exact List.Sublist.slnil
  | cons s rest ih =>
    unfold dedupByTitle
    dsimp only
    split
    · exact (ih seen).cons_cons s
    · split
      · exact (ih seen).cons s
      · exact (ih _).cons_cons s

theorem head?_dedupByTitle (E : Env F) (rows : List (Slot F)) :
    (dedupByTitle E [] rows).head? = rows.head? := by
  cases rows with
  | nil => rfl
  | cons s rest =>
    unfold dedupByTitle
    dsimp only
    split
    · rfl
    · rw [if_neg List.not_mem_nil]
      rfl

theorem topRows_sublist (E : Env F) (p : Probe) (n : ℕ) (ftsRows vecRows : List (Hit F)) :
    (topRows E p n ftsRows vecRows).Sublist (rerank E p (floored ftsRows vecRows)) :=
  (List.take_sublist _ _).trans (dedupByTitle_sublist E [] _)

theorem mem_fuseRrf_of_topRows {E : Env F} {p : Probe} {n : ℕ} {ftsRows vecRows : List (Hit F)}
    {s : Slot F} (h : s ∈ topRows E p n ftsRows vecRows) : s ∈ fuseRrf ftsRows vecRows :=
  (List.mem_filter.mp (mem_byDescending.mp ((topRows_sublist E p n ftsRows vecRows).mem h))).1

/-- Where the vector search returns no negative cosine, no row to be returned carries one. -/
theorem cosines_of_hits {E : Env F} {p : Probe} {n : ℕ} {ftsRows vecRows : List (Hit F)}
    (h : ∀ g ∈ vecRows, 0.0 ≤ g.score) :
    ∀ s ∈ topRows E p n ftsRows vecRows, 0.0 ≤ s.score .vec := by
  intro s hs
  rcases (fuseRrf_fused ftsRows vecRows).ownScore (mem_fuseRrf_of_topRows hs) .vec with
    ⟨g, hg, -, hscore⟩ | ⟨-, hzero⟩
  · rw [← hscore]
    exact h g hg
  · rw [hzero]

def scored (E : Env F) (p : Probe) (s : Slot F) : ScoredNeighbour F :=
  ⟨s.id, s.row, s.score .vec, s.score .fts, rerankScore E p s⟩

theorem toScored_eq_ok_iff {E : Env F} {p : Probe} {s : Slot F} {c : ScoredNeighbour F} :
    toScored E p s = .ok c ↔
      c = scored E p s ∧ (0.0 ≤ s.score .vec ∧ s.score .vec ≤ 1.0) ∧ 0.0 ≤ s.score .fts := by
  obtain ⟨hpos, hone⟩ := E.squash_unit (s.fused + boost E p s.row)
  have hfused : orElse (some (rerankScore E p s)) (orElse (some s.fused) 0.0) =
      rerankScore E p s := if_neg hpos.ne'
  unfold toScored
  dsimp only
  rw [hfused]
  by_cases hvec : 0.0 ≤ s.score .vec ∧ s.score .vec ≤ 1.0
  · by_cases hfts : 0.0 ≤ s.score .fts
    · have hunit : 0.0 ≤ rerankScore E p s ∧ rerankScore E p s ≤ 1.0 := ⟨hpos.le, hone⟩
      rw [if_neg (not_not.mpr hvec), if_neg (not_not.mpr hfts), if_neg (not_not.mpr hunit)]
      simp [hvec, hfts, scored, eq_comm]
    · rw [if_neg (not_not.mpr hvec), if_pos hfts]
      simp [hfts]
  · rw [if_pos hvec]
    simp [hvec]

/-- The conversion succeeds exactly when no score is out of bounds, and then row by row. -/
theorem mapM_toScored_eq_ok_iff {E : Env F} {p : Probe} {rows : List (Slot F)}
    {cs : List (ScoredNeighbour F)} :
    rows.mapM (toScored E p) = .ok cs ↔
      cs = rows.map (scored E p) ∧
        ∀ s ∈ rows, (0.0 ≤ s.score .vec ∧ s.score .vec ≤ 1.0) ∧ 0.0 ≤ s.score .fts := by
  rw [ExceptLoops.mapM_eq_ok]
  induction rows generalizing cs with
  | nil => simp
  | cons s rest ih =>
    constructor
    · intro h
      cases h with
      | cons hone hrest =>
        obtain ⟨rfl, hs⟩ := toScored_eq_ok_iff.mp hone
        obtain ⟨rfl, hall⟩ := ih.mp hrest
        exact ⟨rfl, List.forall_mem_cons.mpr ⟨hs, hall⟩⟩
    · rintro ⟨rfl, hall⟩
      obtain ⟨hs, hrest⟩ := List.forall_mem_cons.mp hall
      exact .cons (toScored_eq_ok_iff.mpr ⟨rfl, hs⟩) (ih.mpr ⟨rfl, hrest⟩)

omit [LinearOrder F] [Add F] [Sub F] [Mul F] [Div F] [Neg F] [NatCast F] [OfScientific F] in
theorem vectorRows_subset {p : Probe} {embed : Embedding F} {vecRows : List (Hit F)} {h : Hit F}
    (hh : h ∈ vectorRows p embed vecRows) : h ∈ vecRows := by
  unfold vectorRows at hh
  split at hh
  · split at hh
    · cases hh
    · exact hh
  · cases hh

/-- The search converts its rows unless one of them carries a negative cosine, and looks at
the first of them. -/
theorem searchSimilar_eq_ok_iff {E : Env F} {p : Probe} {embed : Embedding F} {threshold : F}
    {maxCandidates : ℕ} {ftsRows vecRows : List (Hit F)} {candidates : List (ScoredNeighbour F)}
    {topMatch : Option (ScoredNeighbour F)} (hfts : ∀ h ∈ ftsRows, 0.0 ≤ h.score)
    (hvec : ∀ h ∈ vecRows, -1.0 ≤ h.score ∧ h.score ≤ 1.0) :
    searchSimilar E p embed threshold maxCandidates ftsRows vecRows = .ok (candidates, topMatch) ↔
      (∀ s ∈ topRows E p maxCandidates ftsRows (vectorRows p embed vecRows),
        0.0 ≤ s.score .vec) ∧
      candidates =
        (topRows E p maxCandidates ftsRows (vectorRows p embed vecRows)).map (scored E p) ∧
      topMatch = candidates.head?.filter fun c => threshold ≤ c.fusedScore := by
  constructor
  · intro h
    obtain ⟨cs, hcs, h⟩ := ExceptLoops.bind_eq_ok.mp h
    cases h
    obtain ⟨rfl, hall⟩ := mapM_toScored_eq_ok_iff.mp hcs
    exact ⟨fun s hs => (hall s hs).1.1, rfl, rfl⟩
  · rintro ⟨hpos, rfl, rfl⟩
    refine ExceptLoops.bind_eq_ok.mpr ⟨_, mapM_toScored_eq_ok_iff.mpr ⟨rfl, ?_⟩, rfl⟩
    intro s hs
    have hown := (fuseRrf_fused ftsRows (vectorRows p embed vecRows)).ownScore
      (mem_fuseRrf_of_topRows hs)
    refine ⟨⟨hpos s hs, ?_⟩, ?_⟩
    · rcases hown .vec with ⟨h, hh, -, hscore⟩ | ⟨-, hzero⟩
      · rw [← hscore]
        exact (hvec h (vectorRows_subset hh)).2
      · rw [hzero]
        exact E.zero_le_one
    · rcases hown .fts with ⟨h, hh, -, hscore⟩ | ⟨-, hzero⟩
      · rw [← hscore]
        exact hfts h hh
      · rw [hzero]

theorem head?_topRows (E : Env F) (p : Probe) {maxCandidates : ℕ} (hmax : 0 < maxCandidates)
    (ftsRows vecRows : List (Hit F)) :
    (topRows E p maxCandidates ftsRows vecRows).head? =
      (floored ftsRows vecRows).argmax (rerankScore E p) := by
  unfold topRows
  rw [List.head?_take, if_neg (by omega), head?_dedupByTitle, rerank, head?_byDescending]

theorem topRows_wellRanked (E : Env F) (p : Probe) (maxCandidates : ℕ)
    (ftsRows vecRows : List (Hit F)) :
    WellRanked maxCandidates ftsRows vecRows
      ((topRows E p maxCandidates ftsRows vecRows).map (scored E p)) := by
  have hown := fuseRrf_fused ftsRows vecRows
  have hsub := topRows_sublist E p maxCandidates ftsRows vecRows
  refine ⟨?_, ?_, ?_, ?_, ?_⟩
  · rw [List.length_map]
    exact List.length_take_le _ _
  · have hids : ((rerank E p (floored ftsRows vecRows)).map Slot.id).Nodup :=
      ((byDescending_perm _ _).map Slot.id).nodup_iff.mpr
        (hown.nodup.sublist (List.filter_sublist.map Slot.id))
    rw [List.map_map]
    exact hids.sublist (hsub.map Slot.id)
  · rw [List.pairwise_map]
    exact (byDescending_pairwise _ _).sublist hsub
  · intro c hc
    obtain ⟨s, hs, rfl⟩ := List.mem_map.mp hc
    exact hown.ownScore (mem_fuseRrf_of_topRows hs) .vec
  · intro c hc
    obtain ⟨s, hs, rfl⟩ := List.mem_map.mp hc
    exact hown.ownScore (mem_fuseRrf_of_topRows hs) .fts

/-- Whatever the embedding does, and for every rows in the range of their scores, the search
returns distinct candidates by descending score with the scores of their own rows, exactly
when none of the rows to be returned carries a negative cosine. -/
theorem search_well_ranked_iff (E : Env F) (p : Probe) (embed : Embedding F) (threshold : F)
    (maxCandidates : ℕ) {ftsRows vecRows : List (Hit F)}
    (hfts : ∀ h ∈ ftsRows, 0.0 ≤ h.score)
    (hvec : ∀ h ∈ vecRows, -1.0 ≤ h.score ∧ h.score ≤ 1.0) :
    (∃ candidates topMatch,
        searchSimilar E p embed threshold maxCandidates ftsRows vecRows =
          .ok (candidates, topMatch) ∧
        WellRanked maxCandidates ftsRows (vectorRows p embed vecRows) candidates) ↔
      ∀ s ∈ topRows E p maxCandidates ftsRows (vectorRows p embed vecRows),
        0.0 ≤ s.score .vec := by
  constructor
  · rintro ⟨candidates, topMatch, h, -⟩
    exact ((searchSimilar_eq_ok_iff hfts hvec).mp h).1
  · intro hpos
    exact ⟨_, _, (searchSimilar_eq_ok_iff hfts hvec).mpr ⟨hpos, rfl, rfl⟩,
      topRows_wellRanked E p maxCandidates ftsRows _⟩

end Engine

noncomputable def realEnv (now : ℤ) (ageFilterDays : ℕ) : Env ℝ where
  lower s := String.ofList (s.toList.map Char.toLower)
  isDigit := Char.isDigit
  seconds n := n
  exp := Real.exp
  now := now
  ageFilterDays := ageFilterDays
  zero_le_one := by norm_num
  squash_unit x := by
    have hpos := Real.exp_pos (-12.0 * (x - 0.05))
    norm_num at hpos ⊢
    constructor
    · positivity
    · rw [inv_le_one₀ (by positivity)]
      linarith

def lonelyRow (id : String) : TicketRow := ⟨id, some "VPN drops", none, none, none⟩

def twinRow (id : String) : TicketRow := ⟨id, some id, some "CI0000001", some "VPN", some 0⟩

def lonelyProbe : Probe := ⟨none, none, "VPN drops"⟩

noncomputable def loneSlot (b : Branch) (h : Hit ℝ) : Slot ℝ := (newSlot b h).bump b h.score 1

theorem addHit_nil (b : Branch) (h : Hit ℝ) : addHit b [] (h, 1) = [loneSlot b h] := by
  have hnew : RowMerge.insertNew Slot.id [] (newSlot b h) = [newSlot b h] :=
    RowMerge.insertNew_new (by simp)
  unfold addHit
  rw [hnew, List.map_singleton, if_pos (newSlot_id b h)]
  rfl

theorem loneSlot_fused (b : Branch) (h : Hit ℝ) : (loneSlot b h).fused = 1 / 61 := by
  simp only [loneSlot, Slot.bump, newSlot, rrfK]
  norm_num

theorem dedupByTitle_singleton (E : Env ℝ) (s : Slot ℝ) : dedupByTitle E [] [s] = [s] := by
  unfold dedupByTitle
  dsimp only
  split
  · rfl
  · rw [if_neg List.not_mem_nil]
    rfl

theorem topRows_lone (E : Env ℝ) (p : Probe) (n : ℕ) {b : Branch} {h : Hit ℝ}
    {ftsRows vecRows : List (Hit ℝ)} (hfused : fuseRrf ftsRows vecRows = [loneSlot b h]) :
    topRows E p (n + 1) ftsRows vecRows = [loneSlot b h] := by
  have hfloor : (minFusedScore : ℝ) ≤ (loneSlot b h).fused := by
    rw [loneSlot_fused, minFusedScore]
    norm_num
  have hfloored : floored ftsRows vecRows = [loneSlot b h] := by
    unfold floored
    rw [hfused, List.filter_cons_of_pos (by simpa using hfloor), List.filter_nil]
  unfold topRows
  rw [hfloored]
  change (dedupByTitle E [] [loneSlot b h]).take (n + 1) = _
  rw [dedupByTitle_singleton, List.take_succ_cons, List.take_nil]

theorem fuseRrf_fts_only (h : Hit ℝ) : fuseRrf [h] [] = [loneSlot .fts h] := by
  change byDescending Slot.fused (addHit .fts [] (h, 1)) = _
  rw [addHit_nil]
  rfl

theorem fuseRrf_vec_only (h : Hit ℝ) : fuseRrf [] [h] = [loneSlot .vec h] := by
  change byDescending Slot.fused (addHit .vec [] (h, 1)) = _
  rw [addHit_nil]
  rfl

noncomputable def vpnMatches : List (Hit ℝ) :=
  [⟨twinRow "INC0000002", 0.8⟩, ⟨lonelyRow "INC0000003", 0.3⟩]

noncomputable def vpnNeighbours : List (Hit ℝ) :=
  [⟨lonelyRow "INC0000003", 0.9⟩, ⟨twinRow "INC0000002", 0.6⟩, ⟨twinRow "INC0000004", 0.2⟩]

theorem vpnMatches_range : ∀ h ∈ vpnMatches, (0.0 : ℝ) ≤ h.score := by
  simp only [vpnMatches, List.forall_mem_cons]
  norm_num

theorem vpnNeighbours_range : ∀ h ∈ vpnNeighbours, (0.0 : ℝ) ≤ h.score ∧ h.score ≤ 1.0 := by
  simp only [vpnNeighbours, List.forall_mem_cons]
  norm_num

theorem vpnNeighbours_cosines : ∀ h ∈ vpnNeighbours, (-1.0 : ℝ) ≤ h.score ∧ h.score ≤ 1.0 :=
  fun h hh => ⟨le_trans (by norm_num) (vpnNeighbours_range h hh).1, (vpnNeighbours_range h hh).2⟩

theorem vectorRows_returned (x : ℝ) (rows : List (Hit ℝ)) :
    vectorRows lonelyProbe (.returned [x]) rows = rows := by
  have htext : strip lonelyProbe.text ≠ "" := by decide
  simp only [vectorRows, if_neg htext]

/-- Two searches that share two of their three tickets. -/
theorem vpn_matches_well_ranked :
    (∀ h ∈ vpnMatches, (0.0 : ℝ) ≤ h.score) ∧
    (∀ h ∈ vpnNeighbours, (-1.0 : ℝ) ≤ h.score ∧ h.score ≤ 1.0) ∧
    ∃ candidates topMatch,
      searchSimilar (realEnv 0 365) lonelyProbe (.returned [1]) 0.85 5 vpnMatches vpnNeighbours =
        .ok (candidates, topMatch) ∧
      WellRanked 5 vpnMatches (vectorRows lonelyProbe (.returned [1]) vpnNeighbours)
        candidates := by
  refine ⟨vpnMatches_range, vpnNeighbours_cosines, (search_well_ranked_iff (realEnv 0 365)
    lonelyProbe (.returned [1]) 0.85 5 vpnMatches_range vpnNeighbours_cosines).mpr ?_⟩
  rw [vectorRows_returned]
  exact cosines_of_hits fun h hh => (vpnNeighbours_range h hh).1

/-- A single neighbour that points away from the probe has a negative cosine, which the
contract type refuses. -/
theorem negative_cosine_raises :
    (∀ h ∈ [(⟨lonelyRow "INC0000002", -0.2⟩ : Hit ℝ)], (-1.0 : ℝ) ≤ h.score ∧ h.score ≤ 1.0) ∧
    ¬ ∃ candidates topMatch,
      searchSimilar (realEnv 0 365) lonelyProbe (.returned [1]) 0.85 5 []
        [⟨lonelyRow "INC0000002", -0.2⟩] = .ok (candidates, topMatch) ∧
      WellRanked 5 [] (vectorRows lonelyProbe (.returned [1])
        [⟨lonelyRow "INC0000002", -0.2⟩]) candidates := by
  constructor
  · intro h hh
    rw [List.mem_singleton.mp hh]
    norm_num
  · rintro ⟨candidates, topMatch, h, -⟩
    obtain ⟨cs, hcs, -⟩ := ExceptLoops.bind_eq_ok.mp h
    rw [vectorRows_returned, topRows_lone _ _ _ (fuseRrf_vec_only _)] at hcs
    have hneg := ((mapM_toScored_eq_ok_iff.mp hcs).2 _ List.mem_cons_self).1.1
    have hscore : (loneSlot .vec ⟨lonelyRow "INC0000002", -0.2⟩).score .vec = -0.2 := by
      simp only [loneSlot, Slot.score, bump_noted, Function.update_self, orElse]
      rw [if_neg (by norm_num)]
    rw [hscore] at hneg
    norm_num at hneg

end TriageSimilarity
