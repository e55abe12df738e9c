import Mathlib.Data.List.MinMax
import Mathlib.Data.List.Sort
import Mathlib.Algebra.Order.Field.Rat
import Mathlib.Algebra.Order.Ring.Cast
import OneOps.ExceptLoops
import OneOps.PythonJson
import OneOps.PythonText

/-! Field suggestions of triage. Each target column is put to the vote of the similar
tickets; a language model may break a split vote, fill in where nobody voted, and override a
weak result. Its answers are values of any kind. -/
namespace TriageSuggestions

open PythonJson
open RowMerge (upsert)
open PythonText (strip)

inductive SuggestionBasis where
  | majorityOfTopK
  | llmTiebreak
  | llmPropose
  | belowCoverage
  | emptyNeighbours
  | belowConfidenceFloor
  deriving DecidableEq, Repr

structure FieldSuggestion (F : Type) where
  value : Option String
  confidence : F
  coverage : F
  diversity : ℕ
  basisIds : List String
  basis : SuggestionBasis
  rationale : String

inductive Raised where
  | keyError (key : String)
  | typeError
  | validationError
  | other (name : String)
  deriving DecidableEq, Repr

/-- A similar ticket; a missing column reads as `None`. -/
structure Neighbour where
  id : String
  fields : String → Value

def proposeAllowedFields : List String := ["category", "subcategory", "assignment_group"]

/-- What `propose_fn` returned, as far as it is looked at: its truth, its items, and the text
of `get("rationale", "")`. -/
structure Reply where
  truthy : Bool
  item : String → Except Raised Value
  rationale : Except Raised String

def truth : Value → Bool
  | .null => false
  | .bool b => b
  | .int n => n ≠ 0
  | .float repr => repr ≠ "0.0" ∧ repr ≠ "-0.0"
  | .str s => s ≠ ""
  | .list xs => ¬ xs.isEmpty
  | .tuple xs => ¬ xs.isEmpty
  | .dict items => ¬ items.isEmpty
  | .object _ => true

def Reply.ofValue (str : Value → String) (v : Value) : Reply where
  truthy := truth v
  item key :=
    match v with
    | .dict items => ((items.find? fun item => item.1 = .str key).map Prod.snd).elim
        (.error (.keyError key)) .ok
    | _ => .error .typeError
  rationale :=
    match v with
    | .dict items => .ok (str (((items.find? fun item => item.1 = .str "rationale").map
        Prod.snd).getD (.str "")))
    | _ => .error (.other "AttributeError")

inductive Outcome where
  | raised
  | returned (r : Reply)

def safePropose : Outcome → Option Reply
  | .raised => none
  | .returned r => if r.truthy then some r else none

structure Proposer where
  fallback : ℕ → Outcome
  override : String → Outcome

/-- The callbacks, where they are given. A tiebreak counts for the text that it returns, at the
i-th target, if it returns one. -/
structure Callbacks where
  tiebreak : Option (ℕ → Option String)
  propose : Option Proposer

/-- Numbers as the process computes with them: the quotient of two counts, its text, what the
contract type takes for a text or a number, and Python's `>` of a value and a float. -/
structure Numbers (F : Type) [LinearOrder F] [Zero F] [One F] where
  share : ℕ → ℕ → F
  format : F → String
  str : Value → String
  text : Value → Option (Option String)
  number : Value → Option F
  greater : Value → F → Except Raised Bool
  zero_le_one : (0 : F) ≤ 1
  share_unit : ∀ {a b : ℕ}, a ≤ b → 0 < b → 0 ≤ share a b ∧ share a b ≤ 1
  greater_number : ∀ {v : Value} {x y : F}, greater v x = .ok true → number v = some y → x < y

section Suggestions

variable {F : Type} [LinearOrder F] [Zero F] [One F] [OfScientific F]

def fieldSuggestion (value : Option String) (confidence coverage : F) (diversity : ℕ)
    (basisIds : List String) (basis : SuggestionBasis) (rationale : String) :
    Except Raised (FieldSuggestion F) :=
  if (0 ≤ confidence ∧ confidence ≤ 1) ∧ 0 ≤ coverage ∧ coverage ≤ 1 then
    .ok ⟨value, confidence, coverage, diversity, basisIds, basis, rationale⟩
  else .error .validationError

def proposedSuggestion (N : Numbers F) (r : Reply) (coverage : F) (diversity : ℕ)
    (lead : String) : Except Raised (FieldSuggestion F) := do
  let value ← r.item "value"
  let confidence ← r.item "confidence"
  let why ← r.rationale
  match N.text value, N.number confidence with
  | some v, some c =>
    fieldSuggestion v c coverage diversity [] .llmPropose
      (lead ++ "LLM proposed '" ++ N.str value ++ "' (" ++ why ++ ")")
  | _, _ => .error .validationError

def votes (candidates : List Neighbour) (col : String) : List (String × String) :=
  candidates.filterMap fun c =>
    match c.fields col with
    | .str v => if strip v = "" then none else some (v, c.id)
    | _ => none

def mostCommon (values : List String) : List (String × ℕ) :=
  (values.eraseDups.map fun v => (v, values.count v)).insertionSort fun a b => b.2 ≤ a.2

def summary (values : List String) : String :=
  ", ".intercalate (((mostCommon values).take 3).map fun p => p.1 ++ "=" ++ toString p.2)

def idsOf (vs : List (String × String)) (value : String) : List String :=
  (vs.filter fun p => p.1 = value).map Prod.snd

def suggestWhenNoVotes (N : Numbers F) (propose : Option Proposer) (i : ℕ) (col : String) :
    Except Raised (FieldSuggestion F) :=
  let empty := fieldSuggestion none 0 0 0 [] .emptyNeighbours
    ("No similar tickets had a " ++ col ++ " value to vote on.")
  match propose with
  | none => empty
  | some p =>
    if col ∈ proposeAllowedFields then
      match safePropose (p.fallback i) with
      | none => empty
      | some r => proposedSuggestion N r 0 0 ("No similar tickets had a " ++ col ++ " value; ")
    else empty

/-- `_try_llm_tiebreak`: a split vote with enough behind it is put to the tiebreak, whose
choice has to be one of the values. -/
def tryLlmTiebreak (N : Numbers F) (tiebreak : Option (ℕ → Option String)) (i : ℕ)
    (vs : List (String × String)) (confidence coverage : F) (diversity : ℕ) :
    Except Raised (Option (FieldSuggestion F)) :=
  match tiebreak with
  | none => .ok none
  | some choose =>
    if confidence < 0.60 ∧ ¬ coverage < 0.40 ∧ 2 ≤ diversity then
      match (choose i).map strip with
      | none => .ok none
      | some chosen =>
        if chosen ∈ vs.map Prod.fst then do
          let s ← fieldSuggestion (some chosen)
            (N.share ((vs.map Prod.fst).count chosen) vs.length) coverage diversity
            (idsOf vs chosen) .llmTiebreak
            ("kNN vote was split (" ++ summary (vs.map Prod.fst) ++
              "); LLM read the ticket description and chose '" ++ chosen ++
              "' as the best semantic fit.")
          pure (some s)
        else .ok none
    else .ok none

def majority (N : Numbers F) (tiebroken : Bool) (vs : List (String × String)) (winner : String)
    (totalK : ℕ) (coverage : F) (diversity : ℕ) : Except Raised (FieldSuggestion F) :=
  let winnerCount := (vs.map Prod.fst).count winner
  let confidence := N.share winnerCount vs.length
  let plurality : Bool := confidence < 0.60 ∧ ¬ tiebroken
  fieldSuggestion (some winner) confidence coverage diversity (idsOf vs winner)
    (if plurality then .belowConfidenceFloor else .majorityOfTopK)
    (if plurality then
      "kNN vote split (" ++ summary (vs.map Prod.fst) ++ "); top value '" ++ winner ++
        "' chosen by plurality. Consider human review."
    else toString winnerCount ++ " of " ++ toString totalK ++ " similar tickets are '" ++ winner ++
      "'.")

def suggestForField (N : Numbers F) (cb : Callbacks) (candidates : List Neighbour) (i : ℕ)
    (col : String) : Except Raised (FieldSuggestion F) :=
  let vs := votes candidates col
  match (vs.map Prod.fst).argmax fun v => (vs.map Prod.fst).count v with
  | none => suggestWhenNoVotes N cb.propose i col
  | some winner => do
    let coverage := N.share vs.length candidates.length
    let diversity := (vs.map Prod.fst).eraseDups.length
    let confidence := N.share ((vs.map Prod.fst).count winner) vs.length
    match ← tryLlmTiebreak N cb.tiebreak i vs confidence coverage diversity with
    | some s => pure s
    | none => majority N cb.tiebreak.isSome vs winner candidates.length coverage diversity

abbrev Suggestions (F : Type) := List (String × FieldSuggestion F)

def suggestEach (N : Numbers F) (cb : Callbacks) (candidates : List Neighbour) :
    ℕ → List String → Suggestions F → Except Raised (Suggestions F)
  | _, [], out => .ok out
  | i, col :: cols, out => do
    let s ← suggestForField N cb candidates i col
    suggestEach N cb candidates (i + 1) cols (upsert Prod.fst out (col, s))

def overrideWith (N : Numbers F) (r : Reply) (entry : String × FieldSuggestion F) :
    Except Raised (String × FieldSuggestion F) := do
  let confidence ← r.item "confidence"
  if ← N.greater confidence entry.2.confidence then
    let s ← proposedSuggestion N r entry.2.coverage entry.2.diversity
      ("kNN signal was weak (was '" ++ entry.2.value.getD "None" ++ "' at " ++
        N.format entry.2.confidence ++ "); ")
    pure (entry.1, s)
  else pure entry

def overrideOne (N : Numbers F) (p : Proposer) (entry : String × FieldSuggestion F) :
    Except Raised (String × FieldSuggestion F) :=
  if entry.1 ∈ proposeAllowedFields ∧ entry.2.confidence < 0.60 then
    match safePropose (p.override entry.1) with
    | none => .ok entry
    | some r => overrideWith N r entry
  else .ok entry

def applyProposeOverride (N : Numbers F) (p : Proposer) (out : Suggestions F) :
    Except Raised (Suggestions F) :=
  out.mapM (overrideOne N p)

def buildFieldSuggestions (N : Numbers F) (cb : Callbacks) (candidates : List Neighbour)
    (targets : List String) : Except Raised (Suggestions F) := do
  let out ← suggestEach N cb candidates 0 targets []
  match cb.propose with
  | none => pure out
  | some p => applyProposeOverride N p out

def holds (col value : String) (c : Neighbour) : Bool :=
  match c.fields col with
  | .str v => v = value
  | _ => false

def holders (candidates : List Neighbour) (col value : String) : List Neighbour :=
  candidates.filter (holds col value)

structure FieldSuggestion.InUnit (s : FieldSuggestion F) : Prop where
  confidence : 0 ≤ s.confidence ∧ s.confidence ≤ 1
  coverage : 0 ≤ s.coverage ∧ s.coverage ≤ 1

def Voted (N : Numbers F) (candidates : List Neighbour) (col : String) (s : FieldSuggestion F) :
    Prop :=
  ∃ v, s.value = some v ∧ holders candidates col v ≠ [] ∧
    s.basisIds = (holders candidates col v).map Neighbour.id ∧
    s.confidence = N.share (holders candidates col v).length (votes candidates col).length

/-- A suggestion for a column, where `prev` is what the first pass had suggested. -/
structure Grounded (N : Numbers F) (candidates : List Neighbour) (col : String)
    (prev s : FieldSuggestion F) : Prop where
  unit : s.InUnit
  voted : s.basis ≠ .llmPropose → s.basis ≠ .emptyNeighbours → Voted N candidates col s
  allowed : s.basis = .llmPropose → col ∈ proposeAllowedFields
  higher : s.basis = .llmPropose → votes candidates col ≠ [] →
    Voted N candidates col prev ∧ prev.confidence < s.confidence

/-- The call returns one suggestion for each target, all of them grounded. -/
structure SuggestsAll (N : Numbers F) (cb : Callbacks) (candidates : List Neighbour)
    (targets : List String) (first out : Suggestions F) : Prop where
  firstPass : suggestEach N cb candidates 0 targets [] = .ok first
  returned : buildFieldSuggestions N cb candidates targets = .ok out
  once : (out.map Prod.fst).Nodup
  targets : ∀ col, col ∈ out.map Prod.fst ↔ col ∈ targets
  grounded : ∀ col s, (col, s) ∈ out →
    ∃ prev, (col, prev) ∈ first ∧ Grounded N candidates col prev s

/-- A proposal with a value that is a text or `None` and a confidence between nought and one. -/
def Usable (N : Numbers F) (r : Reply) : Prop :=
  ∃ value confidence why v c, r.item "value" = .ok value ∧ r.item "confidence" = .ok confidence ∧
    r.rationale = .ok why ∧ N.text value = some v ∧ N.number confidence = some c ∧ 0 ≤ c ∧ c ≤ 1

def Comparable (N : Numbers F) (x : F) (r : Reply) : Prop :=
  ∃ confidence b, r.item "confidence" = .ok confidence ∧ N.greater confidence x = .ok b ∧
    (b = true → Usable N r)

/-- Every proposal that is something is usable where it fills in for missing votes, and
comparable where it is held against a weak result of the first pass. -/
structure ProposesWell (N : Numbers F) (cb : Callbacks) (candidates : List Neighbour)
    (targets : List String) (p : Proposer) : Prop where
  fallback : ∀ (i : ℕ) (col : String), targets[i]? = some col → votes candidates col = [] →
    col ∈ proposeAllowedFields → ∀ r, safePropose (p.fallback i) = some r → Usable N r
  override : ∀ first, suggestEach N cb candidates 0 targets [] = .ok first →
    ∀ col prev, (col, prev) ∈ first → col ∈ proposeAllowedFields → prev.confidence < 0.60 →
      ∀ r, safePropose (p.override col) = some r → Comparable N prev.confidence r

end Suggestions

theorem mem_votes {candidates : List Neighbour} {col v : String}
    (h : v ∈ (votes candidates col).map Prod.fst) :
    strip v ≠ "" ∧ holders candidates col v ≠ [] := by
  obtain ⟨⟨v', id⟩, hmem, rfl⟩ := List.mem_map.mp h
  obtain ⟨c, hc, hvote⟩ := List.mem_filterMap.mp hmem
  split at hvote
  · next w hw =>
    split at hvote
    · cases hvote
    · next hne =>
      cases hvote
      refine ⟨hne, List.ne_nil_of_mem (List.mem_filter.mpr ⟨hc, ?_⟩)⟩
      simp [holds, hw]
  · cases hvote

theorem filter_votes {v : String} (hv : strip v ≠ "") (candidates : List Neighbour)
    (col : String) :
    (votes candidates col).filter (fun p => p.1 = v) =
      (holders candidates col v).map fun c => (v, c.id) := by
  induction candidates with
  | nil => rfl
  | cons c cs ih =>
    unfold votes holders at ih ⊢
    rw [List.filterMap_cons, List.filter_cons]
    cases hfield : c.fields col with
    | str w =>
      by_cases hw : w = v
      · subst hw
        simp [hv, holds, hfield, ih]
      · by_cases hblank : strip w = ""
        · simp [hblank, holds, hfield, hw, ih]
        · simp [hblank, holds, hfield, hw, ih]
    | _ => simp [holds, hfield, ih]

theorem idsOf_votes {v : String} (hv : strip v ≠ "") (candidates : List Neighbour)
    (col : String) :
    idsOf (votes candidates col) v = (holders candidates col v).map Neighbour.id := by
  rw [idsOf, filter_votes hv, List.map_map]
  rfl

theorem count_votes {v : String} (hv : strip v ≠ "") (candidates : List Neighbour)
    (col : String) :
    ((votes candidates col).map Prod.fst).count v = (holders candidates col v).length := by
  have hfilter := congrArg List.length (filter_votes hv candidates col)
  rw [List.length_map] at hfilter
  rw [← hfilter, List.count, List.countP_map, List.countP_eq_length_filter]
  congr 1

theorem length_votes_le (candidates : List Neighbour) (col : String) :
    (votes candidates col).length ≤ candidates.length :=
  List.length_filterMap_le _ _

section Passes

variable {F : Type} [LinearOrder F] [Zero F] [One F] [OfScientific F]
variable {N : Numbers F} {cb : Callbacks} {candidates : List Neighbour} {i : ℕ} {col : String}
  {s : FieldSuggestion F}

omit [OfScientific F] in
theorem fieldSuggestion_eq_ok {value : Option String} {confidence coverage : F} {diversity : ℕ}
    {basisIds : List String} {basis : SuggestionBasis} {rationale : String} :
    fieldSuggestion value confidence coverage diversity basisIds basis rationale = .ok s ↔
      s = ⟨value, confidence, coverage, diversity, basisIds, basis, rationale⟩ ∧ s.InUnit := by
  unfold fieldSuggestion
  split
  · next h =>
    constructor
    · rintro ⟨⟩
      exact ⟨rfl, h.1, h.2⟩
    · rintro ⟨rfl, -⟩
      rfl
  · next h =>
    constructor
    · rintro ⟨⟩
    · rintro ⟨rfl, hu⟩
      exact absurd ⟨hu.confidence, hu.coverage⟩ h

omit [OfScientific F] in
theorem fieldSuggestion_of_vote (N : Numbers F) {v : String}
    (hv : v ∈ (votes candidates col).map Prod.fst) (diversity : ℕ) (basis : SuggestionBasis)
    (rationale : String) :
    ∃ s, fieldSuggestion (some v)
        (N.share (((votes candidates col).map Prod.fst).count v) (votes candidates col).length)
        (N.share (votes candidates col).length candidates.length) diversity
        (idsOf (votes candidates col) v) basis rationale = .ok s ∧
      s.InUnit ∧ Voted N candidates col s ∧ s.basis = basis := by
  obtain ⟨hne, hheld⟩ := mem_votes hv
  have hcount : ((votes candidates col).map Prod.fst).count v ≤ (votes candidates col).length := by
    rw [← List.length_map Prod.fst]
    exact List.count_le_length
  have hpos : 0 < (votes candidates col).length := by
    rw [← List.length_map Prod.fst]
    exact List.length_pos_of_mem hv
  have hlen := length_votes_le candidates col
  refine ⟨⟨_, _, _, _, _, _, _⟩, fieldSuggestion_eq_ok.mpr ⟨rfl, ?_⟩, ?_, ?_, rfl⟩
  · exact ⟨N.share_unit hcount hpos, N.share_unit hlen (by omega)⟩
  · exact ⟨N.share_unit hcount hpos, N.share_unit hlen (by omega)⟩
  · exact ⟨v, rfl, hheld, idsOf_votes hne _ _, by rw [count_votes hne]⟩

structure FirstPass (N : Numbers F) (candidates : List Neighbour) (col : String)
    (s : FieldSuggestion F) : Prop where
  unit : s.InUnit
  voted : votes candidates col ≠ [] →
    Voted N candidates col s ∧ s.basis ≠ .llmPropose ∧ s.basis ≠ .emptyNeighbours
  unvoted : votes candidates col = [] →
    s.basis = .emptyNeighbours ∨ (s.basis = .llmPropose ∧ col ∈ proposeAllowedFields)

theorem tryLlmTiebreak_ok (N : Numbers F) (tiebreak : Option (ℕ → Option String)) (i : ℕ)
    (candidates : List Neighbour) (col : String) (confidence : F) (diversity : ℕ) :
    ∃ choice, tryLlmTiebreak N tiebreak i (votes candidates col) confidence
        (N.share (votes candidates col).length candidates.length) diversity = .ok choice ∧
      ∀ s ∈ choice, s.InUnit ∧ Voted N candidates col s ∧ s.basis = .llmTiebreak := by
  unfold tryLlmTiebreak
  split
  · exact ⟨none, rfl, by simp⟩
  · split
    · split
      · exact ⟨none, rfl, by simp⟩
      · next chosen _ =>
        split
        · next hin =>
          obtain ⟨s, hs, hrest⟩ := fieldSuggestion_of_vote N hin diversity .llmTiebreak
            ("kNN vote was split (" ++ summary ((votes candidates col).map Prod.fst) ++
              "); LLM read the ticket description and chose '" ++ chosen ++
              "' as the best semantic fit.")
          exact ⟨some s, by rw [hs]; rfl, by simpa using hrest⟩
        · exact ⟨none, rfl, by simp⟩
    · exact ⟨none, rfl, by simp⟩

theorem suggestForField_of_votes (N : Numbers F) (cb : Callbacks) (i : ℕ)
    (h : votes candidates col ≠ []) :
    ∃ s, suggestForField N cb candidates i col = .ok s ∧ FirstPass N candidates col s := by
  unfold suggestForField
  cases hwinner : ((votes candidates col).map Prod.fst).argmax fun v =>
      ((votes candidates col).map Prod.fst).count v with
  | none =>
    rw [List.argmax_eq_none, List.map_eq_nil_iff] at hwinner
    exact absurd hwinner h
  | some winner =>
    obtain ⟨choice, hchoice, hspec⟩ := tryLlmTiebreak_ok N cb.tiebreak i candidates col
      (N.share (((votes candidates col).map Prod.fst).count winner) (votes candidates col).length)
      ((votes candidates col).map Prod.fst).eraseDups.length
    simp only [hwinner, hchoice, bind, Except.bind]
    cases choice with
    | some s =>
      obtain ⟨hunit, hvoted, hbasis⟩ := hspec s rfl
      exact ⟨s, rfl, hunit, fun _ => ⟨hvoted, by simp [hbasis], by simp [hbasis]⟩,
        fun hnil => absurd hnil h⟩
    | none =>
      unfold majority
      dsimp only
      obtain ⟨s, hs, hunit, hvoted, hbasis⟩ := fieldSuggestion_of_vote N (List.argmax_mem hwinner)
        ((votes candidates col).map Prod.fst).eraseDups.length _ _
      refine ⟨s, hs, hunit, fun _ => ⟨hvoted, ?_⟩, fun hnil => absurd hnil h⟩
      rw [hbasis]
      split <;> simp

omit [OfScientific F] in
theorem proposedSuggestion_eq_ok {r : Reply} {coverage : F} {diversity : ℕ} {lead : String} :
    proposedSuggestion N r coverage diversity lead = .ok s ↔
      ∃ value confidence why v c, r.item "value" = .ok value ∧
        r.item "confidence" = .ok confidence ∧ r.rationale = .ok why ∧ N.text value = some v ∧
        N.number confidence = some c ∧
        s = ⟨v, c, coverage, diversity, [], .llmPropose,
          lead ++ "LLM proposed '" ++ N.str value ++ "' (" ++ why ++ ")"⟩ ∧ s.InUnit := by
  unfold proposedSuggestion
  constructor
  · intro h
    obtain ⟨value, hvalue, h⟩ := ExceptLoops.bind_eq_ok.mp h
    obtain ⟨confidence, hconfidence, h⟩ := ExceptLoops.bind_eq_ok.mp h
    obtain ⟨why, hwhy, h⟩ := ExceptLoops.bind_eq_ok.mp h
    split at h
    · next v c hv hc =>
      exact ⟨value, confidence, why, v, c, hvalue, hconfidence, hwhy, hv, hc,
        fieldSuggestion_eq_ok.mp h⟩
    · cases h
  · rintro ⟨value, confidence, why, v, c, hvalue, hconfidence, hwhy, hv, hc, hs⟩
    simp only [hvalue, hconfidence, hwhy, hv, hc, bind, Except.bind]
    exact fieldSuggestion_eq_ok.mpr hs

omit [OfScientific F] in
theorem proposedSuggestion_ok_iff {r : Reply} {coverage : F} {diversity : ℕ} {lead : String}
    (hcoverage : 0 ≤ coverage ∧ coverage ≤ 1) :
    (∃ s, proposedSuggestion N r coverage diversity lead = .ok s) ↔ Usable N r := by
  constructor
  · rintro ⟨s, h⟩
    obtain ⟨value, confidence, why, v, c, hvalue, hconfidence, hwhy, hv, hc, rfl, hunit⟩ :=
      proposedSuggestion_eq_ok.mp h
    exact ⟨value, confidence, why, v, c, hvalue, hconfidence, hwhy, hv, hc, hunit.confidence⟩
  · rintro ⟨value, confidence, why, v, c, hvalue, hconfidence, hwhy, hv, hc, hunit⟩
    exact ⟨_, proposedSuggestion_eq_ok.mpr ⟨value, confidence, why, v, c, hvalue, hconfidence,
      hwhy, hv, hc, rfl, ⟨hunit, hcoverage⟩⟩⟩

omit [OfScientific F] in
theorem proposedSuggestion_spec {r : Reply} {coverage : F} {diversity : ℕ} {lead : String}
    (h : proposedSuggestion N r coverage diversity lead = .ok s) :
    s.InUnit ∧ s.basis = .llmPropose ∧
      ∃ confidence, r.item "confidence" = .ok confidence ∧
        N.number confidence = some s.confidence := by
  obtain ⟨_, confidence, _, _, c, _, hconfidence, _, _, hc, rfl, hunit⟩ :=
    proposedSuggestion_eq_ok.mp h
  exact ⟨hunit, rfl, confidence, hconfidence, hc⟩

omit [OfScientific F] in
theorem emptyNeighbours_ok (N : Numbers F) (rationale : String) :
    ∃ s, fieldSuggestion (none : Option String) (0 : F) 0 0 [] .emptyNeighbours rationale = .ok s ∧
      s.InUnit ∧ s.basis = .emptyNeighbours :=
  ⟨_, fieldSuggestion_eq_ok.mpr ⟨rfl, ⟨le_rfl, N.zero_le_one⟩, ⟨le_rfl, N.zero_le_one⟩⟩,
    ⟨⟨le_rfl, N.zero_le_one⟩, ⟨le_rfl, N.zero_le_one⟩⟩, rfl⟩

theorem suggestForField_of_no_votes (h : votes candidates col = []) :
    suggestForField N cb candidates i col = suggestWhenNoVotes N cb.propose i col := by
  unfold suggestForField
  rw [h]
  rfl

/-- A column gets its suggestion unless a proposal for missing votes cannot be used. -/
theorem suggestForField_ok_iff :
    (∃ s, suggestForField N cb candidates i col = .ok s) ↔
      ∀ p, cb.propose = some p → votes candidates col = [] → col ∈ proposeAllowedFields →
        ∀ r, safePropose (p.fallback i) = some r → Usable N r := by
  by_cases hvotes : votes candidates col = []
  · rw [suggestForField_of_no_votes hvotes]
    obtain ⟨e, he, -⟩ := emptyNeighbours_ok N ("No similar tickets had a " ++ col ++
      " value to vote on.")
    unfold suggestWhenNoVotes
    dsimp only
    split
    · next hp => exact iff_of_true ⟨e, he⟩ (by simp [hp])
    · next p hp =>
      split
      · next hcol =>
        split
        · next hnone => exact iff_of_true ⟨e, he⟩ (by simp [hp, hnone])
        · next r hr =>
          rw [proposedSuggestion_ok_iff ⟨le_rfl, N.zero_le_one⟩]
          constructor
          · rintro hu p' hp' - - r' hr'
            cases hp.symm.trans hp'
            cases hr.symm.trans hr'
            exact hu
          · intro hall
            exact hall p hp hvotes hcol r hr
      · next hcol => exact iff_of_true ⟨e, he⟩ (by simp [hcol])
  · obtain ⟨s, hs, -⟩ := suggestForField_of_votes N cb i hvotes
    exact iff_of_true ⟨s, hs⟩ (fun _ _ hnil => absurd hnil hvotes)

theorem suggestForField_firstPass (h : suggestForField N cb candidates i col = .ok s) :
    FirstPass N candidates col s := by
  by_cases hvotes : votes candidates col = []
  · rw [suggestForField_of_no_votes hvotes] at h
    obtain ⟨e, he, hunit, hbasis⟩ := emptyNeighbours_ok N ("No similar tickets had a " ++ col ++
      " value to vote on.")
    have hempty : FirstPass N candidates col e :=
      ⟨hunit, fun hne => absurd hvotes hne, fun _ => .inl hbasis⟩
    unfold suggestWhenNoVotes at h
    dsimp only at h
    rw [he] at h
    split at h
    · cases h
      exact hempty
    · split at h
      · next hcol =>
        split at h
        · cases h
          exact hempty
        · obtain ⟨hunit, hbasis, -⟩ := proposedSuggestion_spec h
          exact ⟨hunit, fun hne => absurd hvotes hne, fun _ => .inr ⟨hbasis, hcol⟩⟩
      · cases h
        exact hempty
  · obtain ⟨s', hs', hfirst⟩ := suggestForField_of_votes N cb i hvotes
    rw [hs'] at h
    cases h
    exact hfirst

theorem suggestEach_ok_iff {cols : List String} {acc : Suggestions F} :
    (∃ out, suggestEach N cb candidates i cols acc = .ok out) ↔
      ∀ (j : ℕ) (col : String), cols[j]? = some col →
        ∃ s, suggestForField N cb candidates (i + j) col = .ok s := by
  induction cols generalizing i acc with
  | nil => simp [suggestEach]
  | cons c cols ih =>
    unfold suggestEach
    constructor
    · rintro ⟨out, h⟩ j col hj
      obtain ⟨s, hs, h⟩ := ExceptLoops.bind_eq_ok.mp h
      cases j with
      | zero =>
        cases hj
        exact ⟨s, hs⟩
      | succ j =>
        obtain ⟨s', hs'⟩ := ih.mp ⟨out, h⟩ j col hj
        exact ⟨s', by rwa [Nat.add_right_comm] at hs'⟩
    · intro h
      obtain ⟨s, hs⟩ := h 0 c rfl
      have hrest : ∀ (j : ℕ) (col : String), cols[j]? = some col →
          ∃ s, suggestForField N cb candidates (i + 1 + j) col = .ok s := by
        intro j col hj
        obtain ⟨s', hs'⟩ := h (j + 1) col hj
        exact ⟨s', by rwa [Nat.add_right_comm]⟩
      obtain ⟨out, hout⟩ : ∃ out, suggestEach N cb candidates (i + 1) cols
          (upsert Prod.fst acc (c, s)) = .ok out := ih.mpr hrest
      rw [Nat.add_zero] at hs
      exact ⟨out, ExceptLoops.bind_eq_ok.mpr ⟨s, hs, hout⟩⟩

/-- The first pass leaves one entry for each target, each as its column's pass gave it. -/
theorem suggestEach_spec {cols : List String} {acc out : Suggestions F}
    (h : suggestEach N cb candidates i cols acc = .ok out) (hnodup : (acc.map Prod.fst).Nodup)
    (hfirst : ∀ e ∈ acc, FirstPass N candidates e.1 e.2) :
    (out.map Prod.fst).Nodup ∧
      (∀ col, col ∈ out.map Prod.fst ↔ col ∈ acc.map Prod.fst ∨ col ∈ cols) ∧
      ∀ e ∈ out, FirstPass N candidates e.1 e.2 := by
  induction cols generalizing i acc with
  | nil =>
    cases h
    exact ⟨hnodup, by simp, hfirst⟩
  | cons c cols ih =>
    obtain ⟨s, hs, h⟩ := ExceptLoops.bind_eq_ok.mp h
    obtain ⟨hnd, hkeys, hall⟩ := ih h (RowMerge.upsert_nodup hnodup) (by
      intro e he
      rcases RowMerge.mem_upsert.mp he with rfl | ⟨he, -⟩
      · exact suggestForField_firstPass hs
      · exact hfirst e he)
    refine ⟨hnd, ?_, hall⟩
    intro col
    rw [hkeys, RowMerge.mem_keys_upsert, List.mem_cons, or_assoc]

omit [OfScientific F] in
theorem overrideWith_ok_iff {r : Reply} {e : String × FieldSuggestion F} (hunit : e.2.InUnit) :
    (∃ e', overrideWith N r e = .ok e') ↔ Comparable N e.2.confidence r := by
  unfold overrideWith
  constructor
  · rintro ⟨e', h⟩
    obtain ⟨confidence, hconfidence, h⟩ := ExceptLoops.bind_eq_ok.mp h
    obtain ⟨b, hb, h⟩ := ExceptLoops.bind_eq_ok.mp h
    refine ⟨confidence, b, hconfidence, hb, ?_⟩
    rintro rfl
    obtain ⟨s, hs, -⟩ := ExceptLoops.bind_eq_ok.mp h
    exact (proposedSuggestion_ok_iff hunit.coverage).mp ⟨s, hs⟩
  · rintro ⟨confidence, b, hconfidence, hb, hu⟩
    cases b with
    | false => exact ⟨e, by simp [hconfidence, hb, bind, Except.bind, pure, Except.pure]⟩
    | true =>
      obtain ⟨s, hs⟩ := (proposedSuggestion_ok_iff hunit.coverage).mpr (hu rfl)
      refine ⟨(e.1, s), ExceptLoops.bind_eq_ok.mpr ⟨confidence, hconfidence,
        ExceptLoops.bind_eq_ok.mpr ⟨true, hb, ExceptLoops.bind_eq_ok.mpr ⟨s, hs, rfl⟩⟩⟩⟩

/-- A weak result is overridden, or kept, unless the proposal cannot be compared or used. -/
theorem overrideOne_ok_iff {p : Proposer} {e : String × FieldSuggestion F} (hunit : e.2.InUnit) :
    (∃ e', overrideOne N p e = .ok e') ↔
      (e.1 ∈ proposeAllowedFields → e.2.confidence < 0.60 →
        ∀ r, safePropose (p.override e.1) = some r → Comparable N e.2.confidence r) := by
  unfold overrideOne
  split
  · next hweak =>
    split
    · next hnone => exact iff_of_true ⟨_, rfl⟩ (by simp [hnone])
    · next r hr =>
      rw [overrideWith_ok_iff hunit]
      constructor
      · rintro hc - - r' hr'
        cases hr.symm.trans hr'
        exact hc
      · exact fun hall => hall hweak.1 hweak.2 r hr
  · next hweak =>
    refine iff_of_true ⟨e, rfl⟩ ?_
    intro hcol hlt
    exact absurd ⟨hcol, hlt⟩ hweak

omit [OfScientific F] in
theorem FirstPass.grounded (h : FirstPass N candidates col s) : Grounded N candidates col s s where
  unit := h.unit
  voted hpropose hempty := by
    by_cases hvotes : votes candidates col = []
    · rcases h.unvoted hvotes with hb | ⟨hb, -⟩
      · exact absurd hb hempty
      · exact absurd hb hpropose
    · exact (h.voted hvotes).1
  allowed hpropose := by
    by_cases hvotes : votes candidates col = []
    · rcases h.unvoted hvotes with hb | ⟨-, hcol⟩
      · rw [hb] at hpropose
        cases hpropose
      · exact hcol
    · exact absurd hpropose (h.voted hvotes).2.1
  higher hpropose hvotes := absurd hpropose (h.voted hvotes).2.1

theorem overrideOne_grounded {p : Proposer} {e e' : String × FieldSuggestion F}
    (hfirst : FirstPass N candidates e.1 e.2) (h : overrideOne N p e = .ok e') :
    e'.1 = e.1 ∧ Grounded N candidates e.1 e.2 e'.2 := by
  unfold overrideOne at h
  split at h
  · next hweak =>
    split at h
    · cases h
      exact ⟨rfl, hfirst.grounded⟩
    · next r hr =>
      obtain ⟨confidence, hconfidence, h⟩ := ExceptLoops.bind_eq_ok.mp h
      obtain ⟨b, hb, h⟩ := ExceptLoops.bind_eq_ok.mp h
      cases b with
      | false =>
        cases h
        exact ⟨rfl, hfirst.grounded⟩
      | true =>
        obtain ⟨s, hs, h⟩ := ExceptLoops.bind_eq_ok.mp h
        cases h
        obtain ⟨hunit, hbasis, confidence', hc', hnumber⟩ := proposedSuggestion_spec hs
        cases hconfidence.symm.trans hc'
        refine ⟨rfl, hunit, ?_, fun _ => hweak.1, ?_⟩
        · intro hpropose
          exact absurd hbasis hpropose
        · intro _ hvotes
          exact ⟨(hfirst.voted hvotes).1, N.greater_number hb hnumber⟩
  · cases h
    exact ⟨rfl, hfirst.grounded⟩

theorem mem_of_overrides {p : Proposer} {first out : Suggestions F}
    (hfirst : ∀ e ∈ first, FirstPass N candidates e.1 e.2)
    (h : applyProposeOverride N p first = .ok out) :
    out.map Prod.fst = first.map Prod.fst ∧
      ∀ e' ∈ out, ∃ e ∈ first, e'.1 = e.1 ∧ Grounded N candidates e.1 e.2 e'.2 := by
  have hall := ExceptLoops.mapM_eq_ok.mp h
  constructor
  · clear h
    induction hall with
    | nil => rfl
    | cons hone _ ih =>
      obtain ⟨hhead, htail⟩ := List.forall_mem_cons.mp hfirst
      rw [List.map_cons, List.map_cons, ih htail, (overrideOne_grounded hhead hone).1]
  · intro e' he'
    obtain ⟨e, he, hone⟩ := ListSplit.forall₂_right hall he'
    exact ⟨e, he, overrideOne_grounded (hfirst e he) hone⟩

end Passes

def wholeNumbers : Numbers ℚ where
  share a b := a / b
  format _ := ""
  str v :=
    match v with
    | .str s => s
    | _ => ""
  text v :=
    match v with
    | .str s => some (some s)
    | .null => some none
    | _ => none
  number v :=
    match v with
    | .int n => some n
    | _ => none
  greater v x :=
    match v with
    | .int n => .ok (decide (x < n))
    | _ => .error .typeError
  zero_le_one := zero_le_one
  share_unit {a b} hab hb := by
    have hpos : (0 : ℚ) < b := by exact_mod_cast hb
    have hle : (a : ℚ) ≤ b := by exact_mod_cast hab
    exact ⟨div_nonneg a.cast_nonneg hpos.le, div_le_one_of_le₀ hle hpos.le⟩
  greater_number {v x y} hg hn := by
    cases v with
    | int n =>
      cases hn
      simpa using hg
    | _ => cases hn

def answering (v : Value) : Callbacks where
  tiebreak := none
  propose := some
    ⟨fun _ => .returned (.ofValue wholeNumbers.str v),
      fun _ => .returned (.ofValue wholeNumbers.str v)⟩

end TriageSuggestions
