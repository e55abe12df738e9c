import Mathlib.Algebra.Order.Ring.Rat
import Mathlib.Data.List.Sort

/-! Stage 4 of the router: which of the surviving candidates a query is for. The threshold
variant takes the best one. The model variant first looks for patterns that have a fixed
agent, among all registered agents, and then asks the model, whose choice is held to the
candidates; if it chooses none of them, the retrieval scores decide. -/
namespace RouterDisambiguation

structure Candidate where
  agentId : String
  score : ℚ
  deriving DecidableEq

/-- The request context, with the entries that the router itself reads apart. -/
structure RequestCtx where
  domain : Option String := none
  focusEntityId : Option String := none
  focusServiceId : Option String := none
  others : List (String × String) := []
  deriving DecidableEq

/-- Stage 4 selects nothing if it has no confident match. -/
structure Disambiguation where
  selectedAgentIds : List String := []
  parametersByAgent : List (String × List (String × String)) := []
  intents : List String := []
  rationale : String := ""
  deriving DecidableEq

def Disambiguation.isConfidentMatch (d : Disambiguation) : Bool := d.selectedAgentIds ≠ []

def Disambiguation.paramsFor (d : Disambiguation) (agentId : String) : List (String × String) :=
  ((d.parametersByAgent.find? fun e => e.1 = agentId).map Prod.snd).getD []

def noMatch (rationale : String) : Disambiguation := { rationale := rationale }

def select (agentIds : List String) (rationale : String) (intents : List String) :
    Disambiguation :=
  ⟨agentIds, agentIds.map fun a => (a, []), intents, rationale⟩

/-- The text functions: what Python does with strings and numbers, and the patterns of the
preroute. -/
structure Text where
  strip : String → String
  lower : String → String
  /-- Two decimals. -/
  fixed : ℚ → String
  shown : ℚ → String
  isBareId : String → Bool
  /-- A record that is linked to the focused one, and not similar records. -/
  isLinkedRead : String → Bool
  hasEntityId : String → Bool
  hasDocNoun : String → Bool
  hasDocPhrase : String → Bool

structure Preroute where
  agentId : String
  intent : String
  rationale : String
  deriving DecidableEq

def summaryAgent : String := "uc01_summarization"

def knowledgeAgent : String := "uc03_kb_lookup"

def deterministicPreroute (T : Text) (queryText : String) (validIds : List String)
    (hasFocus : Bool) : Option Preroute :=
  let q := T.strip queryText
  let qLower := T.lower q
  if q = "" then none
  else if T.isBareId q ∧ summaryAgent ∈ validIds then
    some ⟨summaryAgent, "summary", "P1: bare entity id → entity-summary agent"⟩
  else if hasFocus ∧ summaryAgent ∈ validIds ∧ T.isLinkedRead qLower then
    some ⟨summaryAgent, "field_read",
      "P3: linked/related component of focused record → record read"⟩
  else if ¬ T.hasEntityId q then none
  else if T.hasDocNoun qLower ∧ knowledgeAgent ∈ validIds then
    some ⟨knowledgeAgent, "kb_search", "P2: explicit doc-noun + entity id → KB agent"⟩
  else if T.hasDocPhrase qLower ∧ knowledgeAgent ∈ validIds then
    some ⟨knowledgeAgent, "kb_search", "P2: explicit doc-phrase + entity id → KB agent"⟩
  else none

theorem deterministicPreroute_mem {T : Text} {queryText : String} {validIds : List String}
    {hasFocus : Bool} {t : Preroute}
    (h : deterministicPreroute T queryText validIds hasFocus = some t) : t.agentId ∈ validIds := by
  unfold deterministicPreroute at h
  simp only at h
  split at h
  · cases h
  · split at h
    next hs =>
      cases h
      exact hs.2
    next =>
      split at h
      next hs =>
        cases h
        exact hs.2.1
      next =>
        split at h
        · cases h
        · split at h
          next hs =>
            cases h
            exact hs.2
          next =>
            split at h
            next hs =>
              cases h
              exact hs.2
            next => cases h

structure LlmReply where
  selectedAgentIds : List String
  intents : List String
  rationale : Option String

/-- `reply` fails where the call or the parse does. Without a registry the preroute is held
to the candidates. -/
structure LlmDisambiguator where
  reply : String → List Candidate → RequestCtx → Except String LlmReply
  hasRegistry : Bool
  abstainMinScore : Option ℚ := none
  abstainMinMargin : ℚ := 0

inductive Disambiguator where
  | threshold (confidenceFloor : ℚ)
  | llm (L : LlmDisambiguator)

def thresholdSelect (T : Text) (floor : ℚ) : List Candidate → Disambiguation
  | [] => noMatch "no candidates survived the funnel"
  | top :: _ =>
    if top.score < floor then
      noMatch ("top candidate '" ++ top.agentId ++ "' score " ++ T.fixed top.score ++
        " is below the confidence floor " ++ T.shown floor)
    else select [top.agentId] ("top-scoring candidate above the " ++ T.shown floor ++ " floor") []

/-- Refuse before the call when the scores are too low or too close. -/
def abstainCheck (T : Text) (L : LlmDisambiguator) (candidates : List Candidate) :
    Option Disambiguation :=
  match L.abstainMinScore, candidates.insertionSort fun a b => b.score ≤ a.score with
  | none, _ => none
  | some _, [] => none
  | some floor, top :: rest =>
    if top.score < floor then
      some (noMatch ("abstain (weak match): top candidate '" ++ top.agentId ++ "' score " ++
        T.fixed top.score ++ " < floor " ++ T.fixed floor ++
        " — ask the user to clarify rather than route"))
    else
      match rest with
      | [] => none
      | second :: _ =>
        let margin := top.score - second.score
        if 0 < L.abstainMinMargin ∧ margin < L.abstainMinMargin then
          some (noMatch ("abstain (ambiguous): top two ('" ++ top.agentId ++ "', '" ++
            second.agentId ++ "') within " ++ T.fixed margin ++ " < margin " ++
            T.fixed L.abstainMinMargin ++ " — ask the user to clarify"))
        else none

def topCandidate : List Candidate → Option Candidate
  | [] => none
  | c :: rest => some (rest.foldl (fun best d => if best.score < d.score then d else best) c)

def signalFloor : ℚ := 1 / 10

def isKbLookup (agentId : String) : Bool := "_kb_lookup".toList.isSuffixOf agentId.toList

/-- The model chose none of the candidates: unless it said that the query is out of scope, a
knowledge agent is taken, or the best candidate. -/
def floorDispatch (T : Text) (candidates : List Candidate) (reply : LlmReply) :
    Option Disambiguation :=
  if "off_domain" ∈ reply.intents.map fun i => T.lower (T.strip i) then none
  else do
    let top ← topCandidate candidates
    if top.score < signalFloor then none
    else
      let kb := candidates.find? fun c => isKbLookup c.agentId ∧ signalFloor ≤ c.score
      let chosen := kb.getD top
      some (select [chosen.agentId]
        (if kb.isSome then
          "supervisor dispatch-by-default: stage-3 retriever surfaced a viable " ++
          "in-domain set; stage-4 LLM hedged (no_match). Defaulted to the " ++
          "knowledge agent (teach-before-provision) — it reports its own " ++
          "no-result if nothing is found."
        else
          "supervisor dispatch-by-default: stage-3 retriever surfaced this " ++
          "agent above the signal floor; stage-4 LLM hedged (no_match). The " ++
          "agent reports its own no-result if its lookup yields nothing.")
        (if isKbLookup chosen.agentId then ["kb_search"] else []))

def callAndSelect (T : Text) (L : LlmDisambiguator) (queryText : String)
    (candidates : List Candidate) (ctx : RequestCtx) : Disambiguation :=
  match L.reply queryText candidates ctx with
  | .error e => noMatch ("disambiguation failed: " ++ e)
  | .ok reply =>
    match reply.selectedAgentIds.filter fun a => a ∈ candidates.map Candidate.agentId with
    | [] =>
      (floorDispatch T candidates reply).getD (noMatch
        (if reply.rationale.getD "" = "" then "no candidate matched the intent"
          else reply.rationale.getD ""))
    | selected => select selected (reply.rationale.getD "") reply.intents

def prerouteSelect (t : Preroute) : Disambiguation := select [t.agentId] t.rationale [t.intent]

def preroutePool (L : LlmDisambiguator) (registered : List String) (candidates : List Candidate) :
    List String :=
  if L.hasRegistry ∧ registered ≠ [] then registered else candidates.map Candidate.agentId

def llmDisambiguate (T : Text) (L : LlmDisambiguator) (registered : List String)
    (queryText : String) (candidates : List Candidate) (ctx : RequestCtx) : Disambiguation :=
  if candidates = [] then noMatch "no candidates survived the funnel"
  else
    match deterministicPreroute T queryText (preroutePool L registered candidates) false with
    | some t => prerouteSelect t
    | none =>
      (abstainCheck T L candidates).getD (callAndSelect T L queryText candidates ctx)

def disambiguate (T : Text) (registered : List String) (D : Disambiguator) (queryText : String)
    (candidates : List Candidate) (ctx : RequestCtx) : Disambiguation :=
  match D with
  | .threshold floor => thresholdSelect T floor candidates
  | .llm L => llmDisambiguate T L registered queryText candidates ctx

def registeredPreroute (T : Text) (registered : List String) (D : Disambiguator)
    (queryText : String) : Option Preroute :=
  match D with
  | .threshold _ => none
  | .llm L => if L.hasRegistry then deterministicPreroute T queryText registered false else none

section Selected

variable {T : Text} {candidates : List Candidate}

theorem topCandidate_mem {top : Candidate} (h : topCandidate candidates = some top) :
    top ∈ candidates := by
  have hfold : ∀ (rest : List Candidate) (c : Candidate),
      rest.foldl (fun best d => if best.score < d.score then d else best) c ∈ c :: rest := by
    intro rest
    induction rest with
    | nil => simp
    | cons d rest ih =>
      intro c
      rw [List.foldl_cons]
      by_cases hs : c.score < d.score
      · rw [if_pos hs]
        exact List.mem_cons_of_mem _ (ih d)
      · rw [if_neg hs]
        rcases List.mem_cons.mp (ih c) with he | hm
        · rw [he]
          exact List.mem_cons_self
        · exact List.mem_cons_of_mem _ (List.mem_cons_of_mem _ hm)
  cases candidates with
  | nil => cases h
  | cons c rest =>
    cases h
    exact hfold rest c

def Held (candidates : List Candidate) (d : Disambiguation) : Prop :=
  ∀ a ∈ d.selectedAgentIds, a ∈ candidates.map Candidate.agentId

theorem held_noMatch (rationale : String) : Held candidates (noMatch rationale) := by
  intro a ha
  cases ha

theorem held_select {agentIds : List String} {rationale : String} {intents : List String}
    (h : ∀ a ∈ agentIds, a ∈ candidates.map Candidate.agentId) :
    Held candidates (select agentIds rationale intents) := h

theorem held_one {c : Candidate} {rationale : String} {intents : List String}
    (h : c ∈ candidates) : Held candidates (select [c.agentId] rationale intents) := by
  apply held_select
  intro a ha
  rw [List.mem_singleton.mp ha]
  exact List.mem_map_of_mem h

theorem thresholdSelect_held (floor : ℚ) :
    Held candidates (thresholdSelect T floor candidates) := by
  cases candidates with
  | nil => exact held_noMatch _
  | cons top rest =>
    simp only [thresholdSelect]
    by_cases hs : top.score < floor
    · rw [if_pos hs]
      exact held_noMatch _
    · rw [if_neg hs]
      exact held_one List.mem_cons_self

theorem abstainCheck_held {L : LlmDisambiguator} {d : Disambiguation}
    (h : abstainCheck T L candidates = some d) : Held candidates d := by
  unfold abstainCheck at h
  split at h
  · cases h
  · cases h
  · split at h
    · cases h
      exact held_noMatch _
    · split at h
      · cases h
      · simp only at h
        split at h
        · cases h
          exact held_noMatch _
        · cases h

theorem floorDispatch_held {reply : LlmReply} {d : Disambiguation}
    (h : floorDispatch T candidates reply = some d) : Held candidates d := by
  unfold floorDispatch at h
  split at h
  · cases h
  · obtain ⟨top, htop, h⟩ := Option.bind_eq_some_iff.mp h
    split at h
    · cases h
    · cases h
      apply held_one
      cases hkb : candidates.find? fun c => isKbLookup c.agentId ∧ signalFloor ≤ c.score with
      | none => exact topCandidate_mem htop
      | some kb => exact List.mem_of_find?_eq_some hkb

theorem callAndSelect_held (L : LlmDisambiguator) (queryText : String) (ctx : RequestCtx) :
    Held candidates (callAndSelect T L queryText candidates ctx) := by
  unfold callAndSelect
  split
  · exact held_noMatch _
  next reply _ =>
    split
    · cases hf : floorDispatch T candidates reply with
      | none => exact held_noMatch _
      | some d => exact floorDispatch_held hf
    next =>
      apply held_select
      intro a ha
      simpa using (List.mem_filter.mp ha).2

/-- What is selected is a candidate, or the registered agent that a pattern names. -/
theorem disambiguate_selected {registered : List String} {D : Disambiguator} {queryText : String}
    {ctx : RequestCtx} :
    Held candidates (disambiguate T registered D queryText candidates ctx) ∨
      ∃ t, registeredPreroute T registered D queryText = some t ∧
        disambiguate T registered D queryText candidates ctx = prerouteSelect t := by
  cases D with
  | threshold floor => exact .inl (thresholdSelect_held floor)
  | llm L =>
    simp only [disambiguate, llmDisambiguate]
    by_cases hc : candidates = []
    · rw [if_pos hc]
      exact .inl (held_noMatch _)
    rw [if_neg hc]
    cases hp : deterministicPreroute T queryText (preroutePool L registered candidates) false with
    | none =>
      left
      cases ha : abstainCheck T L candidates with
      | none => exact callAndSelect_held L queryText ctx
      | some d => exact abstainCheck_held ha
    | some t =>
      by_cases hw : L.hasRegistry = true ∧ registered ≠ []
      · rw [preroutePool, if_pos hw] at hp
        refine .inr ⟨t, ?_, rfl⟩
        simp only [registeredPreroute, hw.1, if_true, hp]
      · rw [preroutePool, if_neg hw] at hp
        left
        apply held_select
        intro a ha
        rw [List.mem_singleton.mp ha]
        exact deterministicPreroute_mem hp

end Selected

end RouterDisambiguation
