import OneOps.RegistryReads
import OneOps.InvertedIndex
import OneOps.PythonRegex
import Mathlib.Data.Finset.Card
import Mathlib.Data.Finset.Dedup
import Mathlib.Data.List.Infix
import Mathlib.Algebra.Order.Field.Rat

/-! The retriever that scores the active agents by the tokens they share with a query. The
tokens of the agents are indexed by the first query and kept; which agents are active is
read anew by every query. A call answers as a scan of the catalogue does as long as the
index says of the active agents what their texts say. -/
namespace LexicalRetrieval

open VersionedRegistry
open RegistryReads
open PythonRegex
open RowMerge (insertNew)
open InvertedIndex (enter tally)

def stopwords : List String :=
  ["the", "a", "an", "of", "to", "for", "on", "in", "is", "it", "this", "that", "and", "or",
    "with", "my", "me", "i", "you", "what", "who", "when", "where", "how", "can", "could",
    "please", "show", "give", "get"]

def tokenChar (c : Char) : Bool := c.isLower || c.isDigit

def tokenPattern : Regex := .rep 1 none (.chr tokenChar)

def entityPrefix (t : List Char) : Option (List Char) :=
  let letters := t.takeWhile Char.isLower
  let digits := t.dropWhile Char.isLower
  if 2 ≤ letters.length ∧ letters.length ≤ 4 ∧ 6 ≤ digits.length ∧ digits.all Char.isDigit then
    some letters
  else none

def addToken (out : List String) (t : List Char) : List String :=
  if String.ofList t ∈ stopwords then out
  else
    let out := insertNew id out (String.ofList t)
    match entityPrefix t with
    | none => out
    | some p => if String.ofList p ∈ stopwords then out else insertNew id out (String.ofList p)

/-- The fields that the retriever reads of an agent. -/
structure AgentText where
  description : String
  intentFamily : String
  deriving DecidableEq

section Retriever

-- `str.lower`
variable (lower : String → String)

def tokens (text : String) : List String :=
  (finditer tokenChar tokenPattern (lower text).toList).foldl addToken []

def corpus (a : RegistryRecord AgentText) : List String :=
  tokens lower (a.body.description ++ " " ++ a.body.intentFamily)

abbrev Index := List (String × List (String × ℕ))

def entry (a : RegistryRecord AgentText) : String × ℕ := (a.id, (corpus lower a).length)

def buildIndex (D : Store AgentText) : Index :=
  (listActive D).foldl (fun index a =>
    if corpus lower a = [] then index else enter index (corpus lower a) (entry lower a)) []

/-- The registry and the retriever's copy of its tokens. -/
structure State where
  store : Store AgentText
  index : Option Index

def getIndex (s : State) : Index := s.index.getD (buildIndex lower s.store)

def overlaps (q : List String) (index : Index) : List (String × ℕ) :=
  tally (q.flatMap fun t => (InvertedIndex.getD [] index t).map Prod.fst)

structure Candidate (F : Type*) where
  agentId : String
  score : F
  deriving DecidableEq

variable {F : Type*} [LinearOrder F]

/-- Order of the key `(-score, agent_id)`. -/
def Before (a b : Candidate F) : Prop :=
  b.score < a.score ∨ (a.score = b.score ∧ a.agentId ≤ b.agentId)

instance : DecidableRel (Before (F := F)) := fun _ _ => inferInstanceAs (Decidable (_ ∨ _))

def cut {α : Type*} (xs : List α) (n : ℤ) : List α :=
  if 0 ≤ n then xs.take n.toNat else xs.take (xs.length - n.natAbs)

/-- The division of two counts, and `0.01`. -/
structure Scale (F : Type*) where
  share : ℕ → ℕ → F
  low : F

variable (E : Scale F)

/-- Every active agent with its score, the best first. -/
def rank (score : RegistryRecord AgentText → F) (D : Store AgentText) (topK : ℤ) :
    List (Candidate F) :=
  cut (((listActive D).map fun a => ⟨a.id, score a⟩).insertionSort Before) topK

def retrieve (s : State) (query : String) (topK : ℤ) : List (Candidate F) × State :=
  let q := tokens lower query
  if q = [] then ([], s)
  else
    let index := getIndex lower s
    let counts := overlaps q index
    let qSize := max 1 q.length
    (rank (fun a =>
      let overlap := InvertedIndex.getD 0 counts a.id
      if 0 < overlap then E.share overlap qSize else E.low) s.store topK,
      { s with index := some index })

inductive Event where
  | change (c : Call AgentText)
  | retrieve (query : String) (topK : ℤ)
  | invalidate

def Event.call? : Event → Option (Call AgentText)
  | .change c => some c
  | _ => none

def next (s : State) : Event → State
  | .change c => { s with store := step s.store c }
  | .retrieve query topK => (retrieve lower E s query topK).2
  | .invalidate => { s with index := none }

def afterEvents (events : List Event) : State :=
  events.foldl (next lower E) ⟨⟨"agents", []⟩, none⟩

def coverage (query : String) (a : RegistryRecord AgentText) : F :=
  let q := (tokens lower query).toFinset
  let shared := q ∩ (corpus lower a).toFinset
  if shared = ∅ then E.low else E.share shared.card q.card

def scan (D : Store AgentText) (query : String) (topK : ℤ) : List (Candidate F) :=
  rank (coverage lower E query) D topK

def AnswersFresh (events : List Event) : Prop :=
  ∀ before query topK, before ++ [.retrieve query topK] <+: events →
    (retrieve lower E (afterEvents lower E before) query topK).1 =
      scan lower E (afterEvents lower E before).store query topK

def listedTokens (D : Store AgentText) (agentId : String) : List String :=
  ((activeOf D agentId).map (corpus lower)).getD []

def BuiltFrom (events : List Event) (D : Store AgentText) : Prop :=
  ∃ before query topK later, events = before ++ .retrieve query topK :: later ∧
    tokens lower query ≠ [] ∧ (afterEvents lower E before).index = none ∧
    .invalidate ∉ later ∧ D = (afterEvents lower E before).store

/-- The query has tokens, or there is nothing to list; and each active agent has those of
them that it had when the index was built. -/
structure Settled (events : List Event) (query : String) (topK : ℤ) : Prop where
  asked : tokens lower query = [] → cut (listActive (afterEvents lower E events).store) topK = []
  unchanged : ∀ D, BuiltFrom lower E events D →
    ∀ a ∈ listActive (afterEvents lower E events).store, ∀ t ∈ tokens lower query,
      t ∈ listedTokens lower D a.id ↔ t ∈ corpus lower a

variable {lower E}

theorem addToken_nodup {out : List String} (h : out.Nodup) (t : List Char) :
    (addToken out t).Nodup := by
  have hins : ∀ {l : List String} (x : String), l.Nodup → (insertNew id l x).Nodup := by
    intro l x hl
    have hkeys : (l.map id).Nodup := by simpa using hl
    simpa using RowMerge.insertNew_nodup (r := x) hkeys
  unfold addToken
  by_cases ht : String.ofList t ∈ stopwords
  · rwa [if_pos ht]
  · rw [if_neg ht]
    cases entityPrefix t with
    | none => exact hins _ h
    | some p =>
      by_cases hp : String.ofList p ∈ stopwords
      · simpa only [if_pos hp] using hins _ h
      · simpa only [if_neg hp] using hins _ (hins _ h)

theorem tokens_nodup (text : String) : (tokens lower text).Nodup := by
  have hfold : ∀ (ts : List (List Char)) (out : List String), out.Nodup →
      (ts.foldl addToken out).Nodup := by
    intro ts
    induction ts with
    | nil => exact fun _ h => h
    | cons t ts ih => exact fun out h => ih _ (addToken_nodup h t)
  exact hfold _ _ List.nodup_nil

theorem buildIndex_eq (D : Store AgentText) : buildIndex lower D =
    InvertedIndex.build (corpus lower) (entry lower) (listActive D) := by
  unfold buildIndex InvertedIndex.build
  congr 1
  funext index a
  by_cases ha : corpus lower a = []
  · rw [if_pos ha, ha]
    rfl
  · rw [if_neg ha]

theorem listedTokens_of_mem {D : Store AgentText} (hD : Keyed D)
    {a : RegistryRecord AgentText} (ha : a ∈ listActive D) :
    listedTokens lower D a.id = corpus lower a := by
  obtain ⟨hget, hstatus⟩ := (mem_listActive hD).mp ha
  have hactive : activeOf D a.id = some a :=
    Option.filter_eq_some_iff.mpr ⟨hget, by simpa using hstatus⟩
  rw [listedTokens, hactive]
  rfl

theorem mem_listActive_of_activeOf {D : Store AgentText} (hD : Keyed D) {agentId : String}
    {r : RegistryRecord AgentText} (h : activeOf D agentId = some r) :
    r ∈ listActive D ∧ r.id = agentId := by
  obtain ⟨hget, hstatus⟩ := Option.filter_eq_some_iff.mp h
  have hid := getOptional_id hD hget
  exact ⟨(mem_listActive hD).mpr ⟨hid.symm ▸ hget, by simpa using hstatus⟩, hid⟩

theorem overlaps_buildIndex {D : Store AgentText} (hD : Keyed D) (q : List String)
    (agentId : String) : InvertedIndex.getD 0 (overlaps q (buildIndex lower D)) agentId =
      (q.filter fun t => t ∈ listedTokens lower D agentId).length := by
  rw [overlaps, InvertedIndex.getD_tally, buildIndex_eq]
  have hnodup : ∀ a, (corpus lower a).Nodup := fun a => tokens_nodup _
  cases hactive : activeOf D agentId with
  | none =>
    have hlisted : listedTokens lower D agentId = [] := by rw [listedTokens, hactive]; rfl
    have hids : ∀ a ∈ listActive D, (entry lower a).1 ≠ agentId := by
      intro a ha hid
      change a.id = agentId at hid
      obtain ⟨hget, hstatus⟩ := (mem_listActive hD).mp ha
      have hsome : activeOf D a.id = some a :=
        Option.filter_eq_some_iff.mpr ⟨hget, by simpa using hstatus⟩
      rw [hid, hactive] at hsome
      cases hsome
    rw [hlisted, InvertedIndex.count_lookups_of_not_mem hnodup hids]
    simp
  | some r =>
    obtain ⟨hmem, hid⟩ := mem_listActive_of_activeOf hD hactive
    rw [← hid, listedTokens_of_mem hD hmem]
    have hkeys : ((listActive D).map fun a => (entry lower a).1).Nodup := listActive_nodup hD
    exact InvertedIndex.count_lookups hnodup hkeys hmem q

theorem afterEvents_snoc (events : List Event) (e : Event) :
    afterEvents lower E (events ++ [e]) = next lower E (afterEvents lower E events) e := by
  rw [afterEvents, List.foldl_append]
  rfl

theorem next_retrieve (s : State) (query : String) (topK : ℤ) :
    next lower E s (.retrieve query topK) =
      if tokens lower query = [] then s else { s with index := some (getIndex lower s) } := by
  by_cases hq : tokens lower query = []
  · rw [next, retrieve, if_pos hq, if_pos hq]
  · rw [next, retrieve, if_neg hq, if_neg hq]

theorem store_afterEvents (events : List Event) :
    (afterEvents lower E events).store = after "agents" (events.filterMap Event.call?) := by
  induction events using List.reverseRecOn with
  | nil => rfl
  | append_singleton events e ih =>
    rw [afterEvents_snoc, List.filterMap_append]
    cases e with
    | change c =>
      have hsnoc : [Event.change c].filterMap Event.call? = [c] := rfl
      rw [hsnoc, after_snoc, ← ih]
      rfl
    | retrieve query topK =>
      have hsnoc : [Event.retrieve query topK].filterMap Event.call? = [] := rfl
      rw [hsnoc, List.append_nil, ← ih, next_retrieve]
      by_cases hq : tokens lower query = []
      · rw [if_pos hq]
      · rw [if_neg hq]
    | invalidate =>
      have hsnoc : [Event.invalidate].filterMap Event.call? = [] := rfl
      rw [hsnoc, List.append_nil, ← ih]
      rfl

theorem afterEvents_keyed (events : List Event) : Keyed (afterEvents lower E events).store := by
  rw [store_afterEvents]
  exact after_keyed _ _

theorem BuiltFrom.snoc {events : List Event} {D : Store AgentText}
    (h : BuiltFrom lower E events D) {e : Event} (he : e ≠ .invalidate) :
    BuiltFrom lower E (events ++ [e]) D := by
  obtain ⟨before, query, topK, later, hev, hq, hindex, hlater, hD⟩ := h
  refine ⟨before, query, topK, later ++ [e], ?_, hq, hindex, ?_, hD⟩
  · rw [hev, List.append_assoc, List.cons_append]
  · rw [List.mem_append, List.mem_singleton, not_or]
    exact ⟨hlater, fun h => he h.symm⟩

theorem index_afterEvents {events : List Event} {index : Index}
    (h : (afterEvents lower E events).index = some index) :
    ∃ D, BuiltFrom lower E events D ∧ Keyed D ∧ index = buildIndex lower D := by
  induction events using List.reverseRecOn generalizing index with
  | nil => cases h
  | append_singleton events e ih =>
    rw [afterEvents_snoc] at h
    cases e with
    | change c =>
      obtain ⟨D, hb, hD, hi⟩ := ih h
      exact ⟨D, hb.snoc Event.noConfusion, hD, hi⟩
    | retrieve query topK =>
      rw [next_retrieve] at h
      by_cases hq : tokens lower query = []
      · rw [if_pos hq] at h
        obtain ⟨D, hb, hD, hi⟩ := ih h
        exact ⟨D, hb.snoc Event.noConfusion, hD, hi⟩
      · rw [if_neg hq] at h
        cases hindex : (afterEvents lower E events).index with
        | some old =>
          have hold : index = old := by
            have hget : getIndex lower (afterEvents lower E events) = old := by
              rw [getIndex, hindex]
              rfl
            rw [← hget]
            exact (Option.some.inj h).symm
          obtain ⟨D, hb, hD, hi⟩ := ih hindex
          exact ⟨D, hb.snoc Event.noConfusion, hD, hold.trans hi⟩
        | none =>
          refine ⟨(afterEvents lower E events).store,
            ⟨events, query, topK, [], rfl, hq, hindex, List.not_mem_nil, rfl⟩,
            afterEvents_keyed events, ?_⟩
          have hget : getIndex lower (afterEvents lower E events) =
              buildIndex lower (afterEvents lower E events).store := by
            rw [getIndex, hindex]
            rfl
          rw [← hget]
          exact (Option.some.inj h).symm
    | invalidate => cases h

/-- The index that a query uses is that of a store whose texts are those of the active
agents, as far as the query asks. -/
theorem Settled.source {events : List Event} {query : String} {topK : ℤ}
    (h : Settled lower E events query topK) :
    ∃ D, Keyed D ∧ getIndex lower (afterEvents lower E events) = buildIndex lower D ∧
      ∀ a ∈ listActive (afterEvents lower E events).store, ∀ t ∈ tokens lower query,
        t ∈ listedTokens lower D a.id ↔ t ∈ corpus lower a := by
  cases hindex : (afterEvents lower E events).index with
  | some index =>
    obtain ⟨D, hb, hD, hi⟩ := index_afterEvents hindex
    refine ⟨D, hD, ?_, h.unchanged D hb⟩
    rw [getIndex, hindex, ← hi]
    rfl
  | none =>
    have hD : Keyed (afterEvents lower E events).store := afterEvents_keyed events
    refine ⟨(afterEvents lower E events).store, hD, ?_, ?_⟩
    · rw [getIndex, hindex]
      rfl
    · intro a ha t _
      rw [listedTokens_of_mem hD ha]

theorem card_shared {q c : List String} (hq : q.Nodup) :
    (q.toFinset ∩ c.toFinset).card = (q.filter fun t => t ∈ c).length := by
  have hfilter : q.toFinset ∩ c.toFinset = (q.filter fun t => t ∈ c).toFinset := by
    ext t
    simp
  rw [hfilter, List.toFinset_card_of_nodup (hq.filter _)]

theorem rank_congr {D : Store AgentText} {f g : RegistryRecord AgentText → F}
    (h : ∀ a ∈ listActive D, f a = g a) (topK : ℤ) : rank f D topK = rank g D topK := by
  have hmap : ((listActive D).map fun a => (⟨a.id, f a⟩ : Candidate F)) =
      (listActive D).map fun a => ⟨a.id, g a⟩ := by
    apply List.map_congr_left
    intro a ha
    rw [h a ha]
  rw [rank, rank, hmap]

theorem cut_eq_nil {α β : Type*} {xs : List α} {ys : List β} (h : xs.length = ys.length)
    {n : ℤ} : cut xs n = [] ↔ cut ys n = [] := by
  unfold cut
  by_cases hn : 0 ≤ n
  · rw [if_pos hn, if_pos hn, ← List.length_eq_zero_iff, ← List.length_eq_zero_iff,
      List.length_take, List.length_take, h]
  · rw [if_neg hn, if_neg hn, ← List.length_eq_zero_iff, ← List.length_eq_zero_iff,
      List.length_take, List.length_take, h]

theorem scan_eq_nil {D : Store AgentText} {query : String} {topK : ℤ} :
    scan lower E D query topK = [] ↔ cut (listActive D) topK = [] := by
  rw [scan, rank]
  apply cut_eq_nil
  rw [List.length_insertionSort, List.length_map]

theorem retrieve_eq_scan {events : List Event} {query : String} {topK : ℤ}
    (h : Settled lower E events query topK) :
    (retrieve lower E (afterEvents lower E events) query topK).1 =
      scan lower E (afterEvents lower E events).store query topK := by
  by_cases hq : tokens lower query = []
  · rw [retrieve, if_pos hq]
    exact (scan_eq_nil.mpr (h.asked hq)).symm
  · rw [retrieve, if_neg hq]
    obtain ⟨D, hD, hindex, hsame⟩ := h.source
    apply rank_congr
    intro a ha
    have hqn : (tokens lower query).Nodup := tokens_nodup query
    have hsize : max 1 (tokens lower query).length = (tokens lower query).toFinset.card := by
      rw [List.toFinset_card_of_nodup hqn]
      have := List.length_pos_iff.mpr hq
      omega
    have hover : InvertedIndex.getD 0 (overlaps (tokens lower query)
          (getIndex lower (afterEvents lower E events))) a.id =
        ((tokens lower query).toFinset ∩ (corpus lower a).toFinset).card := by
      rw [hindex, overlaps_buildIndex hD, card_shared hqn]
      congr 1
      apply List.filter_congr
      intro t ht
      exact decide_eq_decide.mpr (hsame a ha t ht)
    rw [coverage]
    simp only [hover, hsize, Finset.card_pos, Finset.nonempty_iff_ne_empty, ne_eq, ite_not]

/-- In a run whose calls are settled every call answers as a fresh scan. -/
theorem answers_fresh {events : List Event}
    (h : ∀ before query topK, before ++ [.retrieve query topK] <+: events →
      Settled lower E before query topK) : AnswersFresh lower E events :=
  fun before query topK hprefix => retrieve_eq_scan (h before query topK hprefix)

end Retriever

def asciiLower (s : String) : String := String.ofList (s.toList.map Char.toLower)

def quotients : Scale ℚ := ⟨fun n d => n / d, 1 / 100⟩

def agent (id description : String) : RegistryRecord AgentText :=
  ⟨id, 1, .draft, ⟨description, "it"⟩⟩

/-- An agent is served before the first query, and another one is created after it. -/
def draftRun : List Event :=
  [.change (.create (agent "uc1" "VPN access")), .change (.activate "uc1" 1), .retrieve "vpn" 5,
    .change (.create (agent "uc2" "VPN repair"))]

theorem split_draftRun {before later : List Event} {query : String} {topK : ℤ}
    (h : draftRun = before ++ .retrieve query topK :: later) :
    before = draftRun.take 2 ∧ query = "vpn" ∧ topK = 5 := by
  rcases before with _ | ⟨a, _ | ⟨b, _ | ⟨c, _ | ⟨d, before⟩⟩⟩⟩ <;> simp_all [draftRun]

theorem draftRun_settled : ∀ before query topK,
    before ++ [.retrieve query topK] <+: draftRun ++ [.retrieve "vpn" 5] →
      Settled asciiLower quotients before query topK := by
  intro before query topK h
  have hasked : tokens asciiLower "vpn" ≠ [] := by decide +kernel
  rcases List.prefix_concat_iff.mp h with h | ⟨later, h⟩
  · obtain ⟨rfl, hlast⟩ := List.append_inj' h rfl
    obtain ⟨rfl, rfl⟩ := Event.retrieve.inj (List.cons.inj hlast).1
    refine ⟨fun hq => absurd hq hasked, ?_⟩
    rintro D ⟨before, query, topK, later, hev, -, -, -, rfl⟩
    obtain ⟨rfl, -, -⟩ := split_draftRun hev
    decide +kernel
  · rw [List.append_assoc] at h
    obtain ⟨rfl, rfl, rfl⟩ := split_draftRun h.symm
    refine ⟨fun hq => absurd hq hasked, ?_⟩
    -- no query came before
    rintro D ⟨before, query, topK, later, hev, -⟩
    have hmem : Event.retrieve query topK ∈ draftRun.take 2 := by simp [hev]
    simp [draftRun] at hmem

/-- A draft does not make the index out of date. -/
theorem draft_answered_fresh :
    AnswersFresh asciiLower quotients (draftRun ++ [.retrieve "vpn" 5]) :=
  answers_fresh draftRun_settled

/-- The second agent is activated after the first query, and no later one sees its text. -/
theorem late_agent_unseen : ¬ AnswersFresh asciiLower quotients
    (draftRun ++ [.change (.activate "uc2" 1), .retrieve "vpn" 5]) := by
  intro h
  have hcall := h (draftRun ++ [.change (.activate "uc2" 1)]) "vpn" 5 (by simp)
  have hne : (retrieve asciiLower quotients (afterEvents asciiLower quotients
        (draftRun ++ [.change (.activate "uc2" 1)])) "vpn" 5).1 ≠
      scan asciiLower quotients (afterEvents asciiLower quotients
        (draftRun ++ [.change (.activate "uc2" 1)])).store "vpn" 5 := by
    decide +kernel
  exact hne hcall

end LexicalRetrieval
