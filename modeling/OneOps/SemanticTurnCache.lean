import Mathlib.Algebra.Order.Ring.Rat
import OneOps.ChatInterrupts

/-! The semantic turn cache of one tenant and role, which the streaming chat door asks
before it runs the pipeline. Answers are shared between the users of the bucket. What keeps
one user's answer from another is the test for standalone queries, which looks for
references to the session's focus and to records. -/
namespace SemanticTurnCache

open ChatInterrupts ListSplit

structure Chars where
  isSpace : Char → Bool
  isWord : Char → Bool
  isDigit : Char → Bool
  fold : Char → Char

section Matching

variable (C : Chars)

/-- The position between `prev` and the head of `rest` is a word boundary. -/
def boundary (prev : Option Char) (rest : List Char) : Bool :=
  prev.any C.isWord != rest.head?.any C.isWord

/-- `pattern` matches at some position, given the character before it and what follows. -/
def search (pattern : Option Char → List Char → Bool) : Option Char → List Char → Bool
  | prev, [] => pattern prev []
  | prev, c :: rest => pattern prev (c :: rest) || search pattern (some c) rest

def wordHere (word rest : List Char) : Bool :=
  (rest.take word.length).map C.fold == word && boundary C word.getLast? (rest.drop word.length)

def pronouns : List String :=
  ["it", "its", "it's", "this", "that", "these", "those", "they", "them", "their"]

def recordNouns : List String :=
  ["incident", "ticket", "problem", "change", "request", "record", "article", "ci", "asset", "kb"]

def theRecord (rest : List Char) : Bool :=
  (rest.take 3).map C.fold == "the".toList &&
    ((rest.drop 3).head?.any C.isSpace &&
      recordNouns.any fun noun => wordHere C noun.toList ((rest.drop 3).dropWhile C.isSpace))

def refHere (prev : Option Char) (rest : List Char) : Bool :=
  boundary C prev rest && (pronouns.any (fun w => wordHere C w.toList rest) || theRecord C rest)

def idHere (prev : Option Char) (rest : List Char) : Bool :=
  let letters := rest.takeWhile Char.isAlpha
  let digits := (rest.drop letters.length).takeWhile C.isDigit
  boundary C prev rest && (2 ≤ letters.length && letters.length ≤ 4) && 4 ≤ digits.length &&
    boundary C digits.getLast? (rest.drop (letters.length + digits.length))

def isStandalone (query : String) : Bool :=
  let q := (query.toList.dropWhile C.isSpace).rdropWhile C.isSpace
  if q.length < 3 then false
  else if search (idHere C) none q || q.all C.isDigit then false
  else !search (refHere C) none q

end Matching

/-- An entry of the bucket. The cache has the embedding and the response; who asked what is
kept beside them. -/
structure Entry (ε : Type*) where
  emb : ε
  resp : TurnResponse
  askedBy : String
  query : String

/-- `embed` gives none for an empty embedding. `similarity` stands for the cosine. -/
structure Embedding (ε : Type*) where
  embed : String → Option ε
  similarity : ε → ε → ℚ

def threshold : ℚ := 97 / 100

def bucketMax : ℕ := 64

variable {ε : Type*}

def better (M : Embedding ε) (qv : ε) (acc : Option (Entry ε × ℚ)) (e : Entry ε) :
    Option (Entry ε × ℚ) :=
  if (acc.map Prod.snd).getD 0 < M.similarity qv e.emb then some (e, M.similarity qv e.emb) else acc

def best (M : Embedding ε) (qv : ε) (entries : List (Entry ε)) : Option (Entry ε × ℚ) :=
  entries.foldl (better M qv) none

def get (M : Embedding ε) (bucket : List (Entry ε)) (query : String) : Option (Entry ε) := do
  let qv ← M.embed query
  let found ← best M qv (bucket.take bucketMax)
  if threshold ≤ found.2 then some found.1 else none

def put (M : Embedding ε) (bucket : List (Entry ε)) (userId query : String) (resp : TurnResponse) :
    List (Entry ε) :=
  match M.embed query with
  | none => bucket
  | some qv => (⟨qv, resp, userId, query⟩ :: bucket).take bucketMax

/-- A streamed turn with what happens to it: the bucket may have expired, and the cache's
calls may fail. -/
structure StreamTurn where
  userId : String
  message : String
  interruptResume : Bool := false
  expired : Bool := false
  getFails : Bool := false
  putFails : Bool := false
  deriving DecidableEq, Repr

inductive Outcome (ε : Type*) where
  | fromCache (e : Entry ε)
  | ran (resp : TurnResponse)

def Outcome.response : Outcome ε → TurnResponse
  | .fromCache e => e.resp
  | .ran resp => resp

/-- What the door is wired with: the text functions, the embedding and the pipeline, a
function of the user and the message. -/
structure Wiring (ε : Type*) where
  text : Text
  chars : Chars
  embedding : Embedding ε
  pipeline : String → String → TurnResponse

def eligible (W : Wiring ε) (x : StreamTurn) : Bool :=
  !x.interruptResume && isStandalone W.chars x.message

def lookup (W : Wiring ε) (bucket : List (Entry ε)) (x : StreamTurn) : Option (Entry ε) :=
  if !eligible W x || x.getFails then none else get W.embedding bucket x.message

def serve (W : Wiring ε) (bucket : List (Entry ε)) (x : StreamTurn) :
    List (Entry ε) × Outcome ε :=
  match lookup W bucket x with
  | some e => (bucket, .fromCache e)
  | none =>
    let resp := W.pipeline x.userId x.message
    (if eligible W x && shouldCache W.text resp && !x.putFails then
        put W.embedding bucket x.userId x.message resp
      else bucket,
      .ran resp)

def streamTurn (W : Wiring ε) (bucket : List (Entry ε)) (x : StreamTurn) :
    List (Entry ε) × Outcome ε :=
  serve W (if x.expired then [] else bucket) x

def after (W : Wiring ε) (turns : List StreamTurn) : List (Entry ε) :=
  turns.foldl (fun bucket x => (streamTurn W bucket x).1) []

/-- A user gets no text that the pipeline produced for another one and would not have
produced for him, and an answer from the cache that the pipeline would give the two
differently does not change when the other one's turns are taken out. -/
structure Isolated (W : Wiring ε) (before : List StreamTurn) (x : StreamTurn) : Prop where
  own : ∀ e, (streamTurn W (after W before) x).2 = .fromCache e →
    W.pipeline e.askedBy e.query = W.pipeline x.userId e.query
  removal : ∀ e u, (streamTurn W (after W before) x).2 = .fromCache e →
    W.pipeline u e.query ≠ W.pipeline x.userId e.query →
      (streamTurn W (after W (before.filter fun y => y.userId ≠ u)) x).2.response =
        (streamTurn W (after W before) x).2.response

def Matches (W : Wiring ε) (query stored : String) : Prop :=
  ∃ qv e, W.embedding.embed query = some qv ∧ W.embedding.embed stored = some e ∧
    threshold ≤ W.embedding.similarity qv e

/-- Every standalone query whose answer can be stored, and that some standalone query
matches, is answered alike for all users. -/
def UserFree (W : Wiring ε) : Prop :=
  ∀ query stored u v, isStandalone W.chars query = true → isStandalone W.chars stored = true →
    Matches W query stored → shouldCache W.text (W.pipeline u stored) = true →
      W.pipeline u stored = W.pipeline v stored

section Turns

variable {W : Wiring ε} {bucket : List (Entry ε)} {x : StreamTurn}

theorem foldl_better {M : Embedding ε} {qv : ε} {e : Entry ε} {s : ℚ} :
    ∀ (entries : List (Entry ε)) (acc : Option (Entry ε × ℚ)),
      entries.foldl (better M qv) acc = some (e, s) →
      acc = some (e, s) ∨ (e ∈ entries ∧ s = M.similarity qv e.emb) := by
  intro entries
  induction entries with
  | nil => exact fun acc h => .inl h
  | cons a entries ih =>
    intro acc h
    rcases ih _ h with hacc | ⟨hmem, hs⟩
    · unfold better at hacc
      split at hacc
      · cases hacc
        exact .inr ⟨List.mem_cons_self, rfl⟩
      · exact .inl hacc
    · exact .inr ⟨List.mem_cons_of_mem _ hmem, hs⟩

theorem best_mem {M : Embedding ε} {qv : ε} {entries : List (Entry ε)} {e : Entry ε} {s : ℚ}
    (h : best M qv entries = some (e, s)) : e ∈ entries ∧ s = M.similarity qv e.emb :=
  (foldl_better entries none h).resolve_left (by simp)

theorem lookup_some {e : Entry ε} (h : lookup W bucket x = some e) :
    eligible W x = true ∧ e ∈ bucket ∧ ∃ qv, W.embedding.embed x.message = some qv ∧
      threshold ≤ W.embedding.similarity qv e.emb := by
  unfold lookup at h
  by_cases he : (!eligible W x || x.getFails) = true
  · rw [if_pos he] at h
    cases h
  · rw [if_neg he] at h
    obtain ⟨qv, hq, h⟩ := Option.bind_eq_some_iff.mp h
    obtain ⟨⟨found, score⟩, hb, h⟩ := Option.bind_eq_some_iff.mp h
    obtain ⟨hmem, hs⟩ := best_mem hb
    by_cases ht : threshold ≤ score
    · simp only [ht, if_true, Option.some.injEq] at h
      subst h
      refine ⟨?_, List.mem_of_mem_take hmem, qv, hq, hs ▸ ht⟩
      simp only [Bool.or_eq_true, Bool.not_eq_true', not_or, Bool.not_eq_false] at he
      exact he.1
    · simp [ht] at h

structure Stored (W : Wiring ε) (e : Entry ε) : Prop where
  produced : e.resp = W.pipeline e.askedBy e.query
  standalone : isStandalone W.chars e.query = true
  useful : shouldCache W.text e.resp = true
  embedded : W.embedding.embed e.query = some e.emb

theorem eligible_standalone (h : eligible W x = true) : isStandalone W.chars x.message = true := by
  simp only [eligible, Bool.and_eq_true] at h
  exact h.2

theorem serve_stored (h : ∀ e ∈ bucket, Stored W e) : ∀ e ∈ (serve W bucket x).1, Stored W e := by
  unfold serve
  cases lookup W bucket x with
  | some e => exact h
  | none =>
    simp only
    by_cases hp : (eligible W x && shouldCache W.text (W.pipeline x.userId x.message) &&
        !x.putFails) = true
    · rw [if_pos hp]
      simp only [Bool.and_eq_true] at hp
      unfold put
      cases hv : W.embedding.embed x.message with
      | none => exact h
      | some qv =>
        intro e he
        rcases List.mem_cons.mp (List.mem_of_mem_take he) with rfl | he
        · exact ⟨rfl, eligible_standalone hp.1.1, hp.1.2, hv⟩
        · exact h e he
    · rw [if_neg hp]
      exact h

theorem mem_unexpired {e : Entry ε} (h : e ∈ if x.expired then [] else bucket) : e ∈ bucket := by
  split at h
  · cases h
  · exact h

theorem streamTurn_stored (h : ∀ e ∈ bucket, Stored W e) :
    ∀ e ∈ (streamTurn W bucket x).1, Stored W e :=
  serve_stored fun e he => h e (mem_unexpired he)

theorem after_snoc (W : Wiring ε) (turns : List StreamTurn) (x : StreamTurn) :
    after W (turns ++ [x]) = (streamTurn W (after W turns) x).1 := by
  simp [after]

theorem after_stored (W : Wiring ε) (turns : List StreamTurn) :
    ∀ e ∈ after W turns, Stored W e := by
  induction turns using List.reverseRecOn with
  | nil => simp [after]
  | append_singleton turns x ih =>
    rw [after_snoc]
    exact streamTurn_stored ih

theorem fromCache_spec {turns : List StreamTurn} {e : Entry ε}
    (h : (streamTurn W (after W turns) x).2 = .fromCache e) :
    Stored W e ∧ isStandalone W.chars x.message = true ∧ Matches W x.message e.query := by
  unfold streamTurn serve at h
  cases hl : lookup W (if x.expired then [] else after W turns) x with
  | none => simp [hl] at h
  | some found =>
    simp only [hl, Outcome.fromCache.injEq] at h
    subst h
    obtain ⟨hel, hmem, qv, hq, ht⟩ := lookup_some hl
    have hs : Stored W found := after_stored W turns found (mem_unexpired hmem)
    exact ⟨hs, eligible_standalone hel, qv, found.emb, hq, hs.embedded, ht⟩

theorem isolated_of_userFree (h : UserFree W) (turns : List StreamTurn) (x : StreamTurn) :
    Isolated W turns x := by
  have hsame : ∀ e, (streamTurn W (after W turns) x).2 = .fromCache e →
      ∀ u, W.pipeline e.askedBy e.query = W.pipeline u e.query := by
    intro e he u
    obtain ⟨hs, hx, hm⟩ := fromCache_spec he
    exact h x.message e.query e.askedBy u hx hs.standalone hm (hs.produced ▸ hs.useful)
  constructor
  · intro e he
    exact hsame e he x.userId
  · intro e u he hne
    exact absurd ((hsame e he u).symm.trans (hsame e he x.userId)) hne

/-- The shortest history that shares an answer: one user asks the stored query and another
one a query that matches it. -/
theorem shared_answer {query stored u v : String} (hq : isStandalone W.chars query = true)
    (hs : isStandalone W.chars stored = true) (hm : Matches W query stored)
    (hc : shouldCache W.text (W.pipeline u stored) = true) :
    ∃ e, (streamTurn W (after W [⟨u, stored, false, false, false, false⟩])
        ⟨v, query, false, false, false, false⟩).2 = .fromCache e ∧
      e.askedBy = u ∧ e.query = stored := by
  obtain ⟨qv, ev, hqv, hev, ht⟩ := hm
  have hbucket : after W [⟨u, stored, false, false, false, false⟩] =
      [⟨ev, W.pipeline u stored, u, stored⟩] := by
    have hmiss : get W.embedding ([] : List (Entry ε)) stored = none := by
      simp [get, best, hev]
    simp [after, streamTurn, serve, lookup, eligible, hs, hc, hmiss, put, hev, bucketMax]
  refine ⟨⟨ev, W.pipeline u stored, u, stored⟩, ?_, rfl, rfl⟩
  have hpos : 0 < W.embedding.similarity qv ev := lt_of_lt_of_le (by decide +kernel) ht
  have hget : get W.embedding [⟨ev, W.pipeline u stored, u, stored⟩] query =
      some ⟨ev, W.pipeline u stored, u, stored⟩ := by
    simp [get, best, better, hqv, bucketMax, hpos, ht]
  rw [hbucket]
  simp [streamTurn, serve, lookup, eligible, hq, hget]

end Turns

/-- With any embedding, every history of turns keeps the users apart exactly when the
pipeline answers the standalone queries that it can share alike for all of them. -/
theorem semantic_cache_isolates_iff (W : Wiring ε) :
    (∀ turns, AtEach (Isolated W) turns) ↔ UserFree W := by
  constructor
  · intro h query stored u v hq hs hm hc
    obtain ⟨e, he, rfl, rfl⟩ := shared_answer (v := v) hq hs hm hc
    exact (h _ _ _ [] rfl).own e he
  · intro h turns before x rest _
    exact isolated_of_userFree h before x

def asciiChars : Chars where
  isSpace := Char.isWhitespace
  isWord c := c.isAlphanum || c = '_'
  isDigit := Char.isDigit
  fold := Char.toLower

def exactEmbedding : Embedding String := ⟨some, fun a b => if a = b then 1 else 0⟩

def ticketWiring : Wiring String where
  text := asciiText
  chars := asciiChars
  embedding := exactEmbedding
  pipeline userId _ := ⟨"executed", "You have one open ticket, " ++
    (if userId = "ann" then "INC0001001" else "INC0002002") ++ ".", ["uc02_ticket_lookup"], none⟩

def myTickets (userId : String) : StreamTurn :=
  ⟨userId, "show my open tickets", false, false, false, false⟩

/-- Bob's query, word for word Ann's, is answered with Ann's ticket. -/
theorem first_person_answer_shared :
    (streamTurn ticketWiring (after ticketWiring [myTickets "ann"]) (myTickets "bob")).2.response =
      ⟨"executed", "You have one open ticket, INC0001001.", ["uc02_ticket_lookup"], none⟩ ∧
    ¬ AtEach (Isolated ticketWiring) [myTickets "ann", myTickets "bob"] := by
  have hs : isStandalone ticketWiring.chars "show my open tickets" = true := by decide +kernel
  have hc : shouldCache ticketWiring.text (ticketWiring.pipeline "ann" "show my open tickets") =
      true := by decide +kernel
  have hm : Matches ticketWiring "show my open tickets" "show my open tickets" :=
    ⟨_, _, rfl, rfl, by decide +kernel⟩
  obtain ⟨e, he, hu, hq⟩ := @shared_answer _ ticketWiring _ _ "ann" "bob" hs hs hm hc
  have hstored := (fromCache_spec he).1.produced
  rw [hu, hq] at hstored
  refine ⟨?_, ?_⟩
  · rw [myTickets, myTickets, he, Outcome.response, hstored]
    decide +kernel
  · intro h
    have hown := (h [myTickets "ann"] (myTickets "bob") [] rfl).own e he
    rw [hu, hq] at hown
    revert hown
    decide +kernel

end SemanticTurnCache
