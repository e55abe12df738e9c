import OneOps.AnswerCache
import OneOps.ChatInterrupts

/-! The turn cache over a whole conversation. The pipeline is a deterministic function of
the message, the principal and the conversation state, which holds the focused record and
the history. The key of a turn has the message and the principal and nothing of the
state. -/
namespace ChatTurnCache

open AnswerCache ChatInterrupts ListSplit

/-- A request with the rows that expired before it looked them up. -/
structure Request where
  requestToken : String
  userId : String
  role : String
  message : String
  interruptResume : Bool := false
  interruptAnswer : Option String := none
  cachedExpired : Bool := false
  markerExpired : Bool := false
  deriving DecidableEq, Repr

def Request.turn (x : Request) (out : GraphOut) : ChatTurn :=
  ⟨x.requestToken, x.userId, x.role, x.message, x.interruptResume, x.interruptAnswer.isSome,
    x.cachedExpired, x.markerExpired, out⟩

variable {σ : Type*}

structure Pipeline (σ : Type*) where
  run : σ → (userId role message : String) → GraphOut × σ
  resume : σ → (thread answer : String) → GraphOut × σ

structure Question (σ : Type*) where
  request : Request
  marker : Option Marker
  state : σ

/-- What the pipeline does with a question. A request resumes a paused thread if it says so,
carries an answer and finds a marker. -/
def Pipeline.out (P : Pipeline σ) (S : ChatSession) (q : Question σ) : GraphOut × σ :=
  match q.request.interruptResume, q.request.interruptAnswer,
    if q.request.markerExpired then none else q.marker with
  | true, some answer, some m => P.resume q.state (pausedThread S m) answer
  | _, _, _ => P.run q.state q.request.userId q.request.role q.request.message

def response : Handling → Option TurnResponse
  | .fromCache r => some r
  | .resumed _ _ r => some r
  | .fresh _ r => r

/-- `origins` records which question each row of the cache answers. -/
structure Conversation (σ : Type*) where
  cache : TurnCache
  state : σ
  origins : String → Option (Question σ)

def Conversation.question (s : Conversation σ) (x : Request) : Question σ :=
  ⟨x, s.cache.marker, s.state⟩

section

variable (T : Text) (S : ChatSession) (P : Pipeline σ)

def answer (q : Question σ) : Option TurnResponse :=
  response (chat T S ⟨fun _ => none, q.marker⟩ (q.request.turn (P.out S q).1)).2

def key (q : Question σ) : String := cacheKey T S (q.request.turn .failed)

def handle (s : Conversation σ) (x : Request) : TurnCache × Handling :=
  chat T S s.cache (x.turn (P.out S (s.question x)).1)

/-- Another door, or an edit of the record, moves the conversation on without the cache. -/
inductive Event (σ : Type*) where
  | chat (x : Request)
  | elsewhere (state : σ)

def step (s : Conversation σ) : Event σ → Conversation σ
  | .elsewhere state => { s with state := state }
  | .chat x =>
    let q := s.question x
    let cache := (handle T S P s x).1
    match (handle T S P s x).2 with
    | .fromCache _ => { s with cache := cache }
    | .resumed _ _ _ => ⟨cache, (P.out S q).2, Function.update s.origins (key T S q) none⟩
    | .fresh _ r => ⟨cache, (P.out S q).2, Function.update s.origins (key T S q)
        (if r.any (shouldCache T) then some q else none)⟩

def after (start : σ) (events : List (Event σ)) : Conversation σ :=
  events.foldl (step T S P) ⟨⟨fun _ => none, none⟩, start, fun _ => none⟩

def Served (s : Conversation σ) : Event σ → Prop
  | .chat x => ∀ r, (handle T S P s x).2 = .fromCache r → answer T S P (s.question x) = some r
  | .elsewhere _ => True

/-- If an unexpired row was stored under the key of the request, then the pipeline answers
the request now as it answered the stored one then. -/
def Repeatable (s : Conversation σ) : Event σ → Prop
  | .chat x => x.cachedExpired = false → Agrees (key T S) (answer T S P) s.origins (s.question x)
  | .elsewhere _ => True

end

section Requests

variable {T : Text} {S : ChatSession} {P : Pipeline σ} {c : TurnCache} {x : ChatTurn}

def rowsAfter (T : Text) (rows : String → Option TurnResponse) (k : String)
    (r : Option TurnResponse) : String → Option TurnResponse :=
  Function.update rows k (r.filter (shouldCache T))

theorem putAnswer_rows (d : TurnCache) (r : TurnResponse) (hd : d.answers (cacheKey T S x) = none) :
    (putAnswer T S d x r).answers = rowsAfter T d.answers (cacheKey T S x) (some r) := by
  unfold putAnswer rowsAfter
  by_cases hs : shouldCache T r = true
  · simp [hs, Option.filter]
  · simp only [hs, Option.filter, Bool.false_eq_true, if_false]
    rw [← hd]
    exact (Function.update_eq_self _ _).symm

theorem resumeTurn_spec (S : ChatSession) (x : ChatTurn) (m : Marker) :
    ∃ thread again r, ∀ d : TurnCache, (resumeTurn S d x m).2 = .resumed thread again r ∧
      (resumeTurn S d x m).1.answers = d.answers := by
  unfold resumeTurn
  cases x.out <;> exact ⟨_, _, _, fun _ => ⟨rfl, rfl⟩⟩

theorem freshTurn_spec (T : Text) (S : ChatSession) (x : ChatTurn) :
    ∃ paused r, ∀ d : TurnCache, d.answers (cacheKey T S x) = none →
      (freshTurn T S d x).2 = .fresh paused r ∧
        (freshTurn T S d x).1.answers = rowsAfter T d.answers (cacheKey T S x) r := by
  unfold freshTurn
  cases x.out with
  | paused payload agents =>
    exact ⟨_, _, fun d hd => ⟨rfl, putAnswer_rows { d with marker := _ } _ hd⟩⟩
  | finished status text agents offer => exact ⟨_, _, fun d hd => ⟨rfl, putAnswer_rows d _ hd⟩⟩
  | failed =>
    refine ⟨_, _, fun d hd => ⟨rfl, ?_⟩⟩
    rw [rowsAfter, Option.filter_none, ← hd]
    exact (Function.update_eq_self _ _).symm

theorem chat_missed (T : Text) (S : ChatSession) (x : ChatTurn) (marker : Option Marker) :
    ∃ h, ∀ c : TurnCache, c.marker = marker → cached T S c x = none → (chat T S c x).2 = h ∧
      ((∃ thread again r, h = .resumed thread again r ∧
          (chat T S c x).1.answers = Function.update c.answers (cacheKey T S x) none) ∨
        ∃ paused r, h = .fresh paused r ∧
          (chat T S c x).1.answers = rowsAfter T c.answers (cacheKey T S x) r) := by
  obtain ⟨paused, r, hf⟩ := freshTurn_spec T S x
  have hfresh : ∀ c : TurnCache, ∀ marker,
      (freshTurn T S ⟨Function.update c.answers (cacheKey T S x) none, marker⟩ x).2 =
          .fresh paused r ∧
        (freshTurn T S ⟨Function.update c.answers (cacheKey T S x) none, marker⟩ x).1.answers =
          rowsAfter T c.answers (cacheKey T S x) r := by
    intro c marker
    obtain ⟨hh, hrows⟩ := hf ⟨Function.update c.answers (cacheKey T S x) none, marker⟩ (by simp)
    refine ⟨hh, hrows.trans ?_⟩
    simp [rowsAfter]
  by_cases hr : (x.interruptResume && x.hasAnswer) = true
  · cases hm : (if x.markerExpired = true then none else marker) with
    | some m =>
      obtain ⟨thread, again, r', hres⟩ := resumeTurn_spec S x m
      refine ⟨.resumed thread again r', ?_⟩
      rintro c rfl hc
      simp only [chat, hc, hr, if_true, pendingMarker, hm]
      exact ⟨(hres _).1, .inl ⟨thread, again, r', rfl, (hres _).2⟩⟩
    | none =>
      refine ⟨.fresh paused r, ?_⟩
      rintro c rfl hc
      simp only [chat, hc, hr, if_true, pendingMarker, hm]
      exact ⟨(hfresh c none).1, .inr ⟨paused, r, rfl, (hfresh c none).2⟩⟩
  · refine ⟨.fresh paused r, ?_⟩
    rintro c rfl hc
    simp only [chat, hc, hr, if_false, Bool.false_eq_true]
    exact ⟨(hfresh c c.marker).1, .inr ⟨paused, r, rfl, (hfresh c c.marker).2⟩⟩

end Requests

section Conversations

variable {T : Text} {S : ChatSession} {P : Pipeline σ} {s : Conversation σ}

def Known (T : Text) (S : ChatSession) (P : Pipeline σ) (s : Conversation σ) : Prop :=
  Traced (key T S) (answer T S P) s.cache.answers s.origins

theorem handle_missed {x : Request} (h : cached T S s.cache (x.turn .failed) = none) :
    ((∃ thread again r, (handle T S P s x).2 = .resumed thread again r) ∧
      (handle T S P s x).1.answers =
        Function.update s.cache.answers (key T S (s.question x)) none) ∨
    ∃ paused, (handle T S P s x).2 = .fresh paused (answer T S P (s.question x)) ∧
      (handle T S P s x).1.answers =
        rowsAfter T s.cache.answers (key T S (s.question x)) (answer T S P (s.question x)) := by
  obtain ⟨hd, hspec⟩ := chat_missed T S (x.turn (P.out S (s.question x)).1) s.cache.marker
  obtain ⟨hh, hcases⟩ := hspec s.cache rfl h
  have hempty : cached T S ⟨fun _ => none, s.cache.marker⟩
      (x.turn (P.out S (s.question x)).1) = none := by
    unfold cached
    split <;> rfl
  have hanswer : answer T S P (s.question x) = response hd :=
    congrArg response (hspec ⟨fun _ => none, s.cache.marker⟩ rfl hempty).1
  rcases hcases with ⟨thread, again, r, rfl, hrows⟩ | ⟨paused, r, rfl, hrows⟩
  · exact .inl ⟨⟨thread, again, r, hh⟩, hrows⟩
  · exact .inr ⟨paused, by rw [hanswer]; exact hh, by rw [hanswer]; exact hrows⟩

theorem handle_cached {x : Request} {r : TurnResponse}
    (h : cached T S s.cache (x.turn .failed) = some r) :
    handle T S P s x = (s.cache, .fromCache r) :=
  chat_cached h

theorem Known.step (h : Known T S P s) (e : Event σ) : Known T S P (step T S P s e) := by
  cases e with
  | elsewhere state => exact h
  | chat x =>
    cases hc : cached T S s.cache (x.turn .failed) with
    | some r =>
      simp only [ChatTurnCache.step, handle_cached hc]
      exact h
    | none =>
      have hdrop := h.drop (key T S (s.question x))
      rcases @handle_missed _ T S P s x hc with
        ⟨⟨thread, again, r, hh⟩, hrows⟩ | ⟨paused, hh, hrows⟩
      · simp only [ChatTurnCache.step, hh]
        unfold Known
        rwa [hrows]
      · simp only [ChatTurnCache.step, hh]
        unfold Known
        rw [hrows, rowsAfter]
        cases ha : answer T S P (s.question x) with
        | none => simpa using hdrop
        | some r =>
          by_cases hs : shouldCache T r = true
          · simpa [hs, Option.filter] using h.store ha
          · simpa [hs, Option.filter] using hdrop

theorem served_iff (h : Known T S P s) (e : Event σ) : Served T S P s e ↔ Repeatable T S P s e := by
  cases e with
  | elsewhere state => exact Iff.rfl
  | chat x =>
    have hfrom : ∀ r, (handle T S P s x).2 = .fromCache r ↔
        cached T S s.cache (x.turn .failed) = some r := by
      intro r
      cases hc : cached T S s.cache (x.turn .failed) with
      | some r' =>
        rw [handle_cached hc]
        simp
      | none =>
        rcases @handle_missed _ T S P s x hc with ⟨⟨thread, again, r, hh⟩, _⟩ | ⟨paused, hh, _⟩
        · simp [hh]
        · simp [hh]
    unfold Served Repeatable
    simp only [hfrom]
    by_cases he : x.cachedExpired = true
    · have hnone : cached T S s.cache (x.turn .failed) = none := if_pos he
      simp [hnone, he]
    · have hrow : cached T S s.cache (x.turn .failed) = s.cache.answers (key T S (s.question x)) :=
        if_neg he
      rw [hrow]
      simp only [Bool.eq_false_iff.mpr he, true_imp_iff]
      exact h.faithful_iff (s.question x)

theorem after_snoc (start : σ) (events : List (Event σ)) (e : Event σ) :
    after T S P start (events ++ [e]) = step T S P (after T S P start events) e := by
  simp [after]

theorem after_known (T : Text) (S : ChatSession) (P : Pipeline σ) (start : σ)
    (events : List (Event σ)) : Known T S P (after T S P start events) := by
  induction events using List.reverseRecOn with
  | nil => exact traced_empty
  | append_singleton events e ih =>
    rw [after_snoc]
    exact ih.step e

end Conversations

/-- In every conversation, each request that is answered from the cache gets the pipeline's
answer in the state that it finds, exactly when the pipeline answers every request as it
answered the stored request of the same key. -/
theorem turn_cache_faithful_iff (T : Text) (S : ChatSession) (P : Pipeline σ) (start : σ)
    (events : List (Event σ)) :
    AtEach (fun before e => Served T S P (after T S P start before) e) events ↔
      AtEach (fun before e => Repeatable T S P (after T S P start before) e) events := by
  constructor
  · intro h before e rest he
    exact (served_iff (after_known T S P start before) e).mp (h before e rest he)
  · intro h before e rest he
    exact (served_iff (after_known T S P start before) e).mpr (h before e rest he)

def reversingText : Text :=
  ⟨fun s => String.ofList (s.toList.map Char.toLower), Char.isWhitespace,
    fun s => String.ofList s.toList.reverse⟩

def focusPipeline : Pipeline String where
  run focus _ _ message :=
    if message = "what is its category?" then
      (.finished "executed" ("The category of " ++ focus ++ " is hardware.")
        ["uc01_summarization"] none, focus)
    else (.finished "executed" ("Here is a summary of " ++ message ++ ".")
      ["uc01_summarization"] none, message)
  resume focus _ _ := (.failed, focus)

def say (token message : String) : Request :=
  ⟨token, "ann", "requester", message, false, none, false, false⟩

def openedTwo : List (Event String) :=
  [.chat (say "1" "INC0001001"), .chat (say "2" "what is its category?"),
    .chat (say "3" "INC0001002")]

def askAgain : Request := say "4" "what is its category?"

/-- The second question, asked with INC0001002 in focus, gets the answer about INC0001001. -/
theorem stale_focus_served :
    (handle reversingText laptopChat focusPipeline
        (after reversingText laptopChat focusPipeline "" openedTwo) askAgain).2 =
      .fromCache ⟨"executed", "The category of INC0001001 is hardware.",
        ["uc01_summarization"], none⟩ ∧
    ¬ AtEach (fun before e => Served reversingText laptopChat focusPipeline
        (after reversingText laptopChat focusPipeline "" before) e)
      (openedTwo ++ [.chat askAgain]) := by
  have hserved : (handle reversingText laptopChat focusPipeline
      (after reversingText laptopChat focusPipeline "" openedTwo) askAgain).2 =
      .fromCache ⟨"executed", "The category of INC0001001 is hardware.",
        ["uc01_summarization"], none⟩ := by
    decide +kernel
  have hnow : answer reversingText laptopChat focusPipeline
      ((after reversingText laptopChat focusPipeline "" openedTwo).question askAgain) =
      some ⟨"executed", "The category of INC0001002 is hardware.",
        ["uc01_summarization"], none⟩ := by
    decide +kernel
  refine ⟨hserved, ?_⟩
  intro h
  have hsame := (h openedTwo (.chat askAgain) [] rfl _ hserved).symm.trans hnow
  revert hsame
  decide

end ChatTurnCache
