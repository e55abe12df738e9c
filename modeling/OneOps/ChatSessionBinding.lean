import OneOps.SessionConversation
import OneOps.SessionLifecycle

/-! How the chat doors of a tenant bind a turn to a session. The id comes from the client.
Over HTTP it is looked up, adopted if it is unknown and used as it is if it is found; over
the socket it is never looked up. What the metadata says about the owner is read nowhere. -/
namespace ChatSessionBinding

open SessionLifecycle SessionStore SessionConversation ListSplit

/-- `/api/chat` and `/api/chat/stream` resolve a session alike. -/
inductive Door where
  | http | socket
  deriving DecidableEq, Repr

/-- A request with what happens to it: the drawn ids, the calls of the lifecycle store that
fail, and the exchange that the pipeline ends in. -/
structure ChatRequest where
  door : Door
  userId : String
  sessionId : Option String
  exchange : Exchange
  now : ℕ
  createdToken : String
  newToken : String
  touchedToken : String
  lookupFails : Bool := false
  createFails : Bool := false
  touchFails : Bool := false

structure ChatState where
  lifecycle : Store
  sessions : String → Session ConversationEvent

structure Turn where
  userId : String
  sessionId : String
  history : List ConversationEvent
  owner : Option String
  deriving DecidableEq, Repr

/-- The runtime's white space, the retention of a session's log and the lifecycle's idle time. -/
structure Config where
  isSpace : Char → Bool
  policy : RetentionPolicy
  idleSeconds : ℕ

def strip (isSpace : Char → Bool) (s : String) : String :=
  String.ofList ((s.toList.dropWhile isSpace).rdropWhile isSpace)

def title (req : ChatRequest) : String := String.ofList (req.exchange.userMessage.toList.take 120)

def clientSid (cfg : Config) (req : ChatRequest) : String :=
  strip cfg.isSpace (req.sessionId.getD "")

def newSessionId (req : ChatRequest) : String := "sess_" ++ req.newToken

def lookup (cfg : Config) (s : Store) (req : ChatRequest) : Option SessionMeta :=
  if req.lookupFails then none else get s (clientSid cfg req) req.now

def createFor (cfg : Config) (s : Store) (req : ChatRequest) (sid : Option String) :
    Option String × Store :=
  if req.userId = "" ∨ req.createFails = true then (none, s)
  else (some (createdId sid req.createdToken),
    create cfg.idleSeconds s req.userId (title req) sid req.createdToken req.now)

def resolveSession (cfg : Config) (s : Store) (req : ChatRequest) : String × Store :=
  let sid := clientSid cfg req
  match req.door with
  | .socket => (if sid = "" then newSessionId req else sid, s)
  | .http =>
    if sid = "" then
      ((createFor cfg s req none).1.getD (newSessionId req), (createFor cfg s req none).2)
    else
      match lookup cfg s req with
      | some _ => (sid, s)
      | none => ((createFor cfg s req (some sid)).1.getD sid, (createFor cfg s req (some sid)).2)

def touchAfter (cfg : Config) (s : Store) (req : ChatRequest) (sid : String) : Store :=
  if req.door = .socket ∨ req.touchFails = true then s
  else touch cfg.idleSeconds s sid req.userId (title req) true req.touchedToken req.now

def chat (cfg : Config) (c : ChatState) (req : ChatRequest) : ChatState × Turn :=
  let resolved := resolveSession cfg c.lifecycle req
  let read := recent cfg.policy (c.sessions resolved.1)
  (⟨touchAfter cfg resolved.2 req resolved.1,
      Function.update c.sessions resolved.1 (appendTurnEvents cfg.policy read.2 req.exchange)⟩,
    ⟨req.userId, resolved.1, read.1, (resolved.2.metadata resolved.1).map SessionMeta.userId⟩)

/-- The other callers of the lifecycle store and its expiries act between the requests. -/
inductive Event where
  | chat (req : ChatRequest)
  | lifecycle (call : Call)

def step (cfg : Config) (c : ChatState) : Event → ChatState
  | .chat req => (chat cfg c req).1
  | .lifecycle call =>
      { c with lifecycle := SessionLifecycle.step cfg.idleSeconds c.lifecycle call }

def after (cfg : Config) (events : List Event) : ChatState :=
  events.foldl (step cfg) ⟨⟨fun _ => none, fun _ => []⟩, fun _ => ⟨[], none⟩⟩

def Turn.Own (t : Turn) : Prop := ∀ owner, t.owner = some owner → owner = t.userId

def RunsInOwn (cfg : Config) (c : ChatState) : Event → Prop
  | .chat req => (chat cfg c req).2.Own
  | .lifecycle _ => True

/-- The session that a request uses without having created it: over the socket whatever the
client names, over HTTP what the lookup finds, and the named or drawn id where no session
could be created. -/
def reused (cfg : Config) (s : Store) (req : ChatRequest) : Option String :=
  let sid := clientSid cfg req
  let uncreated := req.userId = "" ∨ req.createFails = true
  match req.door with
  | .socket => some (if sid = "" then newSessionId req else sid)
  | .http =>
    if sid = "" then (if uncreated then some (newSessionId req) else none)
    else if (lookup cfg s req).isSome ∨ uncreated then some sid else none

def ReusesOwn (cfg : Config) (c : ChatState) : Event → Prop
  | .chat req => ∀ sid m, reused cfg c.lifecycle req = some sid →
      c.lifecycle.metadata sid = some m → m.userId = req.userId
  | .lifecycle _ => True

section Requests

variable {cfg : Config} {s : Store} {req : ChatRequest}

theorem createFor_cases (cfg : Config) (s : Store) (req : ChatRequest) (sid : Option String) :
    ((req.userId = "" ∨ req.createFails = true) ∧ createFor cfg s req sid = (none, s)) ∨
    (¬ (req.userId = "" ∨ req.createFails = true) ∧ ∃ created s' m,
      createFor cfg s req sid = (some created, s') ∧ s'.metadata created = some m ∧
        m.userId = req.userId) := by
  by_cases hc : req.userId = "" ∨ req.createFails = true
  · exact .inl ⟨hc, if_pos hc⟩
  · right
    rw [createFor, if_neg hc, create, if_neg fun h => hc (.inl h)]
    exact ⟨hc, _, _, _, rfl, Function.update_self _ _ _, rfl⟩

theorem resolveSession_cases :
    (∃ sid, reused cfg s req = some sid ∧ resolveSession cfg s req = (sid, s)) ∨
    (reused cfg s req = none ∧ ∃ m, (resolveSession cfg s req).2.metadata
      (resolveSession cfg s req).1 = some m ∧ m.userId = req.userId) := by
  cases hd : req.door with
  | socket =>
    refine .inl ⟨if clientSid cfg req = "" then newSessionId req else clientSid cfg req, ?_, ?_⟩
    · simp only [reused, hd]
    · simp only [resolveSession, hd]
  | http =>
    by_cases hs : clientSid cfg req = ""
    · rcases createFor_cases cfg s req none with ⟨hc, he⟩ | ⟨hc, created, s', m, he, hm, hu⟩
      · refine .inl ⟨newSessionId req, ?_, ?_⟩
        · simp only [reused, hd, hs, hc, if_true]
        · simp only [resolveSession, hd, hs, he, if_true, Option.getD_none]
      · refine .inr ⟨?_, m, ?_, hu⟩
        · simp only [reused, hd, hs, hc, if_true, if_false]
        · simp only [resolveSession, hd, hs, he, if_true, Option.getD_some, hm]
    · cases hl : lookup cfg s req with
      | some found =>
        refine .inl ⟨clientSid cfg req, ?_, ?_⟩
        · simp only [reused, hd, hs, hl, Option.isSome_some, true_or, if_true, if_false]
        · simp only [resolveSession, hd, hs, hl, if_false]
      | none =>
        rcases createFor_cases cfg s req (some (clientSid cfg req)) with
          ⟨hc, he⟩ | ⟨hc, created, s', m, he, hm, hu⟩
        · refine .inl ⟨clientSid cfg req, ?_, ?_⟩
          · simp only [reused, hd, hs, hc, or_true, if_true, if_false]
          · simp only [resolveSession, hd, hs, hl, he, if_false, Option.getD_none]
        · refine .inr ⟨?_, m, ?_, hu⟩
          · simp only [reused, hd, hs, hl, hc, Option.isSome_none, Bool.false_eq_true, or_self,
              if_false]
          · simp only [resolveSession, hd, hs, hl, he, if_false, Option.getD_some, hm]

theorem runsInOwn_iff (cfg : Config) (c : ChatState) (e : Event) :
    RunsInOwn cfg c e ↔ ReusesOwn cfg c e := by
  cases e with
  | lifecycle call => exact Iff.rfl
  | chat req =>
    unfold RunsInOwn ReusesOwn Turn.Own chat
    rcases @resolveSession_cases cfg c.lifecycle req with ⟨sid, hr, hs⟩ | ⟨hr, m, hm, hu⟩
    · simp only [hs, hr, Option.map_eq_some_iff, Option.some.injEq]
      constructor
      · rintro h sid' m rfl hm
        exact h m.userId ⟨m, hm, rfl⟩
      · rintro h owner ⟨m, hm, rfl⟩
        exact h sid m rfl hm
    · simp [hr, hm, hu]

end Requests

/-- In every sequence of requests and of other calls of the lifecycle store, every turn runs
in a session that its metadata does not give to somebody else, exactly when every session
that a request reuses is the requesting user's. -/
theorem turns_bound_iff (cfg : Config) (events : List Event) :
    AtEach (fun before e => RunsInOwn cfg (after cfg before) e) events ↔
      AtEach (fun before e => ReusesOwn cfg (after cfg before) e) events :=
  atEach_congr (I := fun _ => True) trivial
    (fun before e _ => runsInOwn_iff cfg (after cfg before) e) (fun _ _ _ _ => trivial) events

def defaults : Config := ⟨Char.isWhitespace, defaultPolicy, 86400⟩

def ask (userId message reply token : String) (sessionId : Option String) (now : ℕ) :
    ChatRequest where
  door := .http
  userId := userId
  sessionId := sessionId
  exchange := ⟨message, reply, false, now, fun _ => false⟩
  now := now
  createdToken := token ++ "c"
  newToken := token ++ "n"
  touchedToken := token ++ "t"

def annsTurn : Event :=
  .chat (ask "ann" "reset my mailbox password" "I have reset it." "1" (some "sess_a") 1000)

/-- Bob sends the id of Ann's session. His turn runs in it and is given what she said. -/
theorem foreign_session_used :
    (chat defaults (after defaults [annsTurn])
        (ask "bob" "what did I ask?" "About your mailbox." "2" (some "sess_a") 2000)).2 =
      ⟨"bob", "sess_a", [⟨.user, "reset my mailbox password", 0, 1000⟩,
        ⟨.assistant, "I have reset it.", 1, 1000⟩], some "ann"⟩ ∧
    ¬ AtEach (fun before e => RunsInOwn defaults (after defaults before) e)
      [annsTurn,
        .chat (ask "bob" "what did I ask?" "About your mailbox." "2" (some "sess_a") 2000)] := by
  have hturn : (chat defaults (after defaults [annsTurn])
      (ask "bob" "what did I ask?" "About your mailbox." "2" (some "sess_a") 2000)).2 =
      ⟨"bob", "sess_a", [⟨.user, "reset my mailbox password", 0, 1000⟩,
        ⟨.assistant, "I have reset it.", 1, 1000⟩], some "ann"⟩ := by
    decide +kernel
  refine ⟨hturn, ?_⟩
  intro h
  have hown : (chat defaults (after defaults [annsTurn]) _).2.Own := h [annsTurn] _ [] rfl
  rw [hturn] at hown
  exact absurd (hown "ann" rfl) (by decide)

end ChatSessionBinding
