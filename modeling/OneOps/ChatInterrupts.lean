import OneOps.ListSplit
import Mathlib.Data.List.DropRight
import Mathlib.Data.List.Induction
import Mathlib.Logic.Function.Basic

/-! The chat door of one session: the turn cache is looked up first, then a request that
answers a paused turn resumes its thread, and every other request runs a fresh turn. The
pending interrupt is marked in the same cache as the answers; the cache cannot delete, so a
consumed marker is overwritten with an empty value. -/
namespace ChatInterrupts

open ListSplit

/-- The string functions of the runtime that the cache key and `should_cache` use. -/
structure Text where
  lower : String → String
  isSpace : Char → Bool
  sha256 : String → String

def pipelineCacheVersion : String := "v20"

def normalize (T : Text) (s : String) : String :=
  let words := ((T.lower s).toList.splitOnP T.isSpace).filter fun w => w ≠ []
  " ".intercalate (words.map String.ofList)

structure InterruptPayload where
  prompt : Option String
  question : Option String
  deriving DecidableEq, Repr

structure TurnResponse where
  finalStatus : String
  finalResponse : String
  stepAgents : List String
  interrupt : Option InterruptPayload
  deriving DecidableEq, Repr

def shouldCache (T : Text) (r : TurnResponse) : Bool :=
  if T.lower r.finalStatus ∈ ["clarification", "refused", "error", "interrupted", ""] then false
  else if r.interrupt.isSome then false
  else if "uc08_fulfillment" ∈ r.stepAgents then false
  else if ((r.finalResponse.toList.dropWhile T.isSpace).rdropWhile T.isSpace).length < 20 then false
  else ¬ "out of my scope".toList <:+: (T.lower r.finalResponse).toList

/-- What the graph returned for the turn; `failed` is an exception. -/
inductive GraphOut where
  | paused (payload : InterruptPayload) (stepAgents : List String)
  | finished (finalStatus finalResponse : String) (stepAgents : List String)
      (offer : Option InterruptPayload)
  | failed
  deriving DecidableEq, Repr

/-- A request with what happens to it: the rows that expired before it looked them up, and
the outcome of the graph. -/
structure ChatTurn where
  requestToken : String
  userId : String
  role : String
  message : String
  interruptResume : Bool
  hasAnswer : Bool
  cachedExpired : Bool
  markerExpired : Bool
  out : GraphOut

def requestId (x : ChatTurn) : String := "req_" ++ x.requestToken

structure ChatSession where
  tenantId : String
  sessionId : String

def cacheKey (T : Text) (S : ChatSession) (x : ChatTurn) : String :=
  let raw := S.tenantId ++ "\x1f" ++ x.userId ++ "\x1f" ++ x.role ++ "\x1f" ++ S.sessionId ++
    "\x1f" ++ normalize T x.message ++ "\x1f" ++ "v=" ++ pipelineCacheVersion
  String.ofList ((T.sha256 raw).toList.take 32)

inductive Marker where
  | armed (payload : InterruptPayload) (thread : String)
  | cleared
  deriving DecidableEq, Repr

/-- The rows of one session. A turn's key is hexadecimal, the marker's key starts with
`__interrupt__`, so they do not meet. -/
structure TurnCache where
  answers : String → Option TurnResponse
  marker : Option Marker

inductive Handling where
  | fromCache (response : TurnResponse)
  | resumed (thread : String) (pausedAgain : Bool) (response : TurnResponse)
  | fresh (paused : Bool) (response : Option TurnResponse)
  deriving DecidableEq, Repr

/-- A cleared marker names no thread, so the session's own id stands in. -/
def pausedThread (S : ChatSession) : Marker → String
  | .armed _ thread => if thread = "" then S.sessionId else thread
  | .cleared => S.sessionId

def promptOf (p : InterruptPayload) (dflt : String) : String := p.prompt.getD (p.question.getD dflt)

def resumeTurn (S : ChatSession) (c : TurnCache) (x : ChatTurn) (m : Marker) :
    TurnCache × Handling :=
  match x.out with
  | .paused payload agents =>
    ({ c with marker := some (.armed payload (pausedThread S m)) },
      .resumed (pausedThread S m) true
        ⟨"interrupted", promptOf payload "", agents, some payload⟩)
  | .finished status response agents _ =>
    ({ c with marker := some .cleared },
      .resumed (pausedThread S m) false
        ⟨if status = "" then "executed" else status, response, agents, none⟩)
  | .failed =>
    ({ c with marker := some .cleared },
      .resumed (pausedThread S m) false ⟨"executed", "", [], none⟩)

def putAnswer (T : Text) (S : ChatSession) (c : TurnCache) (x : ChatTurn) (r : TurnResponse) :
    TurnCache :=
  if shouldCache T r then
    { c with answers := Function.update c.answers (cacheKey T S x) (some r) }
  else c

def freshTurn (T : Text) (S : ChatSession) (c : TurnCache) (x : ChatTurn) : TurnCache × Handling :=
  match x.out with
  | .paused payload _ =>
    let r : TurnResponse := ⟨"interrupted", promptOf payload "Input required.", [], some payload⟩
    (putAnswer T S { c with marker := some (.armed payload (requestId x)) } x r,
      .fresh true (some r))
  | .finished status response agents offer =>
    let r : TurnResponse := ⟨status, response, agents, offer⟩
    (putAnswer T S c x r, .fresh false (some r))
  | .failed => (c, .fresh false none)

def cached (T : Text) (S : ChatSession) (c : TurnCache) (x : ChatTurn) : Option TurnResponse :=
  if x.cachedExpired then none else c.answers (cacheKey T S x)

def pendingMarker (c : TurnCache) (x : ChatTurn) : Option Marker :=
  if x.markerExpired then none else c.marker

def chat (T : Text) (S : ChatSession) (c : TurnCache) (x : ChatTurn) : TurnCache × Handling :=
  match cached T S c x with
  | some r => (c, .fromCache r)
  | none =>
    let c := { c with answers := Function.update c.answers (cacheKey T S x) none }
    if x.interruptResume && x.hasAnswer then
      match pendingMarker c x with
      | some m => resumeTurn S c x m
      | none => freshTurn T S { c with marker := none } x
    else freshTurn T S c x

def pendingAfter (pending : Option String) (x : ChatTurn) : Handling → Option String
  | .fromCache _ => pending
  | .fresh true _ => some (requestId x)
  | .fresh false _ => pending
  | .resumed thread true _ => some thread
  | .resumed _ false _ => none

def after (T : Text) (S : ChatSession) (xs : List ChatTurn) : TurnCache × Option String :=
  xs.foldl (fun s x => ((chat T S s.1 x).1, pendingAfter s.2 x (chat T S s.1 x).2))
    (⟨fun _ => none, none⟩, none)

/-- A resume request resumes the pending interrupt, and nothing else. -/
structure Obeyed (pending : Option String) (x : ChatTurn) (h : Handling) : Prop where
  resumes : x.interruptResume = true → ∀ thread, pending = some thread →
    ∃ again r, h = .resumed thread again r
  once : x.interruptResume = true → pending = none → ∀ thread again r, h ≠ .resumed thread again r

/-- With an interrupt pending, its marker is still there, the request carries an answer, and
no cached turn has its message. With none pending, the last resume's cleared marker has
expired, or the request has no answer, or a cached turn has its message. -/
def Unambiguous (T : Text) (S : ChatSession) (c : TurnCache) (pending : Option String)
    (x : ChatTurn) : Prop :=
  x.interruptResume = true →
    (pending.isSome = true ↔
      (x.hasAnswer = true ∧ cached T S c x = none ∧ (pendingMarker c x).isSome = true))

structure Agree (S : ChatSession) (c : TurnCache) (pending : Option String) : Prop where
  armed : ∀ payload thread, c.marker = some (.armed payload thread) → pending = some thread
  cleared : c.marker = some .cleared → pending = none
  thread : ∀ thread, pending = some thread → thread = "" → thread = S.sessionId

section Requests

variable {T : Text} {S : ChatSession} {c : TurnCache} {p : Option String} {x : ChatTurn}

theorem Agree.pausedThread (h : Agree S c p) {payload : InterruptPayload} {thread : String}
    (hm : c.marker = some (.armed payload thread)) :
    p = some (pausedThread S (.armed payload thread)) := by
  have hp := h.armed payload thread hm
  by_cases ht : thread = ""
  · have := h.thread thread hp ht
    simp only [ChatInterrupts.pausedThread, ht, if_true]
    rw [hp, ← this, ht]
  · simp only [ChatInterrupts.pausedThread, ht, if_false]
    exact hp

theorem pausedThread_empty {m : Marker} (h : pausedThread S m = "") :
    pausedThread S m = S.sessionId := by
  cases m with
  | cleared => rfl
  | armed payload thread =>
    by_cases ht : thread = ""
    · simp only [ChatInterrupts.pausedThread, ht, if_true]
    · simp only [ChatInterrupts.pausedThread, ht, if_false] at h

theorem requestId_ne (x : ChatTurn) : requestId x ≠ "" := by
  simp [requestId]

theorem chat_cached {r : TurnResponse} (h : cached T S c x = some r) :
    chat T S c x = (c, .fromCache r) := by
  rw [chat, h]

theorem chat_resume {m : Marker} (hc : cached T S c x = none) (hr : x.interruptResume = true)
    (ha : x.hasAnswer = true) (hm : pendingMarker c x = some m) :
    ∃ d : TurnCache, chat T S c x = resumeTurn S d x m := by
  refine ⟨{ c with answers := Function.update c.answers (cacheKey T S x) none }, ?_⟩
  have hm' : pendingMarker { c with answers := Function.update c.answers (cacheKey T S x) none } x =
      some m := hm
  simp only [chat, hc, hr, ha, Bool.and_self, if_true, hm']

theorem chat_fresh (hc : cached T S c x = none)
    (h : ¬ (x.interruptResume = true ∧ x.hasAnswer = true ∧ (pendingMarker c x).isSome = true)) :
    ∃ d : TurnCache, (d.marker = c.marker ∨ d.marker = none) ∧
      chat T S c x = freshTurn T S d x := by
  by_cases hra : (x.interruptResume && x.hasAnswer) = true
  · rw [Bool.and_eq_true] at hra
    have hm : pendingMarker
        { c with answers := Function.update c.answers (cacheKey T S x) none } x =
        none := by
      cases hp : pendingMarker c x with
      | none => exact hp
      | some m => exact absurd ⟨hra.1, hra.2, by rw [hp]; rfl⟩ h
    refine ⟨{ answers := Function.update c.answers (cacheKey T S x) none, marker := none },
      .inr rfl, ?_⟩
    simp only [chat, hc, hra.1, hra.2, Bool.and_self, if_true, hm]
  · refine ⟨{ c with answers := Function.update c.answers (cacheKey T S x) none }, .inl rfl, ?_⟩
    simp only [chat, hc, hra, Bool.false_eq_true, if_false]

theorem chat_cases (T : Text) (S : ChatSession) (c : TurnCache) (x : ChatTurn) :
    (∃ r, cached T S c x = some r ∧ chat T S c x = (c, .fromCache r)) ∨
      (∃ d m, cached T S c x = none ∧ x.interruptResume = true ∧ x.hasAnswer = true ∧
        pendingMarker c x = some m ∧ chat T S c x = resumeTurn S d x m) ∨
      ∃ d : TurnCache,
        ¬ (x.interruptResume = true ∧ x.hasAnswer = true ∧ (pendingMarker c x).isSome = true) ∧
          (d.marker = c.marker ∨ d.marker = none) ∧ chat T S c x = freshTurn T S d x := by
  cases hc : cached T S c x with
  | some r => exact .inl ⟨r, rfl, chat_cached hc⟩
  | none =>
    by_cases hr : x.interruptResume = true ∧ x.hasAnswer = true ∧
        (pendingMarker c x).isSome = true
    · obtain ⟨m, hm⟩ := Option.isSome_iff_exists.mp hr.2.2
      obtain ⟨d, hd⟩ := chat_resume hc hr.1 hr.2.1 hm
      exact .inr (.inl ⟨d, m, rfl, hr.1, hr.2.1, hm, hd⟩)
    · obtain ⟨d, hdm, hd⟩ := chat_fresh hc hr
      exact .inr (.inr ⟨d, hr, hdm, hd⟩)

theorem resumeTurn_handling (d : TurnCache) (m : Marker) :
    ∃ again r, (resumeTurn S d x m).2 = .resumed (pausedThread S m) again r := by
  unfold resumeTurn
  cases x.out <;> exact ⟨_, _, rfl⟩

theorem freshTurn_handling (d : TurnCache) :
    ∃ paused r, (freshTurn T S d x).2 = .fresh paused r := by
  unfold freshTurn
  cases x.out <;> exact ⟨_, _, rfl⟩

theorem putAnswer_marker (d : TurnCache) (r : TurnResponse) :
    (putAnswer T S d x r).marker = d.marker := by
  unfold putAnswer
  split <;> rfl

theorem agree_resume (d : TurnCache) (m : Marker) :
    Agree S (resumeTurn S d x m).1 (pendingAfter p x (resumeTurn S d x m).2) := by
  unfold resumeTurn
  cases x.out with
  | paused payload agents =>
    constructor
    · intro _ _ hm
      cases hm
      rfl
    · intro hm
      cases hm
    · intro thread ht he
      cases ht
      exact pausedThread_empty he
  | finished status response agents offer =>
    exact ⟨fun _ _ hm => (by cases hm), fun _ => rfl, fun _ ht => (by cases ht)⟩
  | failed => exact ⟨fun _ _ hm => (by cases hm), fun _ => rfl, fun _ ht => (by cases ht)⟩

theorem Agree.of_marker (h : Agree S c p) {d : TurnCache}
    (hd : d.marker = c.marker ∨ d.marker = none) : Agree S d p := by
  rcases hd with hd | hd
  · exact ⟨fun payload thread hm => h.armed payload thread (hd ▸ hm),
      fun hm => h.cleared (hd ▸ hm), h.thread⟩
  · refine ⟨fun payload thread hm => ?_, fun hm => ?_, h.thread⟩
    · rw [hd] at hm
      cases hm
    · rw [hd] at hm
      cases hm

theorem Agree.fresh {d : TurnCache} (h : Agree S d p) :
    Agree S (freshTurn T S d x).1 (pendingAfter p x (freshTurn T S d x).2) := by
  unfold freshTurn
  cases x.out with
  | paused payload agents =>
    constructor
    · intro _ _ hm
      rw [putAnswer_marker] at hm
      cases hm
      rfl
    · intro hm
      rw [putAnswer_marker] at hm
      cases hm
    · intro thread ht he
      cases ht
      exact absurd he (requestId_ne x)
  | finished status response agents offer =>
    exact h.of_marker (.inl (putAnswer_marker _ _))
  | failed => exact h

theorem Agree.chat (h : Agree S c p) :
    Agree S (chat T S c x).1 (pendingAfter p x (chat T S c x).2) := by
  obtain ⟨r, _, hd⟩ | ⟨d, m, _, _, _, _, hd⟩ | ⟨d, _, hdm, hd⟩ := chat_cases T S c x
  · rw [hd]
    exact h
  · rw [hd]
    exact agree_resume d m
  · rw [hd]
    exact (h.of_marker hdm).fresh

theorem pendingMarker_eq {m : Marker} (h : pendingMarker c x = some m) : c.marker = some m := by
  unfold pendingMarker at h
  split at h
  · cases h
  · exact h

/-- A request is handled as a resume exactly when it asks for one with an answer, misses the
turn cache and finds a marker. -/
theorem resumed_iff :
    (∃ thread again r, (chat T S c x).2 = .resumed thread again r) ↔
      x.interruptResume = true ∧ x.hasAnswer = true ∧ cached T S c x = none ∧
        (pendingMarker c x).isSome = true := by
  obtain ⟨r, hc, hd⟩ | ⟨d, m, hc, hr, ha, hm, hd⟩ | ⟨d, hno, _, hd⟩ := chat_cases T S c x
  · rw [hd, hc]
    simp
  · obtain ⟨again, r, hh⟩ := resumeTurn_handling (S := S) (x := x) d m
    rw [hd, hh, hc, hm]
    exact ⟨fun _ => ⟨hr, ha, rfl, rfl⟩, fun _ => ⟨_, _, _, rfl⟩⟩
  · obtain ⟨paused, r, hh⟩ := freshTurn_handling (T := T) (S := S) (x := x) d
    rw [hd, hh]
    constructor
    · rintro ⟨_, _, _, he⟩
      cases he
    · rintro ⟨hr, ha, _, hm⟩
      exact absurd ⟨hr, ha, hm⟩ hno

theorem Agree.obeyed_iff (h : Agree S c p) :
    Obeyed p x (ChatInterrupts.chat T S c x).2 ↔ Unambiguous T S c p x := by
  constructor
  · intro ho hr
    constructor
    · intro hp
      obtain ⟨thread, ht⟩ := Option.isSome_iff_exists.mp hp
      obtain ⟨again, r, hh⟩ := ho.resumes hr thread ht
      exact (resumed_iff.mp ⟨thread, again, r, hh⟩).2
    · intro hcond
      by_contra hp
      rw [Option.not_isSome_iff_eq_none] at hp
      obtain ⟨thread, again, r, hh⟩ := resumed_iff.mpr ⟨hr, hcond⟩
      exact ho.once hr hp thread again r hh
  · intro hu
    constructor
    · rintro hr thread rfl
      obtain ⟨ha, hc, hm⟩ := (hu hr).mp rfl
      obtain ⟨m, hm⟩ := Option.isSome_iff_exists.mp hm
      obtain ⟨d, hd⟩ := chat_resume hc hr ha hm
      obtain ⟨again, r, hh⟩ := resumeTurn_handling (S := S) (x := x) d m
      refine ⟨again, r, ?_⟩
      rw [hd, hh]
      cases m with
      | cleared => exact absurd (h.cleared (pendingMarker_eq hm)) (by simp)
      | armed payload t =>
        have := h.pausedThread (pendingMarker_eq hm)
        rw [Option.some.injEq] at this
        rw [this]
    · rintro hr rfl thread again r hh
      have := (hu hr).mpr (resumed_iff.mp ⟨thread, again, r, hh⟩).2
      cases this

end Requests

theorem after_snoc (T : Text) (S : ChatSession) (xs : List ChatTurn) (x : ChatTurn) :
    after T S (xs ++ [x]) = ((chat T S (after T S xs).1 x).1,
      pendingAfter (after T S xs).2 x (chat T S (after T S xs).1 x).2) := by
  simp [after]

theorem after_agree (T : Text) (S : ChatSession) (xs : List ChatTurn) :
    Agree S (after T S xs).1 (after T S xs).2 := by
  induction xs using List.reverseRecOn with
  | nil => exact ⟨fun _ _ hm => (by cases hm), fun _ => rfl, fun _ ht => (by cases ht)⟩
  | append_singleton xs x ih =>
    rw [after_snoc]
    exact ih.chat

/-- In every sequence of requests, every resume request that finds a pending interrupt
resumes it and no other request resumes anything, exactly when each resume request is
unambiguous in the state that it finds. -/
theorem interrupt_protocol_iff (T : Text) (S : ChatSession) (xs : List ChatTurn) :
    AtEach (fun before x =>
        Obeyed (after T S before).2 x (chat T S (after T S before).1 x).2) xs ↔
      AtEach (fun before x =>
        Unambiguous T S (after T S before).1 (after T S before).2 x) xs := by
  constructor
  · intro h before x rest he
    exact (after_agree T S before).obeyed_iff.mp (h before x rest he)
  · intro h before x rest he
    exact (after_agree T S before).obeyed_iff.mpr (h before x rest he)

def asciiText : Text := ⟨String.toLower, Char.isWhitespace, fun s => s⟩

def laptopChat : ChatSession := ⟨"t1", "sess_1"⟩

def askConfirmation : ChatTurn :=
  ⟨"1", "ann", "requester", "order a laptop", false, false, false, false,
    .paused ⟨some "Confirm?", none⟩ []⟩

def confirm (token : String) : ChatTurn :=
  ⟨token, "ann", "requester", "yes", true, true, false, false,
    .finished "executed" "Your request was created." ["uc08_fulfillment"] none⟩

def sayYes : ChatTurn :=
  ⟨"2", "ann", "requester", "yes", false, false, false, false,
    .finished "executed" "Here is what I can help you with." ["uc03_kb_lookup"] none⟩

def confirmed : TurnCache × Option String :=
  after asciiText laptopChat [askConfirmation, confirm "2"]

def askedAfterYes : TurnCache × Option String :=
  after asciiText laptopChat [sayYes, askConfirmation]

/-- The confirmation, submitted twice, resumes twice; after a cached turn with the same
message it does not resume at all. -/
theorem resume_not_exactly_once :
    (confirmed.2 = none ∧
      (chat asciiText laptopChat confirmed.1 (confirm "3")).2 = .resumed "sess_1" false
        ⟨"executed", "Your request was created.", ["uc08_fulfillment"], none⟩ ∧
      ¬ Obeyed confirmed.2 (confirm "3") (chat asciiText laptopChat confirmed.1 (confirm "3")).2) ∧
    (askedAfterYes.2 = some "req_1" ∧
      (chat asciiText laptopChat askedAfterYes.1 (confirm "3")).2 = .fromCache
        ⟨"executed", "Here is what I can help you with.", ["uc03_kb_lookup"], none⟩ ∧
      ¬ Obeyed askedAfterYes.2 (confirm "3")
        (chat asciiText laptopChat askedAfterYes.1 (confirm "3")).2) := by
  have h₁ : confirmed.2 = none := by decide +kernel
  have h₂ : (chat asciiText laptopChat confirmed.1 (confirm "3")).2 = .resumed "sess_1" false
      ⟨"executed", "Your request was created.", ["uc08_fulfillment"], none⟩ := by decide +kernel
  have h₃ : askedAfterYes.2 = some "req_1" := by decide +kernel
  have h₄ : (chat asciiText laptopChat askedAfterYes.1 (confirm "3")).2 = .fromCache
      ⟨"executed", "Here is what I can help you with.", ["uc03_kb_lookup"], none⟩ := by
    decide +kernel
  refine ⟨⟨h₁, h₂, fun h => h.once rfl h₁ _ _ _ h₂⟩, h₃, h₄, fun h => ?_⟩
  obtain ⟨again, r, hr⟩ := h.resumes rfl _ h₃
  rw [h₄] at hr
  cases hr

end ChatInterrupts
