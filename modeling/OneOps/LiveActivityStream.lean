import Mathlib.Data.List.Basic
import Mathlib.Data.List.Induction
import Mathlib.Logic.Function.Basic
import OneOps.JsonText

/-! The live activity stream of a turn. Endpoints open a queue under a request id, tool calls
publish into whatever queue the id has, and the generator drains the queue while the turn
runs. Streams, tool calls and disconnecting clients interleave in any order. -/
namespace LiveActivityStream

open PythonJson

inductive Event where
  | toolStart (step : Option String) (agent tool action : String)
  | toolDone (step : Option String) (agent tool status : String) (latencyMs : ℕ)
  | token (text : String)
  deriving DecidableEq, Repr

def entry (name : String) (v : Value) : Key × Value := (.str name, v)

/-- The step runner names its step; `publish_tool` of the bespoke endpoints has none. -/
def stepEntry : Option String → List (Key × Value)
  | none => []
  | some step => [entry "step_id" (.str step)]

def Event.value : Event → Value
  | .toolStart step agent tool action =>
    .dict (entry "type" (.str "tool_start") :: stepEntry step ++
      [entry "agent_id" (.str agent), entry "tool_id" (.str tool), entry "action" (.str action)])
  | .toolDone step agent tool status latencyMs =>
    .dict (entry "type" (.str "tool_done") :: stepEntry step ++
      [entry "agent_id" (.str agent), entry "tool_id" (.str tool), entry "status" (.str status),
        entry "latency_ms" (.int latencyMs)])
  | .token text => .dict [entry "type" (.str "token"), entry "text" (.str text)]

/-- The two generators: `event_stream` of the bespoke endpoints and `_stream_turn` of the chat
and button doors. They share the loop and differ in what they say around it. -/
inductive Door where
  | eventStream
  | turn (door sessionId : String)

def turnStart (requestId : String) : Door → Value
  | .eventStream => .dict [entry "type" (.str "turn_start"), entry "request_id" (.str requestId)]
  | .turn _ sessionId =>
    .dict [entry "type" (.str "turn_start"), entry "request_id" (.str requestId),
      entry "session_id" (.str sessionId)]

def failedPayload (requestId : String) : Door → Value
  | .eventStream =>
    .dict [entry "final_status" (.str "failed"),
      entry "error" (.str ("stream failed (request_id=" ++ requestId ++ ")"))]
  | .turn door sessionId =>
    .dict [entry "door" (.str door), entry "final_status" (.str "failed"),
      entry "final_response"
        (.str ("The assistant ran into an error. Please try again. (request_id="
        ++ requestId ++ ")")),
      entry "step_results" (.list []), entry "session_id" (.str sessionId),
      entry "request_id" (.str requestId), entry "trace_id" .null, entry "latency_ms" (.int 0)]

def final (payload : Value) : Value := .dict [entry "type" (.str "final"), entry "payload" payload]

inductive Task where
  | running
  | returned (payload : Value)
  | raised
  | cancelled

/-- The payload of the last line; a cancelled task has none, as `CancelledError` passes the
`except`. -/
def Task.payload (door : Door) (requestId : String) : Task → Option Value
  | .running | .cancelled => none
  | .returned payload => some payload
  | .raised => some (failedPayload requestId door)

def Task.isDone : Task → Bool
  | .running => false
  | _ => true

theorem Task.isDone_of_payload {task : Task} {door : Door} {requestId : String} {payload : Value}
    (h : task.payload door requestId = some payload) : task.isDone = true := by
  cases task with
  | running => simp [Task.payload] at h
  | _ => rfl

inductive Phase where
  /-- In `asyncio.wait`, with what the getter has taken off the queue. -/
  | waiting (getter : Option Event)
  /-- In the loop that flushes what is buffered. -/
  | draining
  /-- The last line is out. -/
  | yielded
  /-- The `finally` has run: after the last line, or without one. -/
  | closed (finished : Bool)
  deriving DecidableEq, Repr

structure Stream where
  door : Door
  requestId : String
  queue : List Event
  task : Task
  phase : Phase
  lines : List Value

/-- A tool call at the step boundary. A handler that pauses the turn publishes nothing more. -/
inductive CallPhase where
  | running
  | done
  | paused
  deriving DecidableEq, Repr

structure Call where
  requestId : String
  step : Option String
  agent : String
  tool : String
  phase : CallPhase
  deriving DecidableEq, Repr

/-- `sinks` is `_SINKS`: the place of a stream, which stands for its queue. -/
structure System where
  sinks : String → Option ℕ
  streams : List Stream
  calls : List Call

def System.empty : System := ⟨fun _ => none, [], []⟩

def openSink (s : System) (requestId : String) : System :=
  { s with sinks := Function.update s.sinks requestId (some s.streams.length) }

def closeSink (s : System) (requestId : String) : System :=
  { s with sinks := Function.update s.sinks requestId none }

def Stream.put (st : Stream) (e : Event) : Stream := { st with queue := st.queue ++ [e] }

def publish (s : System) (requestId : String) (e : Event) : System :=
  if requestId = "" then s
  else
    match s.sinks requestId with
    | none => s
    | some i => { s with streams := s.streams.modify i (·.put e) }

def Stream.start (door : Door) (requestId : String) : Stream :=
  ⟨door, requestId, [], .running, .waiting none, [turnStart requestId door]⟩

def Stream.say (st : Stream) (v : Value) : Stream := { st with lines := st.lines ++ [v] }

def Stream.get (st : Stream) : Stream :=
  match st.phase, st.queue with
  | .waiting none, e :: rest => { st with queue := rest, phase := .waiting (some e) }
  | _, _ => st

def Stream.resume (st : Stream) : Stream :=
  match st.phase with
  | .waiting (some e) => { st.say e.value with phase := .waiting none }
  | .waiting none => if st.task.isDone then { st with phase := .draining } else st
  | .draining =>
    match st.queue with
    | e :: rest => { st.say e.value with queue := rest }
    | [] =>
      match st.task.payload st.door st.requestId with
      | none => { st with phase := .closed false }
      | some payload =>
        match dumps true (final payload) with
        | none => { st with phase := .closed false }
        | some _ => { st.say (final payload) with phase := .yielded }
  | .yielded => { st with phase := .closed true }
  | .closed _ => st

def Stream.isClosed (st : Stream) : Bool :=
  match st.phase with
  | .closed _ => true
  | _ => false

/-- The client is gone: the generator is closed where it stands and cancels its task. -/
def Stream.abandon (st : Stream) : Stream :=
  match st.phase with
  | .closed _ => st
  | phase =>
    { st with
      phase := .closed (phase = .yielded)
      task := if st.task.isDone then st.task else .cancelled }

def Stream.finish (st : Stream) (task : Task) : Stream :=
  if st.task.isDone then st else { st with task := task }

inductive Action where
  | stream (door : Door) (requestId : String)
  | get (i : ℕ)
  | resume (i : ℕ)
  | abandon (i : ℕ)
  | taskDone (i : ℕ) (task : Task)
  | call (requestId : String) (step : Option String) (agent tool action : String)
  | callDone (j : ℕ) (status : String) (latencyMs : ℕ)
  | callPaused (j : ℕ)
  | token (requestId text : String)

/-- A generator moves; the move that closes it runs the `finally`. -/
def move (s : System) (i : ℕ) (f : Stream → Stream) : System :=
  match s.streams[i]? with
  | none => s
  | some st =>
    let s' := { s with streams := s.streams.set i (f st) }
    if st.isClosed = false ∧ (f st).isClosed = true then closeSink s' st.requestId else s'

def Call.end (c : Call) (phase : CallPhase) : Call := { c with phase := phase }

/-- The call of `publish` that an action makes, if any. -/
def emits (s : System) : Action → Option (String × Event)
  | .call requestId step agent tool action => some (requestId, .toolStart step agent tool action)
  | .callDone j status latencyMs =>
    match s.calls[j]? with
    | some c =>
      if c.phase = .running then
        some (c.requestId, .toolDone c.step c.agent c.tool status latencyMs)
      else none
    | none => none
  | .token requestId text => some (requestId, .token text)
  | _ => none

def callPhases (s : System) : Action → List Call
  | .call requestId step agent tool _ => s.calls ++ [⟨requestId, step, agent, tool, .running⟩]
  | .callDone j _ _ => s.calls.modify j fun c => if c.phase = .running then c.end .done else c
  | .callPaused j => s.calls.modify j fun c => if c.phase = .running then c.end .paused else c
  | _ => s.calls

def deliver (s : System) (a : Action) : System :=
  match emits s a with
  | some (requestId, e) => publish s requestId e
  | none => s

def next (s : System) : Action → System
  | .stream door requestId =>
    let s' := openSink s requestId
    { s' with streams := s'.streams ++ [.start door requestId] }
  | .get i => move s i Stream.get
  | .resume i => move s i Stream.resume
  | .abandon i => move s i Stream.abandon
  | .taskDone i task => move s i (·.finish task)
  | a => { deliver s a with calls := callPhases s a }

def play (s : System) (as : List Action) : System := as.foldl next s

/-- The event that an action puts into the queue of stream `i`. -/
def routed (s : System) (i : ℕ) (a : Action) : Option Event :=
  match emits s a with
  | some (requestId, e) => if requestId ≠ "" ∧ s.sinks requestId = some i then some e else none
  | none => none

def touch (s : System) (i : ℕ) (a : Action) (st : Stream) : Stream :=
  match a with
  | .get j => if j = i then st.get else st
  | .resume j => if j = i then st.resume else st
  | .abandon j => if j = i then st.abandon else st
  | .taskDone j task => if j = i then st.finish task else st
  | a => ((routed s i a).map st.put).getD st

theorem move_stream {s : System} {i j : ℕ} {st : Stream} (h : s.streams[i]? = some st)
    (f : Stream → Stream) :
    (move s j f).streams[i]? = some (if j = i then f st else st) := by
  unfold move
  cases hj : s.streams[j]? with
  | none =>
    have hne : j ≠ i := by rintro rfl; simp [h] at hj
    simp [hne, h]
  | some st' =>
    have hset : (s.streams.set j (f st'))[i]? = some (if j = i then f st else st) := by
      by_cases hji : j = i
      · subst hji
        obtain rfl : st' = st := by simpa [h] using hj.symm
        simp [List.getElem?_set_self (List.getElem?_eq_some_iff.mp h).1]
      · simp [List.getElem?_set_ne hji, hji, h]
    simp only
    split
    · exact hset
    · exact hset

theorem publish_stream {s : System} {i : ℕ} {st : Stream} (h : s.streams[i]? = some st)
    (requestId : String) (e : Event) :
    (publish s requestId e).streams[i]? =
      some (if requestId ≠ "" ∧ s.sinks requestId = some i then st.put e else st) := by
  unfold publish
  by_cases hr : requestId = ""
  · simp [hr, h]
  · cases hk : s.sinks requestId with
    | none => simp [hr, h]
    | some j =>
      by_cases hji : j = i
      · subst hji
        simp [hr, h]
      · simp [hr, h, hji]

theorem deliver_stream {s : System} {i : ℕ} {st : Stream} (h : s.streams[i]? = some st)
    (a : Action) :
    (deliver s a).streams[i]? = some (((routed s i a).map st.put).getD st) := by
  unfold deliver routed
  cases emits s a with
  | none => simpa using h
  | some p =>
    simp only [publish_stream h]
    split <;> rfl

theorem next_stream {s : System} {i : ℕ} {st : Stream} (h : s.streams[i]? = some st)
    (a : Action) : (next s a).streams[i]? = some (touch s i a st) := by
  have hlt := (List.getElem?_eq_some_iff.mp h).1
  cases a with
  | stream door requestId =>
    simp [next, openSink, touch, routed, emits, List.getElem?_append_left hlt, h]
  | get j => exact move_stream h _
  | resume j => exact move_stream h _
  | abandon j => exact move_stream h _
  | taskDone j task => exact move_stream h _
  | call requestId step agent tool action => exact deliver_stream h _
  | callDone j status latencyMs => exact deliver_stream h _
  | callPaused j => exact deliver_stream h _
  | token requestId text => exact deliver_stream h _

/-- The events put into the queue of stream `i`. -/
def delivered (i : ℕ) : System → List Action → List Event
  | _, [] => []
  | s, a :: as => (routed s i a).toList ++ delivered i (next s a) as

def emitted (requestId : String) (s : System) (a : Action) : List Event :=
  match emits s a with
  | some (r, e) => if r = requestId then [e] else []
  | none => []

def published (requestId : String) : System → List Action → List Event
  | _, [] => []
  | s, a :: as => emitted requestId s a ++ published requestId (next s a) as

theorem play_append (s : System) (as bs : List Action) :
    play s (as ++ bs) = play (play s as) bs := List.foldl_append

theorem delivered_append (i : ℕ) : ∀ (as bs : List Action) (s : System),
    delivered i s (as ++ bs) = delivered i s as ++ delivered i (play s as) bs := by
  intro as bs
  induction as with
  | nil => intro s; rfl
  | cons a as ih =>
    intro s
    rw [List.cons_append, delivered, delivered, ih, List.append_assoc]
    rfl

theorem published_append (requestId : String) : ∀ (as bs : List Action) (s : System),
    published requestId s (as ++ bs) =
      published requestId s as ++ published requestId (play s as) bs := by
  intro as bs
  induction as with
  | nil => intro s; rfl
  | cons a as ih =>
    intro s
    rw [List.cons_append, published, published, ih, List.append_assoc]
    rfl

theorem delivered_snoc (i : ℕ) (s : System) (as : List Action) (a : Action) :
    delivered i s (as ++ [a]) = delivered i s as ++ (routed (play s as) i a).toList := by
  rw [delivered_append]
  simp [delivered]

def Stream.pending (st : Stream) : List Event :=
  match st.phase with
  | .waiting getter => getter.toList ++ st.queue
  | _ => st.queue

def Stream.lively (st : Stream) : Bool :=
  match st.phase with
  | .waiting _ | .draining => true
  | _ => false

def Stream.finished (st : Stream) : Bool :=
  match st.phase with
  | .yielded | .closed true => true
  | _ => false

def Stream.said (st : Stream) (shown : List Event) : Prop :=
  st.lines = turnStart st.requestId st.door :: shown.map Event.value

def Stream.saidAll (st : Stream) (shown : List Event) : Prop :=
  ∃ payload, st.task.payload st.door st.requestId = some payload ∧
    st.lines = turnStart st.requestId st.door :: shown.map Event.value ++ [final payload]

/-- The lines of stream `i`, against what was put into its queue up to now or, once the last
line is out, up to the moment at which the stream was last `lively`. -/
structure Told (i : ℕ) (s : System) (as : List Action) (st : Stream) (shown : List Event) :
    Prop where
  live : st.lively = true → st.said shown ∧ shown ++ st.pending = delivered i s as
  spent : st.lively = false → ∃ as₁ as₂ st₁, as = as₁ ++ as₂ ∧
    (play s as₁).streams[i]? = some st₁ ∧ st₁.lively = true ∧
    shown <+: delivered i s as₁ ∧
    (st.phase = .closed false → st.said shown) ∧
    (st.phase ≠ .closed false →
      st.saidAll shown ∧ shown = delivered i s as₁ ∧ st₁.task.isDone = true)

section

variable {i : ℕ} {s : System} {as : List Action} {st : Stream} {shown : List Event}

theorem routed_none {a : Action} (h : emits s a = none) : routed s i a = none := by
  simp [routed, h]

/-- A move that says nothing, while the queue may have grown by what was delivered. -/
theorem Told.keep {as' : List Action} {st' : Stream} {new : List Event}
    (h : Told i s as st shown)
    (hdel : delivered i s (as ++ as') = delivered i s as ++ new)
    (hid : st'.door = st.door ∧ st'.requestId = st.requestId ∧ st'.lines = st.lines)
    (hlive : st'.lively = st.lively) (hpend : st.lively = true → st'.pending = st.pending ++ new)
    (hphase : st.lively = false → (st'.phase = .closed false ↔ st.phase = .closed false))
    (htask : st.lively = false → st.phase ≠ .closed false → st'.task = st.task) :
    Told i s (as ++ as') st' shown := by
  obtain ⟨hdoor, hrid, hlines⟩ := hid
  have hsaid : st.said shown → st'.said shown := by
    intro hs
    rw [Stream.said, hdoor, hrid, hlines]
    exact hs
  refine ⟨fun hl => ?_, fun hl => ?_⟩
  · obtain ⟨hs, hp⟩ := h.live (hlive ▸ hl)
    refine ⟨hsaid hs, ?_⟩
    rw [hpend (hlive ▸ hl), ← List.append_assoc, hp, hdel]
  · obtain ⟨as₁, as₂, st₁, rfl, hst₁, hl₁, hpre, hcut, hall⟩ := h.spent (hlive ▸ hl)
    have hph := hphase (hlive ▸ hl)
    refine ⟨as₁, as₂ ++ as', st₁, List.append_assoc _ _ _, hst₁, hl₁, hpre,
      fun hc => hsaid (hcut (hph.mp hc)), fun hc => ?_⟩
    obtain ⟨⟨payload, hpay, hl⟩, heq⟩ := hall (fun hc' => hc (hph.mpr hc'))
    have ht := htask (by rwa [← hlive]) (fun hc' => hc (hph.mpr hc'))
    refine ⟨⟨payload, ?_, ?_⟩, heq⟩
    · rw [ht, hdoor, hrid]
      exact hpay
    · rw [hdoor, hrid, hlines]
      exact hl

theorem Told.tell {as' : List Action} {st' : Stream} {e : Event} (h : Told i s as st shown)
    (hdel : delivered i s (as ++ as') = delivered i s as)
    (hid : st'.door = st.door ∧ st'.requestId = st.requestId)
    (hlines : st'.lines = st.lines ++ [e.value]) (hl : st.lively = true)
    (hlive : st'.lively = true) (hpend : st.pending = e :: st'.pending) :
    Told i s (as ++ as') st' (shown ++ [e]) := by
  obtain ⟨hdoor, hrid⟩ := hid
  obtain ⟨hs, hp⟩ := h.live hl
  refine ⟨fun _ => ⟨?_, ?_⟩, fun hl' => absurd hl' (by simp [hlive])⟩
  · rw [Stream.said, hlines, hdoor, hrid, hs]
    simp
  · rw [List.append_assoc, List.singleton_append, ← hpend, hp, hdel]

/-- The stream is over: with the last line when nothing was left, or cut short. -/
theorem Told.endWith {as' : List Action} {st' : Stream} (h : Told i s as st shown)
    (hst : (play s as).streams[i]? = some st) (hl : st.lively = true) (hl' : st'.lively = false)
    (hid : st'.door = st.door ∧ st'.requestId = st.requestId)
    (hcut : st'.phase = .closed false → st'.lines = st.lines)
    (hall : st'.phase ≠ .closed false → st.pending = [] ∧ st'.task = st.task ∧ ∃ payload,
      st.task.payload st.door st.requestId = some payload ∧
        st'.lines = st.lines ++ [final payload]) :
    Told i s (as ++ as') st' shown := by
  obtain ⟨hdoor, hrid⟩ := hid
  obtain ⟨hs, hp⟩ := h.live hl
  refine ⟨fun hl'' => absurd hl'' (by simp [hl']), fun _ => ?_⟩
  refine ⟨as, as', st, rfl, hst, hl, ⟨_, hp⟩, fun hc => ?_, fun hc => ?_⟩
  · rw [Stream.said, hcut hc, hdoor, hrid]
    exact hs
  · obtain ⟨hnil, htask, payload, hpay, hlines⟩ := hall hc
    refine ⟨⟨payload, ?_, ?_⟩, ?_, Task.isDone_of_payload hpay⟩
    · rw [htask, hdoor, hrid]
      exact hpay
    · rw [hlines, hdoor, hrid, hs]
    · rw [← hp, hnil, List.append_nil]

end

def Stream.Orderly (st : Stream) : Prop := (∀ g, st.phase ≠ .waiting g) → st.task.isDone = true

theorem orderly_touch {st : Stream} (h : st.Orderly) (s : System) (i : ℕ) (a : Action) :
    (touch s i a st).Orderly := by
  have hget : st.get.Orderly := by
    unfold Stream.get
    split
    · exact fun hw => absurd rfl (hw _)
    · exact h
  have hresume : st.resume.Orderly := by
    unfold Stream.resume
    split
    · exact fun hw => absurd rfl (hw _)
    · split
      · next hd => exact fun _ => hd
      · exact h
    · next hp =>
      have hd : st.task.isDone = true := h fun g hg => by simp [hp] at hg
      split
      · exact fun _ => hd
      · split
        · exact fun _ => hd
        · split <;> exact fun _ => hd
    · next hp => exact fun _ => h fun g hg => by simp [hp] at hg
    · exact h
  have habandon : st.abandon.Orderly := by
    unfold Stream.abandon
    split
    · exact h
    · intro _
      simp only
      split
      · assumption
      · rfl
  have hfinish : ∀ task, (st.finish task).Orderly := by
    intro task
    unfold Stream.finish
    split
    · exact h
    · next hd => exact fun hw => absurd (h hw) hd
  have hput : ∀ o : Option Event, ((o.map st.put).getD st).Orderly := by
    intro o
    cases o with
    | none => exact h
    | some e => exact h
  cases a with
  | get j => rw [touch]; split; exacts [hget, h]
  | resume j => rw [touch]; split; exacts [hresume, h]
  | abandon j => rw [touch]; split; exacts [habandon, h]
  | taskDone j task => rw [touch]; split; exacts [hfinish task, h]
  | _ => exact hput _

section

variable {i : ℕ} {s : System} {as : List Action} {st : Stream} {shown : List Event}

theorem Told.get {as' : List Action} (h : Told i s as st shown)
    (hdel : delivered i s (as ++ as') = delivered i s as) : Told i s (as ++ as') st.get shown := by
  have hdel' : delivered i s (as ++ as') = delivered i s as ++ [] := by rw [hdel, List.append_nil]
  unfold Stream.get
  split
  · next e rest hp hq =>
    refine h.keep hdel' ⟨rfl, rfl, rfl⟩ ?_ (fun _ => ?_) ?_ ?_
    · simp [Stream.lively, hp]
    · simp [Stream.pending, hp, hq]
    · simp [Stream.lively, hp]
    · simp [Stream.lively, hp]
  · exact h.keep hdel' ⟨rfl, rfl, rfl⟩ rfl (fun _ => (List.append_nil _).symm)
      (fun _ => Iff.rfl) (fun _ _ => rfl)

theorem Told.resume {as' : List Action} (h : Told i s as st shown)
    (hst : (play s as).streams[i]? = some st)
    (hdel : delivered i s (as ++ as') = delivered i s as) :
    ∃ shown', Told i s (as ++ as') st.resume shown' := by
  have hdel' : delivered i s (as ++ as') = delivered i s as ++ [] := by rw [hdel, List.append_nil]
  have hsame : Told i s (as ++ as') st shown :=
    h.keep hdel' ⟨rfl, rfl, rfl⟩ rfl (fun _ => (List.append_nil _).symm)
      (fun _ => Iff.rfl) (fun _ _ => rfl)
  unfold Stream.resume
  split
  · next e hp =>
    exact ⟨_, h.tell hdel ⟨rfl, rfl⟩ rfl (by simp [Stream.lively, hp])
      (by simp [Stream.lively]) (by simp [Stream.pending, hp, Stream.say])⟩
  · next hp =>
    split
    · exact ⟨_, h.keep hdel' ⟨rfl, rfl, rfl⟩ (by simp [Stream.lively, hp])
        (fun _ => by simp [Stream.pending, hp]) (by simp [Stream.lively, hp])
        (by simp [Stream.lively, hp])⟩
    · exact ⟨_, hsame⟩
  · next hp =>
    have hl : st.lively = true := by simp [Stream.lively, hp]
    split
    · next e rest hq =>
      exact ⟨_, h.tell hdel ⟨rfl, rfl⟩ rfl hl (by simp [Stream.lively, Stream.say, hp])
        (by simp [Stream.pending, hp, hq, Stream.say])⟩
    · next hq =>
      have hcut : Told i s (as ++ as') { st with phase := .closed false } shown :=
        h.endWith hst hl rfl ⟨rfl, rfl⟩ (fun _ => rfl) (fun hc => absurd rfl hc)
      split
      · exact ⟨_, hcut⟩
      · next payload hpay =>
        split
        · exact ⟨_, hcut⟩
        · exact ⟨_, h.endWith hst hl rfl ⟨rfl, rfl⟩ (fun hc => by simp at hc)
            (fun _ => ⟨by simp [Stream.pending, hp, hq], rfl, payload, hpay, rfl⟩)⟩
  · next hp =>
    exact ⟨_, h.keep hdel' ⟨rfl, rfl, rfl⟩ (by simp [Stream.lively, hp])
      (by simp [Stream.lively, hp]) (by simp [hp]) (fun _ _ => rfl)⟩
  · exact ⟨_, hsame⟩

theorem Told.abandon {as' : List Action} (h : Told i s as st shown) (ho : st.Orderly)
    (hst : (play s as).streams[i]? = some st)
    (hdel : delivered i s (as ++ as') = delivered i s as) :
    Told i s (as ++ as') st.abandon shown := by
  have hdel' : delivered i s (as ++ as') = delivered i s as ++ [] := by rw [hdel, List.append_nil]
  have hcut (hl : st.lively = true) (hp : st.phase ≠ .yielded) (t : Task) :
      Told i s (as ++ as') { st with phase := .closed (decide (st.phase = .yielded)), task := t }
        shown :=
    h.endWith hst hl rfl ⟨rfl, rfl⟩ (fun _ => rfl) (fun hc => absurd (by simp [hp]) hc)
  unfold Stream.abandon
  cases hp : st.phase with
  | waiting g =>
    have hl : st.lively = true := by simp [Stream.lively, hp]
    simpa [hp] using hcut hl (by simp [hp]) _
  | draining =>
    have hl : st.lively = true := by simp [Stream.lively, hp]
    simpa [hp] using hcut hl (by simp [hp]) _
  | yielded =>
    have hd : st.task.isDone = true := ho fun g hg => by simp [hp] at hg
    exact h.keep hdel' ⟨rfl, rfl, rfl⟩ (by simp [Stream.lively, hp]) (by simp [Stream.lively, hp])
      (by simp [hp]) (fun _ _ => by simp [hd])
  | closed b =>
    exact h.keep hdel' ⟨rfl, rfl, rfl⟩ rfl (by simp [Stream.lively, hp]) (fun _ => Iff.rfl)
      (fun _ _ => rfl)

theorem Told.finish {as' : List Action} (h : Told i s as st shown) (ho : st.Orderly)
    (hdel : delivered i s (as ++ as') = delivered i s as) (task : Task) :
    Told i s (as ++ as') (st.finish task) shown := by
  have hdel' : delivered i s (as ++ as') = delivered i s as ++ [] := by rw [hdel, List.append_nil]
  have hdone (hl : st.lively = false) : st.task.isDone = true :=
    ho fun g hg => by simp [Stream.lively, hg] at hl
  unfold Stream.finish
  split
  · exact h.keep hdel' ⟨rfl, rfl, rfl⟩ rfl (fun _ => (List.append_nil _).symm)
      (fun _ => Iff.rfl) (fun _ _ => rfl)
  · next hd =>
    exact h.keep hdel' ⟨rfl, rfl, rfl⟩ rfl (fun _ => (List.append_nil _).symm)
      (fun _ => Iff.rfl) (fun hl => absurd (hdone hl) hd)

theorem Told.put {as' : List Action} (h : Told i s as st shown) (o : Option Event)
    (hdel : delivered i s (as ++ as') = delivered i s as ++ o.toList) :
    Told i s (as ++ as') ((o.map st.put).getD st) shown := by
  cases o with
  | none =>
    exact h.keep hdel ⟨rfl, rfl, rfl⟩ rfl (fun _ => (List.append_nil _).symm)
      (fun _ => Iff.rfl) (fun _ _ => rfl)
  | some e =>
    refine h.keep hdel ⟨rfl, rfl, rfl⟩ rfl (fun hl => ?_) (fun _ => Iff.rfl) (fun _ _ => rfl)
    simp only [Option.map_some, Option.getD_some, Stream.pending, Stream.put, Option.toList_some]
    cases hp : st.phase <;> simp

theorem Told.next (h : Told i s as st shown) (ho : st.Orderly)
    (hst : (play s as).streams[i]? = some st) (a : Action) :
    ∃ shown', Told i s (as ++ [a]) (touch (play s as) i a st) shown' := by
  have hsnoc := delivered_snoc i s as a
  have hquiet (hn : emits (play s as) a = none) :
      delivered i s (as ++ [a]) = delivered i s as := by
    rw [hsnoc, routed_none hn]
    simp
  have hsame (hn : emits (play s as) a = none) : Told i s (as ++ [a]) st shown := by
    have hdel : delivered i s (as ++ [a]) = delivered i s as ++ [] := by
      rw [hquiet hn, List.append_nil]
    exact h.keep hdel ⟨rfl, rfl, rfl⟩ rfl (fun _ => (List.append_nil _).symm)
      (fun _ => Iff.rfl) (fun _ _ => rfl)
  cases a with
  | get j =>
    rw [touch]
    split
    · exact ⟨_, h.get (hquiet rfl)⟩
    · exact ⟨_, hsame rfl⟩
  | resume j =>
    rw [touch]
    split
    · exact h.resume hst (hquiet rfl)
    · exact ⟨_, hsame rfl⟩
  | abandon j =>
    rw [touch]
    split
    · exact ⟨_, h.abandon ho hst (hquiet rfl)⟩
    · exact ⟨_, hsame rfl⟩
  | taskDone j task =>
    rw [touch]
    split
    · exact ⟨_, h.finish ho (hquiet rfl) task⟩
    · exact ⟨_, hsame rfl⟩
  | stream door requestId => exact ⟨_, h.put _ hsnoc⟩
  | call requestId step agent tool action => exact ⟨_, h.put _ hsnoc⟩
  | callDone j status latencyMs => exact ⟨_, h.put _ hsnoc⟩
  | callPaused j => exact ⟨_, h.put _ hsnoc⟩
  | token requestId text => exact ⟨_, h.put _ hsnoc⟩

theorem touch_id (s : System) (i : ℕ) (a : Action) (st : Stream) :
    (touch s i a st).door = st.door ∧ (touch s i a st).requestId = st.requestId := by
  have hput : ∀ o : Option Event, ((o.map st.put).getD st).door = st.door ∧
      ((o.map st.put).getD st).requestId = st.requestId := by
    intro o
    cases o <;> exact ⟨rfl, rfl⟩
  cases a with
  | get j => rw [touch, Stream.get]; split <;> [split; skip] <;> exact ⟨rfl, rfl⟩
  | resume j =>
    rw [touch, Stream.resume]
    split
    · split
      · exact ⟨rfl, rfl⟩
      · split <;> exact ⟨rfl, rfl⟩
      · split
        · exact ⟨rfl, rfl⟩
        · split
          · exact ⟨rfl, rfl⟩
          · split <;> exact ⟨rfl, rfl⟩
      · exact ⟨rfl, rfl⟩
      · exact ⟨rfl, rfl⟩
    · exact ⟨rfl, rfl⟩
  | abandon j => rw [touch, Stream.abandon]; split <;> [split; skip] <;> exact ⟨rfl, rfl⟩
  | taskDone j task => rw [touch, Stream.finish]; split <;> [split; skip] <;> exact ⟨rfl, rfl⟩
  | stream door requestId => exact hput _
  | call requestId step agent tool action => exact hput _
  | callDone j status latencyMs => exact hput _
  | callPaused j => exact hput _
  | token requestId text => exact hput _

/-- Over every schedule, a stream has said what its queue was given, in order. -/
theorem told_play (s : System) (i : ℕ) (door : Door) (requestId : String)
    (hs : s.streams[i]? = some (.start door requestId)) (as : List Action) :
    ∃ st shown, (play s as).streams[i]? = some st ∧
      (st.door = door ∧ st.requestId = requestId) ∧ st.Orderly ∧ Told i s as st shown := by
  induction as using List.reverseRecOn with
  | nil =>
    refine ⟨_, [], hs, ⟨rfl, rfl⟩, fun hw => absurd rfl (hw none), fun _ => ⟨rfl, rfl⟩,
      fun hl => ?_⟩
    simp [Stream.lively, Stream.start] at hl
  | append_singleton as a ih =>
    obtain ⟨st, shown, hst, ⟨hdoor, hrid⟩, ho, htold⟩ := ih
    obtain ⟨shown', htold'⟩ := htold.next ho hst a
    obtain ⟨hd, hr⟩ := touch_id (play s as) i a st
    refine ⟨_, shown', ?_, ⟨hd.trans hdoor, hr.trans hrid⟩, orderly_touch ho _ _ _, htold'⟩
    rw [play_append]
    exact next_stream hst a

end

def Wired (s : System) : Prop :=
  ∀ r j, s.sinks r = some j → ∃ st, s.streams[j]? = some st ∧ st.requestId = r

theorem publish_sinks (s : System) (r : String) (e : Event) : (publish s r e).sinks = s.sinks := by
  unfold publish
  split
  · rfl
  · split <;> rfl

theorem deliver_sinks (s : System) (a : Action) : (deliver s a).sinks = s.sinks := by
  unfold deliver
  split
  · exact publish_sinks _ _ _
  · rfl

theorem move_sinks (s : System) (i : ℕ) (f : Stream → Stream) :
    (move s i f).sinks = s.sinks ∨ ∃ st, s.streams[i]? = some st ∧ st.isClosed = false ∧
      (f st).isClosed = true ∧ (move s i f).sinks = Function.update s.sinks st.requestId none := by
  unfold move
  cases hi : s.streams[i]? with
  | none => exact .inl rfl
  | some st =>
    simp only
    split
    · next hc => exact .inr ⟨st, rfl, hc.1, hc.2, rfl⟩
    · exact .inl rfl

/-- What an action does to the sinks: a new stream takes its id, a stream that closes frees it. -/
theorem next_sinks (s : System) (a : Action) :
    (next s a).sinks = s.sinks ∨
    (∃ door r, a = .stream door r ∧
      (next s a).sinks = Function.update s.sinks r (some s.streams.length)) ∨
    (∃ j st, s.streams[j]? = some st ∧ st.isClosed = false ∧
      (touch s j a st).isClosed = true ∧
      (next s a).sinks = Function.update s.sinks st.requestId none) := by
  have hmove (j : ℕ) (f : Stream → Stream) (hn : next s a = move s j f)
      (ht : ∀ st, touch s j a st = f st) :
      (next s a).sinks = s.sinks ∨ (∃ door r, a = .stream door r ∧
        (next s a).sinks = Function.update s.sinks r (some s.streams.length)) ∨
      (∃ j st, s.streams[j]? = some st ∧ st.isClosed = false ∧
        (touch s j a st).isClosed = true ∧
        (next s a).sinks = Function.update s.sinks st.requestId none) := by
    rcases move_sinks s j f with h | ⟨st, hst, ho, hc, hs⟩
    · exact .inl (hn ▸ h)
    · exact .inr (.inr ⟨j, st, hst, ho, by rw [ht]; exact hc, by rw [hn]; exact hs⟩)
  cases a with
  | stream door r => exact .inr (.inl ⟨door, r, rfl, rfl⟩)
  | get j => exact hmove j _ rfl fun st => if_pos rfl
  | resume j => exact hmove j _ rfl fun st => if_pos rfl
  | abandon j => exact hmove j _ rfl fun st => if_pos rfl
  | taskDone j task => exact hmove j _ rfl fun st => if_pos rfl
  | call requestId step agent tool action => exact .inl (deliver_sinks s _)
  | callDone j status latencyMs => exact .inl (deliver_sinks s _)
  | callPaused j => exact .inl (deliver_sinks s _)
  | token requestId text => exact .inl (deliver_sinks s _)

theorem stream_opened (s : System) (door : Door) (r : String) :
    (next s (.stream door r)).streams[s.streams.length]? = some (.start door r) := by
  simp [next, openSink]

theorem wired_next {s : System} (h : Wired s) (a : Action) : Wired (next s a) := by
  have hold (r : String) (j : ℕ) (hr : s.sinks r = some j) :
      ∃ st, (next s a).streams[j]? = some st ∧ st.requestId = r := by
    obtain ⟨st, hst, hid⟩ := h r j hr
    exact ⟨_, next_stream hst a, (touch_id s j a st).2.trans hid⟩
  intro r j hr
  rcases next_sinks s a with hs | ⟨door, r', rfl, hs⟩ | ⟨k, st, -, -, -, hs⟩
  · exact hold r j (by rwa [hs] at hr)
  · rw [hs, Function.update_apply] at hr
    split at hr
    · next heq =>
      obtain rfl := Option.some.inj hr
      exact ⟨_, stream_opened s door r', heq.symm⟩
    · exact hold r j hr
  · rw [hs, Function.update_apply] at hr
    split at hr
    · simp at hr
    · exact hold r j hr

theorem wired_play {s : System} (h : Wired s) (as : List Action) : Wired (play s as) := by
  induction as generalizing s with
  | nil => exact h
  | cons a as ih => exact ih (wired_next h a)

theorem wired_empty : Wired .empty := by
  intro r j h
  simp [System.empty] at h

/-- A queue is given only what was published under the id of its stream, in order. -/
theorem delivered_sublist {i : ℕ} {requestId : String} : ∀ (as : List Action) {s : System},
    Wired s → (∃ st, s.streams[i]? = some st ∧ st.requestId = requestId) →
    (delivered i s as).Sublist (published requestId s as) := by
  intro as
  induction as with
  | nil => intro s _ _; exact .slnil
  | cons a as ih =>
    intro s hw hst
    obtain ⟨st, hst, hid⟩ := hst
    have hrest := ih (wired_next hw a)
      ⟨_, next_stream hst a, (touch_id s i a st).2.trans hid⟩
    refine List.Sublist.append ?_ hrest
    unfold routed emitted
    cases emits s a with
    | none => exact .slnil
    | some p =>
      obtain ⟨r, e⟩ := p
      simp only
      by_cases hr : r ≠ "" ∧ s.sinks r = some i
      · obtain ⟨st', hst', hr'⟩ := hw r i hr.2
        have heq : st' = st := Option.some.inj (hst'.symm.trans hst)
        subst heq
        rw [if_pos hr, if_pos (hr'.symm.trans hid)]
        exact List.Sublist.refl _
      · simp [hr]

/-- Stream `i` is the only open one of its request id, and has the sink. -/
structure Alone (s : System) (i : ℕ) (requestId : String) : Prop where
  others : ∀ j st, s.streams[j]? = some st → st.requestId = requestId → j ≠ i →
    st.isClosed = true
  own : ∀ st, s.streams[i]? = some st → st.isClosed = false → s.sinks requestId = some i

theorem closed_touch {st : Stream} (h : st.isClosed = true) (s : System) (i : ℕ) (a : Action) :
    (touch s i a st).isClosed = true := by
  obtain ⟨b, hp⟩ : ∃ b, st.phase = .closed b := by
    unfold Stream.isClosed at h
    split at h
    · next b hp => exact ⟨b, hp⟩
    · simp at h
  have hput : ∀ o : Option Event, ((o.map st.put).getD st).isClosed = true := by
    intro o
    cases o with
    | none => exact h
    | some e => exact h
  have hfinish (task : Task) : (st.finish task).isClosed = true := by
    unfold Stream.finish
    split
    · exact h
    · exact h
  cases a with
  | get j => simp [touch, Stream.get, hp, h]
  | resume j => simp [touch, Stream.resume, hp, h]
  | abandon j => simp [touch, Stream.abandon, hp, h]
  | taskDone j task => rw [touch]; split; exacts [hfinish task, h]
  | stream door requestId => exact hput _
  | call requestId step agent tool action => exact hput _
  | callDone j status latencyMs => exact hput _
  | callPaused j => exact hput _
  | token requestId text => exact hput _

theorem next_stream_inv {s : System} {a : Action} {j : ℕ} {st : Stream}
    (h : (next s a).streams[j]? = some st) :
    (∃ st₀, s.streams[j]? = some st₀ ∧ st = touch s j a st₀) ∨
      ∃ door r, a = .stream door r ∧ st = .start door r := by
  cases hj : s.streams[j]? with
  | some st₀ =>
    rw [next_stream hj a] at h
    exact .inl ⟨st₀, rfl, (Option.some.inj h).symm⟩
  | none =>
    have hlen : s.streams.length ≤ j := List.getElem?_eq_none_iff.mp hj
    have hsame (hl : (next s a).streams.length = s.streams.length) : False := by
      have := (List.getElem?_eq_some_iff.mp h).1
      omega
    have hpublish (r : String) (e : Event) :
        (publish s r e).streams.length = s.streams.length := by
      unfold publish
      split
      · rfl
      · split
        · rfl
        · exact List.length_modify _ _ _
    have hdeliver : (deliver s a).streams.length = s.streams.length := by
      unfold deliver
      split
      · exact hpublish _ _
      · rfl
    have hmove (k : ℕ) (f : Stream → Stream) :
        (move s k f).streams.length = s.streams.length := by
      unfold move
      split
      · rfl
      · simp only
        split
        · exact List.length_set
        · exact List.length_set
    cases a with
    | stream door r =>
      rw [next, openSink, List.getElem?_append_right hlen] at h
      cases hk : j - s.streams.length with
      | zero =>
        simp only [hk, List.getElem?_cons_zero, Option.some.injEq] at h
        exact .inr ⟨door, r, rfl, h.symm⟩
      | succ k => simp [hk] at h
    | get k => exact (hsame (hmove _ _)).elim
    | resume k => exact (hsame (hmove _ _)).elim
    | abandon k => exact (hsame (hmove _ _)).elim
    | taskDone k task => exact (hsame (hmove _ _)).elim
    | call requestId step agent tool action => exact (hsame hdeliver).elim
    | callDone k status latencyMs => exact (hsame hdeliver).elim
    | callPaused k => exact (hsame hdeliver).elim
    | token requestId text => exact (hsame hdeliver).elim

theorem alone_next {s : System} {i : ℕ} {requestId : String} (h : Alone s i requestId)
    (hi : i < s.streams.length) {a : Action} (ha : ∀ door, a ≠ .stream door requestId) :
    Alone (next s a) i requestId := by
  refine ⟨fun j st hst hid hne => ?_, fun st hst ho => ?_⟩
  · rcases next_stream_inv hst with ⟨st₀, hst₀, rfl⟩ | ⟨door, r, rfl, rfl⟩
    · exact closed_touch (h.others j st₀ hst₀ ((touch_id s j a st₀).2.symm.trans hid) hne) s j a
    · exact absurd rfl (hid ▸ ha door)
  · have hst₀ := List.getElem?_eq_getElem hi
    rw [next_stream hst₀ a] at hst
    obtain rfl := Option.some.inj hst
    have ho₀ : s.streams[i].isClosed = false := by
      by_contra hc
      rw [Bool.not_eq_false] at hc
      simp [closed_touch hc s i a] at ho
    have hown := h.own _ hst₀ ho₀
    rcases next_sinks s a with hs | ⟨door, r, rfl, hs⟩ | ⟨j, st', hst', hopen, hclosed, hs⟩
    · rw [hs]
      exact hown
    · have hr : requestId ≠ r := fun hr => ha door (by rw [hr])
      rw [hs, Function.update_of_ne hr]
      exact hown
    · have hr : requestId ≠ st'.requestId := by
        intro hr
        by_cases hji : j = i
        · subst hji
          have heq : s.streams[j] = st' := Option.some.inj (hst₀.symm.trans hst')
          rw [heq, hclosed] at ho
          simp at ho
        · simp [h.others j st' hst' hr.symm hji] at hopen
      rw [hs, Function.update_of_ne hr]
      exact hown

theorem closed_play {i : ℕ} : ∀ (as : List Action) {s : System},
    (∃ st, s.streams[i]? = some st ∧ st.isClosed = true) →
    ∃ st, (play s as).streams[i]? = some st ∧ st.isClosed = true := by
  intro as
  induction as with
  | nil => intro s h; exact h
  | cons a as ih =>
    intro s h
    obtain ⟨st, hst, hc⟩ := h
    exact ih ⟨_, next_stream hst a, closed_touch hc s i a⟩

/-- While the only stream of an id is open, it is given all that is published under the id. -/
theorem delivered_all {i : ℕ} {requestId : String} (hr : requestId ≠ "") :
    ∀ (as : List Action) {s : System}, Wired s → Alone s i requestId →
    (∃ st, s.streams[i]? = some st ∧ st.requestId = requestId) →
    (∀ door, .stream door requestId ∉ as) →
    (∃ st, (play s as).streams[i]? = some st ∧ st.isClosed = false) →
    delivered i s as = published requestId s as := by
  intro as
  induction as with
  | nil => intro s _ _ _ _ _; rfl
  | cons a as ih =>
    intro s hw hal hst hno hopen
    obtain ⟨st, hst, hid⟩ := hst
    have hi := (List.getElem?_eq_some_iff.mp hst).1
    have ha (door : Door) : a ≠ .stream door requestId :=
      fun h => hno door (h ▸ List.mem_cons_self)
    have hrest := ih (wired_next hw a) (alone_next hal hi ha)
      ⟨_, next_stream hst a, (touch_id s i a st).2.trans hid⟩
      (fun door h => hno door (List.mem_cons_of_mem a h)) hopen
    have ho : st.isClosed = false := by
      by_contra hc
      rw [Bool.not_eq_false] at hc
      obtain ⟨st₁, hst₁, ho₁⟩ := hopen
      obtain ⟨st₂, hst₂, hc₂⟩ := closed_play (a :: as) ⟨st, hst, hc⟩
      have heq : st₁ = st₂ := Option.some.inj (hst₁.symm.trans hst₂)
      rw [heq, hc₂] at ho₁
      simp at ho₁
    have hown := hal.own st hst ho
    have hstep : (routed s i a).toList = emitted requestId s a := by
      unfold routed emitted
      cases emits s a with
      | none => rfl
      | some p =>
        obtain ⟨r, e⟩ := p
        by_cases hre : r = requestId
        · subst hre
          simp [hr, hown]
        · have hsink : s.sinks r ≠ some i := by
            intro hk
            obtain ⟨st', hst', hr'⟩ := hw r i hk
            have heq : st' = st := Option.some.inj (hst'.symm.trans hst)
            exact hre (hr'.symm.trans (heq ▸ hid))
          simp [hre, hsink]
    rw [delivered, published, hstep, hrest]

theorem not_closed_of_lively {st : Stream} (h : st.lively = true) : st.isClosed = false := by
  unfold Stream.lively at h
  unfold Stream.isClosed
  cases hp : st.phase with
  | closed b => simp [hp] at h
  | _ => rfl

def Unused (s : System) (requestId : String) : Prop :=
  ∀ st ∈ s.streams, st.requestId = requestId → st.isClosed = true

theorem alone_opened {s : System} {requestId : String} (h : Unused s requestId) (door : Door) :
    Alone (next s (.stream door requestId)) s.streams.length requestId := by
  refine ⟨fun j st hst hid hne => ?_, fun st _ _ => ?_⟩
  · have hj : (s.streams ++ [Stream.start door requestId])[j]? = some st := hst
    rcases Nat.lt_or_ge j s.streams.length with hlt | hge
    · rw [List.getElem?_append_left hlt] at hj
      exact h st (List.mem_of_getElem? hj) hid
    · have hlen := (List.getElem?_eq_some_iff.mp hj).1
      rw [List.length_append, List.length_singleton] at hlen
      omega
  · exact Function.update_self _ _ _

theorem stream_story {s : System} {requestId : String} (hw : Wired s) (hr : requestId ≠ "")
    (hun : Unused s requestId) (door : Door) {as : List Action}
    (hno : ∀ d, .stream d requestId ∉ as) {st : Stream} {shown : List Event}
    (hst : (play (next s (.stream door requestId)) as).streams[s.streams.length]? = some st)
    (htold : Told s.streams.length (next s (.stream door requestId)) as st shown) :
    (st.lively = true →
      shown ++ st.pending = published requestId (next s (.stream door requestId)) as) ∧
    (st.lively = false → ∃ as₁ as₂ st₁, as = as₁ ++ as₂ ∧
      (play (next s (.stream door requestId)) as₁).streams[s.streams.length]? = some st₁ ∧
      st₁.lively = true ∧
      shown <+: published requestId (next s (.stream door requestId)) as₁ ∧
      (st.finished = true → st.saidAll shown ∧
        shown = published requestId (next s (.stream door requestId)) as₁ ∧
        st₁.task.isDone = true)) := by
  have hstart := stream_opened s door requestId
  have hall {as' : List Action} (hno' : ∀ d, .stream d requestId ∉ as') {st' : Stream}
      (hst' : (play (next s (.stream door requestId)) as').streams[s.streams.length]? = some st')
      (hl : st'.lively = true) :
      delivered s.streams.length (next s (.stream door requestId)) as' =
        published requestId (next s (.stream door requestId)) as' :=
    delivered_all hr as' (wired_next hw _) (alone_opened hun door) ⟨_, hstart, rfl⟩ hno'
      ⟨st', hst', not_closed_of_lively hl⟩
  refine ⟨fun hl => ?_, fun hl => ?_⟩
  · rw [← hall hno hst hl]
    exact (htold.live hl).2
  · obtain ⟨as₁, as₂, st₁, rfl, hst₁, hl₁, hpre, -, hend⟩ := htold.spent hl
    have heq := hall (fun d hd => hno d (List.mem_append_left _ hd)) hst₁ hl₁
    refine ⟨as₁, as₂, st₁, rfl, hst₁, hl₁, heq ▸ hpre, fun hf => ?_⟩
    have hp : st.phase ≠ .closed false := by
      intro hp
      simp [Stream.finished, hp] at hf
    obtain ⟨hsaid, hshown, hdone⟩ := hend hp
    exact ⟨hsaid, heq ▸ hshown, hdone⟩

/-- Whatever streams, calls and clients do: what a stream shows was published under its own
id, in order and without repetition, between its first line and at most one last line. If it
has its id to itself, it misses nothing that is published before its last line. -/
theorem stream_delivers (before after : List Action) (door : Door) (requestId : String) :
    let s := play .empty before
    let s₁ := next s (.stream door requestId)
    ∃ st shown, (play s₁ after).streams[s.streams.length]? = some st ∧
      shown.Sublist (published requestId s₁ after) ∧
      (st.said shown ∨ st.finished = true ∧ st.saidAll shown) ∧
      (requestId ≠ "" → Unused s requestId → (∀ d, .stream d requestId ∉ after) →
        (st.lively = true → shown ++ st.pending = published requestId s₁ after) ∧
        (st.lively = false → ∃ as₁ as₂ st₁, after = as₁ ++ as₂ ∧
          (play s₁ as₁).streams[s.streams.length]? = some st₁ ∧ st₁.lively = true ∧
          shown <+: published requestId s₁ as₁ ∧
          (st.finished = true → st.saidAll shown ∧
            shown = published requestId s₁ as₁ ∧ st₁.task.isDone = true))) := by
  intro s s₁
  have hwired : Wired s := wired_play wired_empty before
  have hstart : s₁.streams[s.streams.length]? = some (.start door requestId) :=
    stream_opened s door requestId
  have hsub (as : List Action) :
      (delivered s.streams.length s₁ as).Sublist (published requestId s₁ as) :=
    delivered_sublist as (wired_next hwired _) ⟨_, hstart, rfl⟩
  obtain ⟨st, shown, hst, -, -, htold⟩ := told_play s₁ _ door requestId hstart after
  refine ⟨st, shown, hst, ?_, ?_, fun hr hun hno => stream_story hwired hr hun door hno hst htold⟩
  · cases hl : st.lively with
    | true =>
      have hpre : shown <+: delivered s.streams.length s₁ after := ⟨_, (htold.live hl).2⟩
      exact hpre.sublist.trans (hsub after)
    | false =>
      obtain ⟨as₁, as₂, st₁, rfl, -, -, hpre, -⟩ := htold.spent hl
      refine (hpre.sublist.trans (hsub as₁)).trans ?_
      rw [published_append]
      exact List.sublist_append_left _ _
  · cases hl : st.lively with
    | true => exact .inl (htold.live hl).1
    | false =>
      obtain ⟨as₁, as₂, st₁, -, -, -, -, hcut, hall⟩ := htold.spent hl
      cases hp : st.phase with
      | waiting g => simp [Stream.lively, hp] at hl
      | draining => simp [Stream.lively, hp] at hl
      | yielded => exact .inr ⟨by simp [Stream.finished, hp], (hall (by simp [hp])).1⟩
      | closed b =>
        cases b with
        | true => exact .inr ⟨by simp [Stream.finished, hp], (hall (by simp [hp])).1⟩
        | false => exact .inl (hcut hp)

/-- How often the generator of a done task goes on before it is closed. -/
def Stream.rank (st : Stream) : ℕ :=
  match st.phase with
  | .waiting getter => getter.toList.length + st.queue.length + 3
  | .draining => st.queue.length + 2
  | .yielded => 1
  | .closed _ => 0

def isResume (i : ℕ) : Action → Bool
  | .resume j => j = i
  | _ => false

theorem Stream.rank_put (st : Stream) (e : Event) : (st.put e).rank ≤ st.rank + 1 := by
  unfold Stream.rank Stream.put
  cases st.phase with
  | waiting g => simp only [List.length_append, List.length_singleton]; omega
  | draining => simp only [List.length_append, List.length_singleton]; omega
  | yielded => simp
  | closed b => simp

theorem Stream.rank_get (st : Stream) : st.get.rank = st.rank := by
  unfold Stream.get
  split
  · next e rest hp hq => simp [Stream.rank, hp, hq]; omega
  · rfl

theorem Stream.rank_resume {st : Stream} (h : st.task.isDone = true) :
    st.resume.rank ≤ st.rank - 1 := by
  unfold Stream.resume
  split
  · next e hp =>
    simp only [Stream.rank, hp, Stream.say, Option.toList_none, Option.toList_some,
      List.length_nil, List.length_singleton]
    omega
  · next hp => simp [Stream.rank, hp, h]
  · next hp =>
    split
    · next e rest hq => simp [Stream.rank, hp, hq, Stream.say]
    · split
      · simp [Stream.rank]
      · split <;> simp [Stream.rank, hp]
  · next hp => simp [Stream.rank]
  · next b hp => simp [Stream.rank, hp]

theorem Stream.rank_abandon (st : Stream) : st.abandon.rank ≤ st.rank := by
  unfold Stream.abandon
  split
  · exact le_rfl
  · exact Nat.zero_le _

theorem done_touch {st : Stream} (h : st.task.isDone = true) (s : System) (i : ℕ) (a : Action) :
    (touch s i a st).task.isDone = true := by
  have hput : ∀ o : Option Event, ((o.map st.put).getD st).task.isDone = true := by
    intro o
    cases o with
    | none => exact h
    | some e => exact h
  have hget : st.get.task.isDone = true := by
    unfold Stream.get
    split <;> exact h
  have hresume : st.resume.task.isDone = true := by
    unfold Stream.resume
    split
    · exact h
    · split <;> exact h
    · split
      · exact h
      · split
        · exact h
        · split <;> exact h
    · exact h
    · exact h
  have habandon : st.abandon.task.isDone = true := by
    unfold Stream.abandon
    split
    · exact h
    · simp [h]
  cases a with
  | get j => rw [touch]; split; exacts [hget, h]
  | resume j => rw [touch]; split; exacts [hresume, h]
  | abandon j => rw [touch]; split; exacts [habandon, h]
  | taskDone j task => simp [touch, Stream.finish, h]
  | stream door requestId => exact hput _
  | call requestId step agent tool action => exact hput _
  | callDone j status latencyMs => exact hput _
  | callPaused j => exact hput _
  | token requestId text => exact hput _

theorem Stream.rank_pos {st : Stream} (h : st.isClosed = false) : 0 < st.rank := by
  unfold Stream.isClosed at h
  unfold Stream.rank
  cases hp : st.phase with
  | closed b => simp [hp] at h
  | yielded => simp
  | draining => simp
  | waiting g => simp

/-- Going on uses the rank up; only what is put into the queue adds to it. -/
theorem rank_touch {st : Stream} (h : st.task.isDone = true) (ho : st.isClosed = false)
    (s : System) (i : ℕ) (a : Action) :
    (touch s i a st).rank + (if isResume i a then 1 else 0) ≤
      st.rank + (routed s i a).toList.length := by
  have hput : ∀ o : Option Event, ((o.map st.put).getD st).rank ≤ st.rank + o.toList.length := by
    intro o
    cases o with
    | none => exact le_rfl
    | some e => exact st.rank_put e
  cases a with
  | get j =>
    have hrank := st.rank_get
    by_cases hj : j = i
    · simp [touch, isResume, hj]
      omega
    · simp [touch, isResume, hj]
  | resume j =>
    have hrank := Stream.rank_resume h
    have hpos := Stream.rank_pos ho
    by_cases hj : j = i
    · simp [touch, isResume, hj]
      omega
    · simp [touch, isResume, hj]
  | abandon j =>
    have hrank := st.rank_abandon
    by_cases hj : j = i
    · simp [touch, isResume, hj]
      omega
    · simp [touch, isResume, hj]
  | taskDone j task => simp [touch, Stream.finish, h, isResume]
  | stream door requestId => exact hput _
  | call requestId step agent tool action => exact hput _
  | callDone j status latencyMs => exact hput _
  | callPaused j => exact hput _
  | token requestId text => exact hput _

/-- Once its task is done, a stream is closed after as many steps of its generator as its rank
and what is still put into its queue say. -/
theorem stream_ends {s : System} {i : ℕ} {st : Stream} (hst : s.streams[i]? = some st)
    (hdone : st.task.isDone = true) (as : List Action)
    (hmany : st.rank + (delivered i s as).length ≤ as.countP (isResume i)) :
    ∃ st', (play s as).streams[i]? = some st' ∧ st'.isClosed = true := by
  have hrun (as : List Action) : ∃ st', (play s as).streams[i]? = some st' ∧
      st'.task.isDone = true ∧ (st'.isClosed = true ∨
        st'.rank + as.countP (isResume i) ≤ st.rank + (delivered i s as).length) := by
    induction as using List.reverseRecOn with
    | nil => exact ⟨st, hst, hdone, .inr le_rfl⟩
    | append_singleton as a ih =>
      obtain ⟨st', hst', hd, hor⟩ := ih
      have hnext : (play s (as ++ [a])).streams[i]? = some (touch (play s as) i a st') := by
        rw [play_append]
        exact next_stream hst' a
      refine ⟨_, hnext, done_touch hd _ _ _, ?_⟩
      cases hc : st'.isClosed with
      | true => exact .inl (closed_touch hc _ _ _)
      | false =>
        have hstep := rank_touch hd hc (play s as) i a
        have hle := hor.resolve_left (by simp [hc])
        right
        rw [delivered_snoc, List.countP_append, List.length_append, List.countP_singleton]
        omega
  obtain ⟨st', hst', -, hor⟩ := hrun as
  refine ⟨st', hst', hor.elim id fun hle => ?_⟩
  by_contra hc
  have hpos := Stream.rank_pos ((Bool.not_eq_true _).mp hc)
  omega

theorem stream_ends_flushed :
    ∃ st, (play (play .empty [.stream .eventStream "r", .token "r" "hi", .taskDone 0 .raised])
      [.resume 0, .resume 0, .abandon 1, .resume 0, .resume 0]).streams[0]? = some st ∧
      st.isClosed = true := by
  have hopen : (play .empty [.stream .eventStream "r", .token "r" "hi",
      .taskDone 0 .raised]).streams[0]? = some ⟨.eventStream, "r", [.token "hi"], .raised,
        .waiting none, [turnStart "r" .eventStream]⟩ := rfl
  exact stream_ends hopen rfl _ (by decide)

abbrev CallId := Option String × String × String

def Call.id (c : Call) : CallId := (c.step, c.agent, c.tool)

def startOf (k : CallId) : Event → Bool
  | .toolStart step agent tool _ => (step, agent, tool) = k
  | _ => false

def doneOf (k : CallId) : Event → Bool
  | .toolDone step agent tool _ _ => (step, agent, tool) = k
  | _ => false

def openCall (requestId : String) (k : CallId) (c : Call) : Bool :=
  c.requestId = requestId ∧ c.id = k ∧ c.phase ≠ .done

def openCalls (requestId : String) (k : CallId) (s : System) : ℕ :=
  s.calls.countP (openCall requestId k)

theorem countP_modify {α : Type*} (p : α → Bool) (f : α → α) :
    ∀ {l : List α} {j : ℕ} {x : α}, l[j]? = some x →
      (l.modify j f).countP p + (if p x then 1 else 0) =
        l.countP p + (if p (f x) then 1 else 0) := by
  intro l
  induction l with
  | nil => intro j x h; simp at h
  | cons y l ih =>
    intro j x h
    cases j with
    | zero =>
      simp only [List.getElem?_cons_zero, Option.some.injEq] at h
      subst h
      simp only [List.modify_zero_cons, List.countP_cons]
      omega
    | succ j =>
      have := ih (j := j) (x := x) (by simpa using h)
      simp only [List.modify_succ_cons, List.countP_cons]
      omega

theorem next_calls (s : System) (a : Action) : (next s a).calls = callPhases s a := by
  have hmove (j : ℕ) (f : Stream → Stream) : (move s j f).calls = s.calls := by
    unfold move
    split
    · rfl
    · simp only
      split <;> rfl
  cases a with
  | get j => exact hmove j _
  | resume j => exact hmove j _
  | abandon j => exact hmove j _
  | taskDone j task => exact hmove j _
  | _ => rfl

theorem calls_next (s : System) (a : Action) (requestId : String) (k : CallId) :
    (emitted requestId s a).countP (startOf k) + openCalls requestId k s =
      (emitted requestId s a).countP (doneOf k) + openCalls requestId k (next s a) := by
  unfold openCalls
  rw [next_calls]
  cases a with
  | call r step agent tool action =>
    simp only [emitted, emits, callPhases, List.countP_append, List.countP_singleton]
    by_cases hr : r = requestId <;> by_cases hk : (step, agent, tool) = k <;>
      simp [hr, hk, startOf, doneOf, openCall, Call.id, Nat.add_comm]
  | callDone j status latencyMs =>
    cases hj : s.calls[j]? with
    | none =>
      have hlen : s.calls.length ≤ j := List.getElem?_eq_none_iff.mp hj
      simp [emitted, emits, hj, callPhases, List.modify_eq_self hlen]
    | some c =>
      have hmod := countP_modify (openCall requestId k)
        (fun c => if c.phase = .running then c.end .done else c) hj
      by_cases hp : c.phase = .running
      · have hend : openCall requestId k (c.end .done) = false := by simp [openCall, Call.end]
        have hdone : (emitted requestId s (.callDone j status latencyMs)).countP (doneOf k) =
            if openCall requestId k c then 1 else 0 := by
          by_cases hr : c.requestId = requestId
          · by_cases hk : c.id = k
            · simp_all [emitted, emits, openCall, doneOf, Call.id]
            · simp_all [emitted, emits, openCall, doneOf, Call.id]
          · simp [emitted, emits, hj, hp, hr, openCall]
        have hstart : (emitted requestId s (.callDone j status latencyMs)).countP (startOf k) =
            0 := by
          by_cases hr : c.requestId = requestId <;> simp [emitted, emits, hj, hp, hr, startOf]
        simp only [hp, ↓reduceIte, hend, Bool.false_eq_true] at hmod
        rw [hdone, hstart, callPhases]
        omega
      · simp only [hp, ↓reduceIte] at hmod
        simp only [emitted, emits, hj, hp, ↓reduceIte, callPhases, List.countP_nil]
        omega
  | callPaused j =>
    cases hj : s.calls[j]? with
    | none =>
      have hlen : s.calls.length ≤ j := List.getElem?_eq_none_iff.mp hj
      simp [emitted, emits, callPhases, List.modify_eq_self hlen]
    | some c =>
      have hmod := countP_modify (openCall requestId k)
        (fun c => if c.phase = .running then c.end .paused else c) hj
      have hkeep : openCall requestId k (if c.phase = .running then c.end .paused else c) =
          openCall requestId k c := by
        split
        · next hp => simp [openCall, Call.end, Call.id, hp]
        · rfl
      simp only [hkeep] at hmod
      simp only [emitted, emits, callPhases, List.countP_nil]
      omega
  | token r text =>
    simp only [emitted, emits, callPhases]
    split <;> simp [startOf, doneOf]
  | _ => simp [emitted, emits, callPhases]

theorem calls_play (requestId : String) (k : CallId) : ∀ (as : List Action) (s : System),
    (published requestId s as).countP (startOf k) + openCalls requestId k s =
      (published requestId s as).countP (doneOf k) + openCalls requestId k (play s as) := by
  intro as
  induction as with
  | nil => intro s; rfl
  | cons a as ih =>
    intro s
    have hstep := calls_next s a requestId k
    have hrest := ih (next s a)
    have hplay : play s (a :: as) = play (next s a) as := rfl
    rw [published, List.countP_append, List.countP_append, hplay]
    omega

/-- A stream that is out with its last line shows an end for every start but those of the calls
that had not ended when the turn did. -/
theorem tool_calls_matched (before after : List Action) (door : Door) (requestId : String)
    (st : Stream) (hr : requestId ≠ "") (hun : Unused (play .empty before) requestId)
    (hcalls : ∀ k, openCalls requestId k (play .empty before) = 0)
    (hno : ∀ d, .stream d requestId ∉ after)
    (hst : (play (next (play .empty before) (.stream door requestId)) after).streams[
      (play .empty before).streams.length]? = some st)
    (hfin : st.finished = true) :
    ∃ shown as₁ as₂ st₁, after = as₁ ++ as₂ ∧
      (play (next (play .empty before) (.stream door requestId)) as₁).streams[
        (play .empty before).streams.length]? = some st₁ ∧
      st₁.task.isDone = true ∧ st.saidAll shown ∧
      ∀ k, shown.countP (startOf k) = shown.countP (doneOf k) + openCalls requestId k
        (play (next (play .empty before) (.stream door requestId)) as₁) := by
  obtain ⟨st', shown, hst', -, -, htold⟩ :=
    told_play _ _ door requestId (stream_opened _ door requestId) after
  obtain rfl : st' = st := Option.some.inj (hst'.symm.trans hst)
  have hl : st'.lively = false := by
    cases hp : st'.phase with
    | waiting g => simp [Stream.finished, hp] at hfin
    | draining => simp [Stream.finished, hp] at hfin
    | _ => simp [Stream.lively, hp]
  have hwired : Wired (play .empty before) := wired_play wired_empty before
  obtain ⟨as₁, as₂, st₁, hsplit, hst₁, -, -, hend⟩ :=
    (stream_story hwired hr hun door hno hst htold).2 hl
  obtain ⟨hsaid, rfl, hdone⟩ := hend hfin
  refine ⟨_, as₁, as₂, st₁, hsplit, hst₁, hdone, hsaid, fun k => ?_⟩
  have hopen : openCalls requestId k (next (play .empty before) (.stream door requestId)) =
      openCalls requestId k (play .empty before) := rfl
  have hplay := calls_play requestId k as₁ (next (play .empty before) (.stream door requestId))
  rw [hopen, hcalls k] at hplay
  omega

def pausedTurn : List Action :=
  [.call "r" (some "step_1") "uc08" "search_catalog" "Search", .get 0, .callPaused 0, .resume 0,
    .taskDone 0 (.returned .null), .resume 0, .resume 0]

/-- A tool that pauses the turn leaves a start without an end. -/
theorem tool_calls_matched_paused :
    ∃ st shown as₁ as₂ st₁, pausedTurn = as₁ ++ as₂ ∧
      (play (next .empty (.stream .eventStream "r")) as₁).streams[0]? = some st₁ ∧
      st₁.task.isDone = true ∧ Stream.saidAll st shown ∧
      ∀ k, shown.countP (startOf k) = shown.countP (doneOf k) + openCalls "r" k
        (play (next .empty (.stream .eventStream "r")) as₁) :=
  ⟨_, tool_calls_matched [] pausedTurn .eventStream "r" _ (by decide)
    (fun st h => absurd h List.not_mem_nil) (fun k => rfl) (by simp [pausedTurn]) rfl rfl⟩

end LiveActivityStream
