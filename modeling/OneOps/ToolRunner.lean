import Mathlib.Data.List.Count
import OneOps.ProcessPool
import OneOps.PythonJson

/-! The tool runner and its idempotency stores. Deliveries of tool calls interleave over
one store: each consults the store, calls the handler on a miss, captures the output and
puts the result. The store is read and written around the handler and no delivery claims
its key in between. -/
namespace ToolRunner

open ProcessPool PythonJson

inductive ToolStatus where
  | success | failed | timeout
  deriving DecidableEq, Repr

structure VariableRef where
  name : String
  preview : String
  sizeBytes : ℕ
  deriving DecidableEq, Repr

/-- The output of a result: the tool's value, or a reference to a large one. -/
inductive Output where
  | value (v : Value)
  | ref (r : VariableRef)

structure ToolResult where
  toolId : String
  status : ToolStatus
  output : Output := .value .null
  error : Option String := none
  latencyMs : ℕ := 0
  fromIdempotencyCache : Bool := false

def ToolResult.success (toolId : String) (output : Output) (latencyMs : ℕ) : ToolResult :=
  ⟨toolId, .success, output, none, latencyMs, false⟩

def ToolResult.failed (toolId error : String) (latencyMs : ℕ) : ToolResult :=
  ⟨toolId, .failed, .value .null, some error, latencyMs, false⟩

def ToolResult.timedOut (toolId : String) (timeoutMs latencyMs : ℕ) : ToolResult :=
  ⟨toolId, .timeout, .value .null,
    some ("tool exceeded its " ++ toString timeoutMs ++ "ms timeout"), latencyMs, false⟩

structure VariableStore where
  threshold : ℕ := 4096
  previewChars : ℕ := 280
  values : List (String × Value) := []

/-- `len(str(value))` is asked only of values that the encoder refuses. -/
def serialisedSize (strLength : Value → ℕ) (v : Value) : ℕ :=
  match dumps true v with
  | some d => d.text.length
  | none => strLength v

def shorten (text : List Char) (chars : ℕ) : String :=
  String.ofList (text.take chars ++ if chars < text.length then ['…'] else [])

/-- The encoder is not guarded here: a value that it refuses has no preview. -/
def preview (v : Value) (chars : ℕ) : Option String :=
  match v with
  | .str s => some (shorten s.toList chars)
  | v => (dumps true v).map fun d => shorten d.text chars

/-- The output that stands for a value, and the store with the value if it is large.
`none` where the preview raises. -/
def VariableStore.capture (strLength : Value → ℕ) (vars : VariableStore) (v : Value)
    (hint uuid : String) : Option (Output × VariableStore) :=
  if serialisedSize strLength v ≤ vars.threshold then some (.value v, vars)
  else do
    let name := hint ++ "_" ++ uuid
    let text ← preview v vars.previewChars
    some (.ref ⟨name, text, serialisedSize strLength v⟩,
      { vars with values := RowMerge.upsert Prod.fst vars.values (name, v) })

inductive StoreKind where
  | inMemory | dragonfly
  deriving DecidableEq, Repr

structure StoredDoc where
  toolId : String
  status : ToolStatus
  output : Doc
  error : Option String
  latencyMs : ℕ

inductive Entry where
  | result (r : ToolResult)
  | document (doc : StoredDoc)

def reduceOutput : Output → Value
  | .value v => v
  | .ref r => .dict [(.str "variable_ref", .str r.name), (.str "preview", .str r.preview)]

/-- What a store keeps of a result; `none` where `json.dumps` raises. -/
def encode : StoreKind → ToolResult → Option Entry
  | .inMemory, r => some (.result r)
  | .dragonfly, r => (dumps false (reduceOutput r.output)).map fun d =>
      .document ⟨r.toolId, r.status, d, r.error, r.latencyMs⟩

def replay : Entry → ToolResult
  | .result r => { r with fromIdempotencyCache := true }
  | .document doc =>
    ⟨doc.toolId, doc.status, .value (loads doc.output), doc.error, doc.latencyMs, true⟩

abbrev Store := String → Option (Entry × ℕ)

def Store.get (store : Store) (now : ℕ) (key : String) : Option ToolResult × Store :=
  match store key with
  | none => (none, store)
  | some (e, expiresAt) =>
    if expiresAt ≤ now then (none, Function.update store key none)
    else (some (replay e), store)

def Store.put (kind : StoreKind) (store : Store) (now : ℕ) (key : String) (r : ToolResult)
    (ttlSeconds : ℕ) : Option Store :=
  if r.status ≠ .success then some store
  else (encode kind r).map fun e =>
    Function.update store key (some (e, now + ttlSeconds * 1000))

def ttlSeconds : ℕ := 86400

structure Call where
  toolId : String
  timeoutMs : ℕ
  idempotencyKey : Option String
  deriving DecidableEq, Repr

def Call.key (c : Call) : Option String := c.idempotencyKey.filter (· ≠ "")

/-- Where a run of `ToolRunner.run` stands: before the lookup, in the handler, before the
put, returned with a result, or left by an exception. -/
inductive Phase where
  | arrived
  | calling
  | storing (result : ToolResult)
  | returned (result : ToolResult)
  | raised

structure Delivery where
  call : Call
  phase : Phase := .arrived

/-- What moves a delivery on: the runner itself, or the way its handler ends. -/
inductive Input where
  | consult
  | unresolved
  | timesOut (latencyMs : ℕ)
  | raises (errorType message : String) (latencyMs : ℕ)
  | returns (raw : Value) (uuid : String) (latencyMs : ℕ)
  | store

/-- `handled` logs the key of each successful return of a handler. -/
structure Shared where
  now : ℕ
  store : Store
  vars : VariableStore
  handled : List String

def consult (w : Shared) (c : Call) : Shared × Phase :=
  match c.key with
  | none => (w, .calling)
  | some key =>
    match w.store.get w.now key with
    | (some cached, store) => ({ w with store := store }, .returned cached)
    | (none, store) => ({ w with store := store }, .calling)

def handlerReturns (strLength : Value → ℕ) (w : Shared) (c : Call) (raw : Value) (uuid : String)
    (latencyMs : ℕ) : Shared × Phase :=
  let w := { w with handled := w.handled ++ c.key.toList }
  match w.vars.capture strLength raw c.toolId uuid with
  | none => (w, .raised)
  | some (output, vars) =>
    ({ w with vars := vars }, .storing (.success c.toolId output latencyMs))

def storeResult (kind : StoreKind) (w : Shared) (c : Call) (r : ToolResult) : Shared × Phase :=
  match c.key with
  | none => (w, .returned r)
  | some key =>
    match w.store.put kind w.now key r ttlSeconds with
    | none => (w, .raised)
    | some store => ({ w with store := store }, .returned r)

/-- One step of a run. An input that the phase does not wait for changes nothing. -/
def run (kind : StoreKind) (strLength : Value → ℕ) (inp : Input) (w : Shared) (p : Delivery) :
    Shared × Delivery :=
  let (w', phase) :=
    match p.phase, inp with
    | .arrived, .consult => consult w p.call
    | .calling, .unresolved => (w, .raised)
    | .calling, .timesOut latencyMs =>
      (w, .returned (.timedOut p.call.toolId p.call.timeoutMs latencyMs))
    | .calling, .raises errorType message latencyMs =>
      (w, .returned (.failed p.call.toolId
        ("handler raised " ++ errorType ++ ": " ++ message) latencyMs))
    | .calling, .returns raw uuid latencyMs => handlerReturns strLength w p.call raw uuid latencyMs
    | .storing r, .store => storeResult kind w p.call r
    | phase, _ => (w, phase)
  (w', { p with phase := phase })

def machine (kind : StoreKind) (strLength : Value → ℕ) : Machine Shared Delivery Input ℕ where
  step := run kind strLength
  env n w := { w with now := w.now + n }

variable {kind : StoreKind} {strLength : Value → ℕ} {start : ℕ}

section Steps

variable {w : Shared} {p : Delivery}

def Shared.keep (w : Shared) (key : String) (e : Entry) : Shared :=
  { w with store := Function.update w.store key (some (e, w.now + ttlSeconds * 1000)) }

theorem keep_store (key key' : String) (e : Entry) : (w.keep key e).store key' =
    if key' = key then some (e, w.now + ttlSeconds * 1000) else w.store key' :=
  Function.update_apply _ _ _ _

theorem keep_handled (key : String) (e : Entry) : (w.keep key e).handled = w.handled := rfl

def Misses (w : Shared) (key : String) : Prop := (w.store.get w.now key).1 = none

/-- A lookup of a fresh entry replays it; any other lookup leaves no entry. -/
theorem get_cases (store : Store) (now : ℕ) (key : String) :
    (∃ e t, store key = some (e, t) ∧ now < t ∧ store.get now key = (some (replay e), store)) ∨
      ((∀ e t, store key = some (e, t) → t ≤ now) ∧
        store.get now key = (none, Function.update store key none)) := by
  unfold Store.get
  cases h : store key with
  | none =>
    have hsame : Function.update store key none = store := by
      rw [← h]
      exact Function.update_eq_self key store
    exact .inr ⟨by simp, by rw [hsame]⟩
  | some x =>
    obtain ⟨e, t⟩ := x
    by_cases ht : t ≤ now
    · exact .inr ⟨by simp [ht], by simp [ht]⟩
    · exact .inl ⟨e, t, rfl, by omega, by simp [ht]⟩

theorem consult_none {c : Call} (hkey : c.key = none) : consult w c = (w, .calling) := by
  simp [consult, hkey]

theorem consult_hit {c : Call} {key : String} {e : Entry} {t : ℕ} (hkey : c.key = some key)
    (he : w.store key = some (e, t)) (ht : w.now < t) :
    consult w c = (w, .returned (replay e)) := by
  have hget : w.store.get w.now key = (some (replay e), w.store) := by
    simp [Store.get, he, Nat.not_le.mpr ht]
  simp only [consult, hkey, hget]

theorem consult_miss {c : Call} {key : String} (hkey : c.key = some key) (hm : Misses w key) :
    consult w c = ({ w with store := Function.update w.store key none }, .calling) := by
  rcases get_cases w.store w.now key with ⟨e, t, _, _, hget⟩ | ⟨_, hget⟩
  · rw [Misses, hget] at hm
    cases hm
  · simp only [consult, hkey, hget]

theorem handlerReturns_lost {c : Call} {raw : Value} {uuid : String} {l : ℕ}
    (hc : w.vars.capture strLength raw c.toolId uuid = none) :
    handlerReturns strLength w c raw uuid l =
      ({ w with handled := w.handled ++ c.key.toList }, .raised) := by
  simp only [handlerReturns, hc]

theorem handlerReturns_captured {c : Call} {raw : Value} {uuid : String} {l : ℕ} {out : Output}
    {vars : VariableStore} (hc : w.vars.capture strLength raw c.toolId uuid = some (out, vars)) :
    handlerReturns strLength w c raw uuid l =
      ({ w with vars := vars, handled := w.handled ++ c.key.toList },
        .storing (.success c.toolId out l)) := by
  simp only [handlerReturns, hc]

theorem storeResult_none {c : Call} {r : ToolResult} (h : c.key = none) :
    storeResult kind w c r = (w, .returned r) := by
  simp [storeResult, h]

theorem storeResult_failed {c : Call} {r : ToolResult} {key : String} (hkey : c.key = some key)
    (hr : r.status ≠ .success) : storeResult kind w c r = (w, .returned r) := by
  simp [storeResult, hkey, Store.put, hr]

theorem storeResult_lost {c : Call} {r : ToolResult} {key : String} (hkey : c.key = some key)
    (hr : r.status = .success) (he : encode kind r = none) :
    storeResult kind w c r = (w, .raised) := by
  simp [storeResult, hkey, Store.put, hr, he]

theorem storeResult_kept {c : Call} {r : ToolResult} {key : String} {e : Entry}
    (hkey : c.key = some key) (hr : r.status = .success) (he : encode kind r = some e) :
    storeResult kind w c r = (w.keep key e, .returned r) := by
  simp [storeResult, hkey, Store.put, hr, he, Shared.keep]

/-- A lookup that does not miss finds a fresh entry. -/
theorem hit_of_not_misses {key : String} (hm : ¬ Misses w key) :
    ∃ e t, w.store key = some (e, t) ∧ w.now < t := by
  rcases get_cases w.store w.now key with ⟨e, t, he, ht, _⟩ | ⟨_, hget⟩
  · exact ⟨e, t, he, ht⟩
  · exact absurd (by rw [Misses, hget]) hm

theorem run_cases (inp : Input) :
    run kind strLength inp w p = (w, p) ∨
    (p.phase = .arrived ∧ inp = .consult ∧ run kind strLength inp w p =
      ((consult w p.call).1, { p with phase := (consult w p.call).2 })) ∨
    (p.phase = .calling ∧ ∃ phase, run kind strLength inp w p = (w, { p with phase := phase }) ∧
      (phase = .raised ∨ ∃ r, phase = .returned r ∧ r.status ≠ .success)) ∨
    (p.phase = .calling ∧ ∃ raw uuid latencyMs, inp = .returns raw uuid latencyMs ∧
      run kind strLength inp w p =
        ((handlerReturns strLength w p.call raw uuid latencyMs).1,
          { p with phase := (handlerReturns strLength w p.call raw uuid latencyMs).2 })) ∨
    ∃ r, p.phase = .storing r ∧ inp = .store ∧ run kind strLength inp w p =
      ((storeResult kind w p.call r).1, { p with phase := (storeResult kind w p.call r).2 }) := by
  obtain ⟨c, phase⟩ := p
  cases phase with
  | arrived =>
    cases inp with
    | consult => exact .inr (.inl ⟨rfl, rfl, rfl⟩)
    | _ => exact .inl rfl
  | calling =>
    cases inp with
    | consult | store => exact .inl rfl
    | unresolved => exact .inr (.inr (.inl ⟨rfl, .raised, rfl, .inl rfl⟩))
    | timesOut l =>
      exact .inr (.inr (.inl ⟨rfl, _, rfl, .inr ⟨_, rfl, by simp [ToolResult.timedOut]⟩⟩))
    | raises e m l =>
      exact .inr (.inr (.inl ⟨rfl, _, rfl, .inr ⟨_, rfl, by simp [ToolResult.failed]⟩⟩))
    | returns raw uuid l => exact .inr (.inr (.inr (.inl ⟨rfl, raw, uuid, l, rfl, rfl⟩)))
  | storing r =>
    cases inp with
    | store => exact .inr (.inr (.inr (.inr ⟨r, rfl, rfl, rfl⟩)))
    | _ => exact .inl rfl
  | returned r => exact .inl rfl
  | raised => exact .inl rfl

end Steps

section Survival

variable {vars : VariableStore} {raw : Value} {hint uuid : String}

def Fits (strLength : Value → ℕ) (vars : VariableStore) (raw : Value) : Prop :=
  serialisedSize strLength raw ≤ vars.threshold

/-- The value is kept by the store as it is handed to the caller. In memory only a large
value that has no preview is lost. In Dragonfly the value has to be small, as references
are reduced, and plain. -/
def Survives (kind : StoreKind) (strLength : Value → ℕ) (vars : VariableStore) (raw : Value) :
    Prop :=
  match kind with
  | .inMemory => Fits strLength vars raw ∨ dumps true raw ≠ none
  | .dragonfly => Fits strLength vars raw ∧ Plain raw

def Kept (kind : StoreKind) (r : ToolResult) : Prop :=
  ∃ e, encode kind r = some e ∧ (replay e).output = r.output

theorem preview_eq_none {chars : ℕ} : preview raw chars = none ↔ dumps true raw = none := by
  cases raw with
  | str s => simp [preview, dumps]
  | _ => simp [preview]

theorem capture_eq_none : vars.capture strLength raw hint uuid = none ↔
    ¬ Fits strLength vars raw ∧ dumps true raw = none := by
  unfold VariableStore.capture Fits
  by_cases hf : serialisedSize strLength raw ≤ vars.threshold
  · simp [hf]
  · rw [← @preview_eq_none raw vars.previewChars]
    cases preview raw vars.previewChars <;> simp [hf]

theorem capture_cases {out : Output} {vars' : VariableStore}
    (h : vars.capture strLength raw hint uuid = some (out, vars')) :
    (Fits strLength vars raw ∧ out = .value raw) ∨
      (¬ Fits strLength vars raw ∧ ∃ r, out = .ref r) := by
  unfold VariableStore.capture at h
  by_cases hf : serialisedSize strLength raw ≤ vars.threshold
  · rw [if_pos hf, Option.some.injEq, Prod.mk.injEq] at h
    exact .inl ⟨hf, h.1.symm⟩
  · rw [if_neg hf] at h
    obtain ⟨text, _, h⟩ := Option.bind_eq_some_iff.mp h
    rw [Option.some.injEq, Prod.mk.injEq] at h
    exact .inr ⟨hf, _, h.1.symm⟩

theorem kept_inMemory (r : ToolResult) : Kept .inMemory r := ⟨.result r, rfl, rfl⟩

theorem kept_dragonfly {r : ToolResult} :
    Kept .dragonfly r ↔ ∃ v, r.output = .value v ∧ Plain v := by
  unfold Kept encode
  constructor
  · rintro ⟨e, he, hr⟩
    obtain ⟨d, hd, rfl⟩ := Option.map_eq_some_iff.mp he
    exact ⟨loads d, hr.symm, plain_loads d⟩
  · rintro ⟨v, hv, hp⟩
    obtain ⟨d, hd, hl⟩ := roundTrip_iff.mpr hp
    simp only [hv, reduceOutput, hd, Option.map_some]
    exact ⟨_, rfl, by rw [replay, hl]⟩

theorem survives_iff {out : Output} {vars' : VariableStore} {latencyMs : ℕ}
    (h : vars.capture strLength raw hint uuid = some (out, vars')) :
    Survives kind strLength vars raw ↔ Kept kind (.success hint out latencyMs) := by
  cases kind with
  | inMemory =>
    refine iff_of_true ?_ (kept_inMemory _)
    by_contra hno
    rw [Survives, not_or, not_not] at hno
    rw [capture_eq_none.mpr hno] at h
    cases h
  | dragonfly =>
    rw [kept_dragonfly, Survives, ToolResult.success]
    rcases capture_cases h with ⟨hf, rfl⟩ | ⟨hf, r, rfl⟩
    · simp [hf]
    · simp [hf]

theorem Survives.captured (h : Survives kind strLength vars raw) (hint uuid : String) :
    ∃ out vars', vars.capture strLength raw hint uuid = some (out, vars') := by
  have hne : vars.capture strLength raw hint uuid ≠ none := by
    intro hnone
    obtain ⟨hf, hd⟩ := capture_eq_none.mp hnone
    cases kind with
    | inMemory => exact h.elim hf fun hsome => hsome hd
    | dragonfly => exact hf h.1
  obtain ⟨⟨out, vars'⟩, h⟩ := Option.ne_none_iff_exists'.mp hne
  exact ⟨out, vars', h⟩

end Survival

/-- Deliveries arrive, and the whole run stays within the time to live of an entry. -/
def WithinTtl (start : ℕ) (s : Pool Shared Delivery) : Event Delivery Input ℕ → Prop
  | .spawn p => p.phase = .arrived
  | .act _ _ => True
  | .env n => s.shared.now + n < start + ttlSeconds * 1000

def Initial (start : ℕ) (s : Pool Shared Delivery) : Prop :=
  s.shared.now = start ∧ (∀ key, s.shared.store key = none) ∧ s.shared.handled = [] ∧ s.procs = []

def InFlight (p : Delivery) : Prop := p.phase = .calling ∨ ∃ r, p.phase = .storing r

/-- No delivery misses while another one of its key is in flight, and every value that a
handler returns survives the store. -/
def Orderly (kind : StoreKind) (strLength : Value → ℕ) (s : Pool Shared Delivery) :
    Event Delivery Input ℕ → Prop
  | .act i .consult => ∀ p key, s.procs[i]? = some p → p.phase = .arrived → p.call.key = some key →
      Misses s.shared key → ∀ q ∈ s.procs, q.call.key = some key → ¬ InFlight q
  | .act i (.returns raw _ _) => ∀ p, s.procs[i]? = some p → p.phase = .calling →
      p.call.key ≠ none → Survives kind strLength s.shared.vars raw
  | _ => True

def Succeeded (key : String) (p : Delivery) (r : ToolResult) : Prop :=
  p.call.key = some key ∧ p.phase = .returned r ∧ r.status = .success

/-- The handler returned successfully at most once for the key, and whoever got a success
got the same output. -/
structure Idempotent (key : String) (s : Pool Shared Delivery) : Prop where
  once : s.shared.handled.count key ≤ 1
  same : ∀ p ∈ s.procs, ∀ q ∈ s.procs, ∀ r r', Succeeded key p r → Succeeded key q r' →
    r.output = r'.output

section Orderly

variable {s : Pool Shared Delivery}

def inFlightKeys (p : Delivery) : List String :=
  match p.phase with
  | .calling | .storing _ => p.call.key.toList
  | _ => []

def pendingKeys (p : Delivery) : List String :=
  match p.phase with
  | .storing _ => p.call.key.toList
  | _ => []

def stored (w : Shared) (key : String) : ℕ := if w.store key = none then 0 else 1

/-- The books of every key. At most one delivery is in flight for it, and none once its
entry is stored. Each success of its handler is pending or stored. -/
structure Ledger (start : ℕ) (s : Pool Shared Delivery) : Prop where
  begun : start ≤ s.shared.now
  clock : s.shared.now < start + ttlSeconds * 1000
  fresh : ∀ key e t, s.shared.store key = some (e, t) → start + ttlSeconds * 1000 ≤ t
  single : ∀ key, (held inFlightKeys s.procs).count key + stored s.shared key ≤ 1
  counted : ∀ key, s.shared.handled.count key =
    (held pendingKeys s.procs).count key + stored s.shared key

def Settled (kind : StoreKind) (w : Shared) (p : Delivery) : Prop :=
  match p.phase with
  | .storing r => r.status = .success ∧ (p.call.key ≠ none → Kept kind r)
  | .returned r => r.status = .success → ∀ key, p.call.key = some key →
      ∃ e t, w.store key = some (e, t) ∧ (replay e).output = r.output
  | _ => True

def KeepsEntries (w w' : Shared) : Prop := ∀ key x, w.store key = some x → w'.store key = some x

theorem pending_le_inFlight (key : String) :
    ∀ ps : List Delivery, (held pendingKeys ps).count key ≤ (held inFlightKeys ps).count key := by
  intro ps
  induction ps with
  | nil => simp [held]
  | cons p ps ih =>
    simp only [held, List.flatMap_cons, List.count_append] at ih ⊢
    have hp : (pendingKeys p).count key ≤ (inFlightKeys p).count key := by
      unfold pendingKeys inFlightKeys
      cases p.phase <;> simp
    omega

theorem Ledger.misses (hl : Ledger start s) {key : String} (hm : Misses s.shared key) :
    s.shared.store key = none := by
  rcases get_cases s.shared.store s.shared.now key with ⟨e, t, _, _, hget⟩ | ⟨hold, _⟩
  · rw [Misses, hget] at hm
    cases hm
  · cases h : s.shared.store key with
    | none => rfl
    | some x =>
      have hfresh := hl.fresh key x.1 x.2 h
      have hexpired := hold x.1 x.2 h
      have hnow := hl.clock
      omega

/-- While a delivery of the key is in flight no entry of it is stored. -/
theorem Ledger.unstored (hl : Ledger start s) {p : Delivery} {key : String} (hp : p ∈ s.procs)
    (hkey : p.call.key = some key) (hf : InFlight p) : s.shared.store key = none := by
  have hone : 0 < (held inFlightKeys s.procs).count key := by
    apply Nat.lt_of_lt_of_le _ (count_le_held inFlightKeys key hp)
    rw [List.count_pos_iff, inFlightKeys]
    rcases hf with hc | ⟨r, hr⟩
    · simp [hc, hkey]
    · simp [hr, hkey]
  have hsingle := hl.single key
  unfold stored at hsingle
  by_contra hne
  rw [if_neg hne] at hsingle
  omega

inductive Move (kind : StoreKind) (s : Pool Shared Delivery) (p : Delivery) : Shared → Phase → Prop
  | idle : Move kind s p s.shared p.phase
  | enter (hp : p.phase = .arrived)
      (free : ∀ key, p.call.key = some key → s.shared.store key = none ∧
        ∀ q ∈ s.procs, q.call.key = some key → ¬ InFlight q) : Move kind s p s.shared .calling
  | replays {key : String} {e : Entry} {t : ℕ} (hp : p.phase = .arrived)
      (hkey : p.call.key = some key) (he : s.shared.store key = some (e, t)) :
      Move kind s p s.shared (.returned (replay e))
  | fails {phase : Phase} (hp : p.phase = .calling)
      (hend : phase = .raised ∨ ∃ r, phase = .returned r ∧ r.status ≠ .success) :
      Move kind s p s.shared phase
  | succeeds {vars : VariableStore} {r : ToolResult} (hp : p.phase = .calling)
      (hr : r.status = .success) (hk : p.call.key ≠ none → Kept kind r) :
      Move kind s p
        { s.shared with vars := vars, handled := s.shared.handled ++ p.call.key.toList }
          (.storing r)
  | returns {r : ToolResult} (hp : p.phase = .storing r) (hkey : p.call.key = none) :
      Move kind s p s.shared (.returned r)
  | stores {r : ToolResult} {key : String} {e : Entry} (hp : p.phase = .storing r)
      (hkey : p.call.key = some key) (hnone : s.shared.store key = none)
      (hout : (replay e).output = r.output) :
      Move kind s p (s.shared.keep key e) (.returned r)

/-- The steps of a run whose books are in order, under the guard. -/
theorem run_moves (hl : Ledger start s) {i : ℕ} {inp : Input} {p : Delivery}
    (hord : Orderly kind strLength s (.act i inp)) (hi : s.procs[i]? = some p)
    (hset : Settled kind s.shared p) : ∃ w phase, Move kind s p w phase ∧
      run kind strLength inp s.shared p = (w, { p with phase := phase }) := by
  rcases run_cases inp with h | ⟨hp, rfl, h⟩ | ⟨hp, phase, h, hend⟩ |
    ⟨hp, raw, uuid, l, rfl, h⟩ | ⟨r, hp, rfl, h⟩
  · exact ⟨_, _, .idle, h⟩
  · cases hkey : p.call.key with
    | none =>
      rw [consult_none hkey] at h
      exact ⟨_, _, .enter hp (by simp [hkey]), h⟩
    | some key =>
      by_cases hm : Misses s.shared key
      · have hnone := hl.misses hm
        have hsame : Function.update s.shared.store key none = s.shared.store := by
          rw [← hnone]
          exact Function.update_eq_self key _
        rw [consult_miss hkey hm, hsame] at h
        refine ⟨_, _, .enter hp ?_, h⟩
        intro key' hkey'
        obtain rfl : key = key' := Option.some.inj (hkey.symm.trans hkey')
        exact ⟨hnone, hord p key hi hp hkey hm⟩
      · obtain ⟨e, t, he, ht⟩ := hit_of_not_misses hm
        rw [consult_hit hkey he ht] at h
        exact ⟨_, _, .replays hp hkey he, h⟩
  · exact ⟨_, _, .fails hp hend, h⟩
  · cases hc : s.shared.vars.capture strLength raw p.call.toolId uuid with
    | none =>
      have hkey : p.call.key = none := by
        by_contra hkey
        obtain ⟨out, vars, hsome⟩ := (hord p hi hp hkey).captured p.call.toolId uuid
        rw [hc] at hsome
        cases hsome
      rw [handlerReturns_lost hc, hkey, Option.toList_none, List.append_nil] at h
      exact ⟨_, _, .fails hp (.inl rfl), h⟩
    | some x =>
      rw [handlerReturns_captured hc] at h
      exact ⟨_, _, .succeeds hp rfl fun hkey => (survives_iff hc).mp (hord p hi hp hkey), h⟩
  · rw [Settled, hp] at hset
    cases hkey : p.call.key with
    | none =>
      rw [storeResult_none hkey] at h
      exact ⟨_, _, .returns hp hkey, h⟩
    | some key =>
      obtain ⟨e, he, hout⟩ := hset.2 (by simp [hkey])
      rw [storeResult_kept hkey hset.1 he] at h
      exact ⟨_, _, .stores hp hkey
        (hl.unstored (List.mem_of_getElem? hi) hkey (.inr ⟨r, hp⟩)) hout, h⟩

theorem inFlight_count_zero {key : String} {ps : List Delivery}
    (h : ∀ q ∈ ps, q.call.key = some key → ¬ InFlight q) :
    (held inFlightKeys ps).count key = 0 := by
  rw [List.count_eq_zero, held, List.mem_flatMap]
  rintro ⟨q, hq, hkey⟩
  unfold inFlightKeys at hkey
  cases hp : q.phase with
  | calling =>
    rw [hp, Option.mem_toList] at hkey
    exact h q hq hkey (.inl hp)
  | storing r =>
    rw [hp, Option.mem_toList] at hkey
    exact h q hq hkey (.inr ⟨r, hp⟩)
  | _ => simp [hp] at hkey

theorem count_key {c : Call} {key : String} :
    c.key.toList.count key = if c.key = some key then 1 else 0 := by
  cases h : c.key with
  | none => simp
  | some k => simp [List.count_singleton]

theorem stored_keep {w : Shared} {key key' : String} {e : Entry} :
    stored (w.keep key e) key' = if key' = key then 1 else stored w key' := by
  rw [stored, keep_store]
  by_cases h : key' = key
  · simp [h]
  · simp [h, stored]

section Books

variable {i : ℕ} {p : Delivery}

/-- The books after one delivery moved, from the keys it holds before and after. -/
theorem Ledger.set (hl : Ledger start s) (hi : s.procs[i]? = some p) {w : Shared} {q : Delivery}
    (hnow : w.now = s.shared.now)
    (hfresh : ∀ key e t, w.store key = some (e, t) → start + ttlSeconds * 1000 ≤ t)
    (hin : ∀ key, (held inFlightKeys s.procs).count key + (inFlightKeys q).count key +
      stored w key ≤ (inFlightKeys p).count key + 1)
    (hpend : ∀ key, w.handled.count key + (pendingKeys p).count key =
      (held pendingKeys s.procs).count key + (pendingKeys q).count key + stored w key) :
    Ledger start ⟨w, s.procs.set i q⟩ := by
  refine ⟨by rw [hnow]; exact hl.begun, by rw [hnow]; exact hl.clock, hfresh, fun key => ?_,
    fun key => ?_⟩
  · have hset := count_held_set inFlightKeys key hi q
    have hkey := hin key
    simp only
    omega
  · have hset := count_held_set pendingKeys key hi q
    have hkey := hpend key
    simp only
    omega

/-- A delivery may let go of its key as long as nothing is stored or logged. -/
theorem Ledger.quiet (hl : Ledger start s) (hi : s.procs[i]? = some p) {q : Delivery}
    (hin : ∀ key, (inFlightKeys q).count key ≤ (inFlightKeys p).count key)
    (hpend : ∀ key, (pendingKeys q).count key = (pendingKeys p).count key) :
    Ledger start ⟨s.shared, s.procs.set i q⟩ := by
  refine hl.set hi rfl hl.fresh (fun key => ?_) (fun key => ?_)
  · have hs := hl.single key
    have hkey := hin key
    omega
  · have hc := hl.counted key
    have hkey := hpend key
    omega

theorem Ledger.move (hl : Ledger start s) (hi : s.procs[i]? = some p) {w : Shared} {phase : Phase}
    (hm : Move kind s p w phase) : Ledger start ⟨w, s.procs.set i { p with phase := phase }⟩ := by
  obtain ⟨c, ph⟩ := p
  cases hm with
  | idle => exact hl.quiet hi (fun _ => Nat.le_refl _) fun _ => rfl
  | enter hp free =>
    obtain rfl : ph = .arrived := hp
    refine hl.set hi rfl hl.fresh (fun key => ?_) (fun key => ?_)
    · have hs := hl.single key
      simp only [inFlightKeys, List.count_nil, count_key]
      by_cases hkey : c.key = some key
      · obtain ⟨hnone, hfree⟩ := free key hkey
        rw [if_pos hkey, inFlight_count_zero hfree, stored, if_pos hnone]
      · rw [if_neg hkey]
        omega
    · have hc := hl.counted key
      simp only [pendingKeys, List.count_nil]
      omega
  | replays hp hkey he =>
    obtain rfl : ph = .arrived := hp
    exact hl.quiet hi (fun _ => Nat.le_refl _) fun _ => rfl
  | fails hp hend =>
    obtain rfl : ph = .calling := hp
    rcases hend with rfl | ⟨r, rfl, _⟩
    · exact hl.quiet hi (fun _ => Nat.zero_le _) fun _ => rfl
    · exact hl.quiet hi (fun _ => Nat.zero_le _) fun _ => rfl
  | succeeds hp hr hk =>
    obtain rfl : ph = .calling := hp
    refine hl.set hi rfl hl.fresh (fun key => ?_) (fun key => ?_)
    · have hs := hl.single key
      simp only [stored] at hs
      simp only [inFlightKeys, stored]
      omega
    · have hc := hl.counted key
      simp only [stored] at hc
      simp only [pendingKeys, List.count_append, List.count_nil, stored]
      omega
  | returns hp hkey =>
    obtain rfl : ph = .storing _ := hp
    have hnil : c.key.toList = [] := by rw [show c.key = none from hkey, Option.toList_none]
    refine hl.quiet hi (fun _ => Nat.zero_le _) fun _ => ?_
    simp only [pendingKeys, hnil]
  | @stores r key e hp hkey hnone hout =>
    obtain rfl : ph = .storing r := hp
    have hown : ∀ key', c.key = some key' ↔ key' = key := by
      intro key'
      rw [show c.key = some key from hkey, Option.some.injEq, eq_comm]
    refine hl.set hi rfl ?_ (fun key' => ?_) (fun key' => ?_)
    · intro key' e' t he
      rw [keep_store] at he
      by_cases hk : key' = key
      · rw [if_pos hk] at he
        cases he
        exact Nat.add_le_add_right hl.begun _
      · rw [if_neg hk] at he
        exact hl.fresh key' e' t he
    · have hs := hl.single key'
      simp only [stored_keep, inFlightKeys, List.count_nil, count_key, hown]
      by_cases hk : key' = key
      · simp only [if_pos hk]
        omega
      · simp only [if_neg hk]
        omega
    · have hc : s.shared.handled.count key' = _ := hl.counted key'
      simp only [stored_keep, pendingKeys, List.count_nil, count_key, keep_handled, hown]
      by_cases hk : key' = key
      · rw [stored, if_pos (hk ▸ hnone)] at hc
        simp only [if_pos hk]
        omega
      · simp only [if_neg hk]
        omega

end Books

theorem settled_move {p : Delivery} {w : Shared} {phase : Phase} (hset : Settled kind s.shared p)
    (hm : Move kind s p w phase) :
    KeepsEntries s.shared w ∧ Settled kind w { p with phase := phase } := by
  obtain ⟨c, ph⟩ := p
  cases hm with
  | idle => exact ⟨fun _ _ hx => hx, hset⟩
  | enter hp free => exact ⟨fun _ _ hx => hx, trivial⟩
  | @replays key e t hp hkey he =>
    refine ⟨fun _ _ hx => hx, ?_⟩
    intro _ key' hkey'
    cases hkey.symm.trans hkey'
    exact ⟨e, t, he, rfl⟩
  | fails hp hend =>
    refine ⟨fun _ _ hx => hx, ?_⟩
    rcases hend with rfl | ⟨r, rfl, hr⟩
    · trivial
    · exact fun hsucc => absurd hsucc hr
  | succeeds hp hr hk => exact ⟨fun _ _ hx => hx, hr, hk⟩
  | returns hp hkey =>
    refine ⟨fun _ _ hx => hx, ?_⟩
    intro _ key hsome
    cases hkey.symm.trans hsome
  | @stores r key e hp hkey hnone hout =>
    refine ⟨?_, ?_⟩
    · intro key' x hx
      rw [keep_store, if_neg ?_]
      · exact hx
      · rintro rfl
        cases hnone.symm.trans hx
    · intro _ key' hkey'
      cases hkey.symm.trans hkey'
      exact ⟨e, _, by rw [keep_store, if_pos rfl], hout⟩

theorem relyGuarantee : RelyGuarantee (machine kind strLength)
    (fun s e => WithinTtl start s e ∧ Orderly kind strLength s e) (Ledger start) KeepsEntries
    (Settled kind) where
  act := by
    rintro s i inp p ⟨_, hord⟩ hl hi hset
    obtain ⟨w, phase, hm, hrun⟩ := run_moves hl hord hi hset
    have hstep : (machine kind strLength).step inp s.shared p = (w, { p with phase := phase }) :=
      hrun
    rw [hstep]
    exact settled_move hset hm
  env := fun _ _ _ _ _ _ hx => hx
  spawn := by
    rintro s p ⟨hp, _⟩ _
    have harrived : p.phase = .arrived := hp
    rw [Settled, harrived]
    trivial
  stable := by
    intro w w' p hk hset
    unfold Settled at hset ⊢
    cases hp : p.phase with
    | returned r =>
      rw [hp] at hset
      intro hr key hkey
      obtain ⟨e, t, he, hout⟩ := hset hr key hkey
      exact ⟨e, t, hk key _ he, hout⟩
    | _ =>
      rw [hp] at hset
      exact hset
  refl := fun _ _ _ hx => hx

theorem Ledger.next (hl : Ledger start s) (hset : Holds (Settled kind) s)
    {e : Event Delivery Input ℕ} (hw : WithinTtl start s e) (hord : Orderly kind strLength s e) :
    Ledger start (next (machine kind strLength) s e) := by
  cases e with
  | spawn p =>
    have hp : p.phase = .arrived := hw
    have hin : inFlightKeys p = [] := by rw [inFlightKeys, hp]
    have hpend : pendingKeys p = [] := by rw [pendingKeys, hp]
    refine ⟨hl.begun, hl.clock, hl.fresh, fun key => ?_, fun key => ?_⟩
    · simp only [ProcessPool.next, count_held_append, hin, List.count_nil]
      exact hl.single key
    · simp only [ProcessPool.next, count_held_append, hpend, List.count_nil]
      exact hl.counted key
  | env n =>
    exact ⟨Nat.le_trans hl.begun (Nat.le_add_right _ n), hw, hl.fresh, hl.single, hl.counted⟩
  | act i inp =>
    cases hi : s.procs[i]? with
    | none =>
      rw [next_idle hi]
      exact hl
    | some p =>
      obtain ⟨w, phase, hm, hrun⟩ := run_moves hl hord hi (hset p (List.mem_of_getElem? hi))
      have hstep : (machine kind strLength).step inp s.shared p = (w, { p with phase := phase }) :=
        hrun
      rw [next_act hi, hstep]
      exact hl.move hi hm

theorem Initial.ledger (h : Initial start s) : Ledger start s := by
  obtain ⟨hnow, hstore, hhandled, hprocs⟩ := h
  refine ⟨Nat.le_of_eq hnow.symm, ?_, ?_, fun key => ?_, fun key => ?_⟩
  · rw [hnow, ttlSeconds]
    omega
  · intro key e t he
    cases (hstore key).symm.trans he
  · simp [hprocs, held, stored, hstore]
  · simp [hprocs, held, stored, hstore, hhandled]

theorem Ledger.idempotent (hl : Ledger start s) (hset : Holds (Settled kind) s) (key : String) :
    Idempotent key s := by
  constructor
  · have hle := pending_le_inFlight key s.procs
    have hs := hl.single key
    have hc := hl.counted key
    omega
  · rintro p hp q hq r r' ⟨hkp, hpp, hrs⟩ ⟨hkq, hpq, hrs'⟩
    have hsp := hset p hp
    have hsq := hset q hq
    rw [Settled, hpp] at hsp
    rw [Settled, hpq] at hsq
    obtain ⟨e, t, he, hout⟩ := hsp hrs key hkp
    obtain ⟨e', t', he', hout'⟩ := hsq hrs' key hkq
    cases he.symm.trans he'
    exact hout.symm.trans hout'

def InOrder (kind : StoreKind) (start : ℕ) (s : Pool Shared Delivery) : Prop :=
  Ledger start s ∧ Holds (Settled kind) s

theorem run_inOrder {t : Pool Shared Delivery} (hr : Run (machine kind strLength)
    (fun s e => WithinTtl start s e ∧ Orderly kind strLength s e) s t) (hs : InOrder kind start s) :
    InOrder kind start t :=
  hr.invariant hs fun _ _ hg h =>
    ⟨h.1.next h.2 hg.1 hg.2, relyGuarantee.next_holds hg h.1 h.2⟩

theorem Initial.inOrder (h : Initial start s) : InOrder kind start s :=
  ⟨h.ledger, by simp [Holds, h.2.2.2]⟩

end Orderly

section Disorder

variable {s : Pool Shared Delivery} {w w' : Shared} {ps : List Delivery} {i : ℕ} {p : Delivery}
  {key : String}

theorem run_consult (hp : p.phase = .arrived) : run kind strLength .consult w p =
    ((consult w p.call).1, { p with phase := (consult w p.call).2 }) := by
  simp only [run, hp]

theorem run_returns (hp : p.phase = .calling) (raw : Value) (uuid : String) (l : ℕ) :
    run kind strLength (.returns raw uuid l) w p =
      ((handlerReturns strLength w p.call raw uuid l).1,
        { p with phase := (handlerReturns strLength w p.call raw uuid l).2 }) := by
  simp only [run, hp]

theorem run_store {r : ToolResult} (hp : p.phase = .storing r) : run kind strLength .store w p =
    ((storeResult kind w p.call r).1, { p with phase := (storeResult kind w p.call r).2 }) := by
  simp only [run, hp]

theorem handlerReturns_handled (w : Shared) (c : Call) (raw : Value) (uuid : String) (l : ℕ) :
    (handlerReturns strLength w c raw uuid l).1.handled = w.handled ++ c.key.toList := by
  cases hc : w.vars.capture strLength raw c.toolId uuid with
  | none => rw [handlerReturns_lost hc]
  | some x => rw [handlerReturns_captured hc]

def Recorded (w : Shared) : Prop := ∀ key, w.store key ≠ none → key ∈ w.handled

def Logged (w : Shared) (p : Delivery) : Prop :=
  ∀ r key, p.phase = .storing r → p.call.key = some key → key ∈ w.handled

theorem consult_logged (hrec : Recorded w) (c : Call) :
    (consult w c).1.handled = w.handled ∧ Recorded (consult w c).1 ∧
      ∀ r, (consult w c).2 ≠ .storing r := by
  cases hkey : c.key with
  | none =>
    rw [consult_none hkey]
    exact ⟨rfl, hrec, by simp⟩
  | some key =>
    by_cases hm : Misses w key
    · rw [consult_miss hkey hm]
      refine ⟨rfl, ?_, by simp⟩
      intro key' hne
      apply hrec key'
      intro hnone
      apply hne
      by_cases hk : key' = key
      · simp [hk]
      · simp [hk, hnone]
    · obtain ⟨e, t, he, ht⟩ := hit_of_not_misses hm
      rw [consult_hit hkey he ht]
      exact ⟨rfl, hrec, by simp⟩

theorem storeResult_logged {r : ToolResult} (hrec : Recorded w) (hlog : Logged w p)
    (hp : p.phase = .storing r) :
    (storeResult kind w p.call r).1.handled = w.handled ∧
      Recorded (storeResult kind w p.call r).1 ∧
      ∀ r', (storeResult kind w p.call r).2 ≠ .storing r' := by
  cases hkey : p.call.key with
  | none =>
    rw [storeResult_none hkey]
    exact ⟨rfl, hrec, by simp⟩
  | some key =>
    by_cases hs : r.status = .success
    · cases he : encode kind r with
      | none =>
        rw [storeResult_lost hkey hs he]
        exact ⟨rfl, hrec, by simp⟩
      | some e =>
        rw [storeResult_kept hkey hs he]
        refine ⟨rfl, ?_, by simp⟩
        intro key' hne
        rw [keep_store] at hne
        by_cases hk : key' = key
        · rw [hk]
          exact hlog r key hp hkey
        · rw [if_neg hk] at hne
          exact hrec key' hne
    · rw [storeResult_failed hkey hs]
      exact ⟨rfl, hrec, by simp⟩

theorem run_logged (inp : Input) (hrec : Recorded w) (hlog : Logged w p) :
    w.handled ⊆ (run kind strLength inp w p).1.handled ∧
      Recorded (run kind strLength inp w p).1 ∧
      Logged (run kind strLength inp w p).1 (run kind strLength inp w p).2 := by
  rcases run_cases inp with h | ⟨hp, rfl, h⟩ | ⟨hp, phase, h, hend⟩ |
    ⟨hp, raw, uuid, l, rfl, h⟩ | ⟨r, hp, rfl, h⟩
  · rw [h]
    exact ⟨List.Subset.refl _, hrec, hlog⟩
  · obtain ⟨hh, hr, hs⟩ := consult_logged hrec p.call
    rw [h]
    exact ⟨hh ▸ List.Subset.refl _, hr, fun r _ hph => absurd hph (hs r)⟩
  · rw [h]
    refine ⟨List.Subset.refl _, hrec, ?_⟩
    intro r key hph
    rcases hend with rfl | ⟨r', rfl, _⟩ <;> cases hph
  · rw [h]
    cases hc : w.vars.capture strLength raw p.call.toolId uuid with
    | none =>
      rw [handlerReturns_lost hc]
      refine ⟨List.subset_append_left _ _, ?_, fun r _ hph => by cases hph⟩
      exact fun key hne => List.mem_append_left _ (hrec key hne)
    | some x =>
      rw [handlerReturns_captured hc]
      refine ⟨List.subset_append_left _ _, ?_, ?_⟩
      · exact fun key hne => List.mem_append_left _ (hrec key hne)
      · intro r key _ hkey
        exact List.mem_append_right _ (Option.mem_toList.mpr hkey)
  · obtain ⟨hh, hr, hs⟩ := @storeResult_logged kind w p r hrec hlog hp
    rw [h]
    exact ⟨hh ▸ List.Subset.refl _, hr, fun r _ hph => absurd hph (hs r)⟩

theorem logGuarantee : RelyGuarantee (machine kind strLength) (WithinTtl start)
    (fun s => Recorded s.shared) (fun w w' => w.handled ⊆ w'.handled) Logged where
  act := fun s i inp p _ hrec _ hlog =>
    ⟨(run_logged inp hrec hlog).1, (run_logged inp hrec hlog).2.2⟩
  env := fun _ _ _ _ => List.Subset.refl _
  spawn := by
    intro s p hp _ r key hph
    cases hph.symm.trans hp
  stable := fun w w' p hsub hlog r key hph hkey => hsub (hlog r key hph hkey)
  refl := fun _ => List.Subset.refl _

def Accounted (s : Pool Shared Delivery) : Prop := Recorded s.shared ∧ Holds Logged s

theorem next_accounted {e : Event Delivery Input ℕ} (hw : WithinTtl start s e) (h : Accounted s) :
    Accounted (next (machine kind strLength) s e) := by
  refine ⟨?_, logGuarantee.next_holds hw h.1 h.2⟩
  cases e with
  | spawn p => exact h.1
  | env n => exact h.1
  | act i inp =>
    cases hi : s.procs[i]? with
    | none =>
      rw [next_idle hi]
      exact h.1
    | some p =>
      rw [next_act hi]
      exact (run_logged inp h.1 (h.2 p (List.mem_of_getElem? hi))).2.1

theorem run_accounted {t : Pool Shared Delivery}
    (hr : Run (machine kind strLength) (WithinTtl start) s t) (hs : Accounted s) : Accounted t :=
  hr.invariant hs fun _ _ hw h => next_accounted hw h

theorem Initial.accounted (h : Initial start s) : Accounted s :=
  ⟨fun key hne => absurd (h.2.1 key) hne, by simp [Holds, h.2.2.2]⟩

def Doomed (kind : StoreKind) (strLength : Value → ℕ) (start : ℕ) (s : Pool Shared Delivery) :
    Prop :=
  ∃ t, Run (machine kind strLength) (WithinTtl start) s t ∧ ∃ key, ¬ Idempotent key t

theorem Doomed.step {e : Event Delivery Input ℕ} (hw : WithinTtl start s e)
    (h : Doomed kind strLength start (next (machine kind strLength) s e)) :
    Doomed kind strLength start s := by
  obtain ⟨t, hr, hbad⟩ := h
  exact ⟨t, .head ⟨e, hw, rfl⟩ hr, hbad⟩

theorem Doomed.act {inp : Input} {q : Delivery} (hi : ps[i]? = some p)
    (hrun : run kind strLength inp w p = (w', q))
    (h : Doomed kind strLength start ⟨w', ps.set i q⟩) : Doomed kind strLength start ⟨w, ps⟩ := by
  apply Doomed.step (e := .act i inp) trivial
  have hstep : (machine kind strLength).step inp w p = (w', q) := hrun
  rwa [next_act (s := ⟨w, ps⟩) hi, hstep]

theorem doomed_twice (h : 2 ≤ s.shared.handled.count key) : Doomed kind strLength start s := by
  refine ⟨s, .refl, key, ?_⟩
  intro hi
  have honce := hi.once
  omega

/-- Once the key was handled, a delivery in its handler can return as well. -/
theorem doomed_calling (hi : ps[i]? = some p) (hp : p.phase = .calling)
    (hkey : p.call.key = some key) (hmem : key ∈ w.handled) :
    Doomed kind strLength start ⟨w, ps⟩ := by
  apply Doomed.act hi (run_returns hp .null "" 0)
  apply doomed_twice
  have hpos : 0 < w.handled.count key := List.count_pos_iff.mpr hmem
  rw [handlerReturns_handled, List.count_append, count_key, if_pos hkey]
  omega

theorem doomed_arrival {phase : Phase} (hcon : consult w p.call = (w', phase))
    (h : Doomed kind strLength start ⟨w', ps ++ [{ p with phase := phase }]⟩) :
    Doomed kind strLength start ⟨w, ps⟩ := by
  apply Doomed.step (e := .spawn { p with phase := .arrived }) rfl
  have hi : (ps ++ [{ p with phase := .arrived }])[ps.length]? =
      some { p with phase := .arrived } := by simp
  have hrun := @run_consult kind strLength w { p with phase := .arrived } rfl
  simp only [hcon] at hrun
  apply Doomed.act hi hrun
  simpa [List.set_append_right] using h

/-- Once the key was handled and nothing is stored for it, a new delivery can run it
again. -/
theorem doomed_missing (hkey : p.call.key = some key) (hm : Misses w key)
    (hmem : key ∈ w.handled) : Doomed kind strLength start ⟨w, ps⟩ := by
  apply doomed_arrival (consult_miss hkey hm)
  have hi : (ps ++ [{ p with phase := .calling }])[ps.length]? =
      some { p with phase := .calling } := by simp
  exact doomed_calling hi rfl hkey hmem

/-- A lookup that misses while another delivery is in flight. -/
theorem doomed_overlap (hacc : Accounted s) (hi : s.procs[i]? = some p) (hp : p.phase = .arrived)
    (hkey : p.call.key = some key) (hm : Misses s.shared key) {q : Delivery} (hq : q ∈ s.procs)
    (hkq : q.call.key = some key) (hf : InFlight q) :
    Doomed kind strLength start (next (machine kind strLength) s (.act i .consult)) := by
  have hstep : (machine kind strLength).step .consult s.shared p =
      ({ s.shared with store := Function.update s.shared.store key none },
        { p with phase := .calling }) := by
    have hrun := @run_consult kind strLength s.shared p hp
    rwa [consult_miss hkey hm] at hrun
  rw [next_act hi, hstep]
  obtain ⟨j, hj⟩ := List.mem_iff_getElem?.mp hq
  have hij : i ≠ j := by
    rintro rfl
    cases hi.symm.trans hj
    rcases hf with hc | ⟨r, hr⟩
    · cases hp.symm.trans hc
    · cases hp.symm.trans hr
  have hcalling : (s.procs.set i { p with phase := .calling })[i]? =
      some { p with phase := .calling } := by
    simp [(List.getElem?_eq_some_iff.mp hi).1]
  rcases hf with hc | ⟨r, hr⟩
  · have hother : (s.procs.set i { p with phase := .calling })[j]? = some q := by
      simp [hij, hj]
    apply Doomed.act hother (run_returns hc .null "" 0)
    have hstill (q' : Delivery) : ((s.procs.set i { p with phase := .calling }).set j q')[i]? =
        some { p with phase := .calling } := by
      simpa [Ne.symm hij] using hcalling
    refine doomed_calling (hstill _) rfl hkey ?_
    rw [handlerReturns_handled]
    exact List.mem_append_right _ (Option.mem_toList.mpr hkq)
  · exact doomed_calling hcalling rfl hkey (hacc.2 q hq r key hr hkq)

theorem misses_of_none (h : w.store key = none) : Misses w key := by
  simp [Misses, Store.get, h]

/-- A result that the store does not keep as it was returned. -/
theorem doomed_pending {out : Output} {l : ℕ} (hi : ps[i]? = some p)
    (hp : p.phase = .storing (.success p.call.toolId out l)) (hkey : p.call.key = some key)
    (hmem : key ∈ w.handled) (hnone : w.store key = none)
    (hlost : ¬ Kept kind (.success p.call.toolId out l)) : Doomed kind strLength start ⟨w, ps⟩ := by
  have hrun := @run_store kind strLength w p _ hp
  cases he : encode kind (.success p.call.toolId out l) with
  | none =>
    rw [storeResult_lost hkey rfl he] at hrun
    exact Doomed.act hi hrun (doomed_missing hkey (misses_of_none hnone) hmem)
  | some e =>
    -- The first caller keeps its own result, and the next one gets the replay.
    rw [storeResult_kept hkey rfl he] at hrun
    apply Doomed.act hi hrun
    have hhit : (w.keep key e).store key = some (e, w.now + ttlSeconds * 1000) := by
      rw [keep_store, if_pos rfl]
    have hnow : (w.keep key e).now < w.now + ttlSeconds * 1000 := by
      simp [Shared.keep, ttlSeconds]
    apply doomed_arrival (consult_hit hkey hhit hnow)
    refine ⟨_, .refl, key, ?_⟩
    intro hid
    have hstatus : (replay e).status = .success := by
      cases kind with
      | inMemory =>
        cases he
        rfl
      | dragonfly =>
        obtain ⟨d, _, rfl⟩ := Option.map_eq_some_iff.mp he
        rfl
    have hlt : i < ps.length := (List.getElem?_eq_some_iff.mp hi).1
    apply hlost
    refine ⟨e, he, ?_⟩
    refine hid.same _ (List.mem_append_right _ List.mem_cons_self) _
      (List.mem_append_left _ (List.mem_set hlt _)) _ _ ⟨hkey, rfl, hstatus⟩ ⟨hkey, rfl, rfl⟩

theorem doomed_lost (hacc : Accounted s) (hi : s.procs[i]? = some p) (hp : p.phase = .calling)
    (hkey : p.call.key = some key) {raw : Value} (uuid : String) (l : ℕ)
    (hlost : ¬ Survives kind strLength s.shared.vars raw) :
    Doomed kind strLength start
      (next (machine kind strLength) s (.act i (.returns raw uuid l))) := by
  have hstep : (machine kind strLength).step (.returns raw uuid l) s.shared p = _ :=
    run_returns hp raw uuid l
  rw [next_act hi, hstep]
  have hone : key ∈ p.call.key.toList := Option.mem_toList.mpr hkey
  by_cases hnone : s.shared.store key = none
  · cases hc : s.shared.vars.capture strLength raw p.call.toolId uuid with
    | none =>
      rw [handlerReturns_lost hc]
      exact doomed_missing hkey (misses_of_none hnone) (List.mem_append_right _ hone)
    | some x =>
      rw [handlerReturns_captured hc]
      have hpending : (s.procs.set i
          { p with phase := .storing (.success p.call.toolId x.1 l) })[i]? =
          some { p with phase := .storing (.success p.call.toolId x.1 l) } := by
        simp [(List.getElem?_eq_some_iff.mp hi).1]
      exact doomed_pending hpending rfl hkey (List.mem_append_right _ hone) hnone
        (mt (survives_iff hc).mpr hlost)
  · -- Something is stored, so the key was handled before.
    apply doomed_twice
    have hpos : 0 < s.shared.handled.count key := List.count_pos_iff.mpr (hacc.1 key hnone)
    rw [handlerReturns_handled, List.count_append, count_key, if_pos hkey]
    omega

/-- Every step that is not orderly can be followed by a broken promise. -/
theorem disorder_doomed (hacc : Accounted s) {e : Event Delivery Input ℕ}
    (h : ¬ Orderly kind strLength s e) :
    Doomed kind strLength start (next (machine kind strLength) s e) := by
  cases e with
  | spawn p => exact absurd trivial h
  | env n => exact absurd trivial h
  | act i inp =>
    cases inp with
    | consult =>
      simp only [Orderly, not_forall, not_not] at h
      obtain ⟨p, key, hi, hp, hkey, hm, q, hq, hkq, hf⟩ := h
      exact doomed_overlap hacc hi hp hkey hm hq hkq hf
    | returns raw uuid l =>
      simp only [Orderly, not_forall] at h
      obtain ⟨p, hi, hp, hne, hlost⟩ := h
      obtain ⟨key, hkey⟩ := Option.ne_none_iff_exists'.mp hne
      exact doomed_lost hacc hi hp hkey uuid l hlost
    | _ => exact absurd trivial h

end Disorder

def noStore : Pool Shared Delivery := ⟨⟨0, fun _ => none, {}, []⟩, []⟩

theorem noStore_initial : Initial 0 noStore := ⟨rfl, fun _ => rfl, rfl, rfl⟩

def createTicket : Delivery := { call := ⟨"create_ticket", 5000, some "req-1:s1:create_ticket"⟩ }

def oneByOne (raw : Value) : List (Event Delivery Input ℕ) :=
  [.spawn createTicket, .act 0 .consult, .act 0 (.returns raw "9f2c51d07ab3" 120), .act 0 .store,
    .env 2000, .spawn createTicket, .act 1 .consult]

def overlapping (raw : Value) : List (Event Delivery Input ℕ) :=
  [.spawn createTicket, .act 0 .consult, .env 2000, .spawn createTicket, .act 1 .consult,
    .act 0 (.returns raw "9f2c51d07ab3" 2100), .act 0 .store,
    .act 1 (.returns raw "04be77c1a2d9" 90), .act 1 .store]

def ticketMade : Value := .dict [(.str "ticket_id", .str "INC0010023")]

theorem orderly_alone {s : Pool Shared Delivery} {i : ℕ}
    (h : ∀ q ∈ s.procs, inFlightKeys q = []) : Orderly kind strLength s (.act i .consult) := by
  intro p key _ _ _ _ q hq hkey hf
  have hnil := h q hq
  rcases hf with hc | ⟨r, hr⟩
  · simp [inFlightKeys, hc, hkey] at hnil
  · simp [inFlightKeys, hr, hkey] at hnil

theorem ticketMade_survives : Survives .dragonfly (fun _ => 0) {} ticketMade := by
  refine ⟨?_, ?_⟩
  · unfold Fits
    decide +kernel
  · simp [ticketMade, Plain, PlainItems]

theorem overlapping_run (kind : StoreKind) (raw : Value) :
    Run (machine kind fun _ => 0) (WithinTtl 0)
    noStore (play (machine kind fun _ => 0) noStore (overlapping raw)) := by
  apply run_play
  refine ⟨rfl, trivial, ?_, rfl, trivial, trivial, trivial, trivial, trivial, trivial⟩
  cases kind <;> (unfold WithinTtl; decide +kernel)

def ticketPair : Value := .tuple [.str "INC0010023", .str "open"]

theorem oneByOne_run : Run (machine .dragonfly fun _ => 0) (WithinTtl 0) noStore
    (play (machine .dragonfly fun _ => 0) noStore (oneByOne ticketPair)) := by
  apply run_play
  refine ⟨rfl, trivial, trivial, trivial, ?_, rfl, trivial, trivial⟩
  unfold WithinTtl
  decide +kernel

end ToolRunner
