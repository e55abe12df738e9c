import Mathlib.Algebra.GroupWithZero.Nat
import Mathlib.Data.Rat.Defs
import Mathlib.Logic.Function.Basic
import OneOps.PythonRegex

/-! The one egress to model providers. A gateway serves completions, streams and
embeddings; what it hands to its transport is logged beside the texts it was given. The
transport answers as it likes, and prices are exact rationals. -/
namespace LlmGateway

open PythonRegex

/-- The Unicode classes `\w`, `\d` and `\s`. -/
structure CharTable where
  word : Char → Bool
  digit : Char → Bool
  space : Char → Bool

inductive PiiLabel where
  | email | creditCard | ssn | ipAddress | phone
  deriving DecidableEq, Repr

def PiiLabel.placeholder : PiiLabel → String
  | .email => "[REDACTED_EMAIL]"
  | .creditCard => "[REDACTED_CREDIT_CARD]"
  | .ssn => "[REDACTED_SSN]"
  | .ipAddress => "[REDACTED_IP_ADDRESS]"
  | .phone => "[REDACTED_PHONE]"

section Redaction

variable (tbl : CharTable)

def lit (c : Char) : Regex := .chr (· = c)

def oneOf (cs : List Char) : Regex := .chr (· ∈ cs)

def digits (lo : ℕ) (hi : Option ℕ) : Regex := .rep lo hi (.chr tbl.digit)

def sequence : List Regex → Regex
  | [] => .rep 0 (some 0) .boundary
  | [r] => r
  | r :: rs => .seq r (sequence rs)

def asciiLetter (c : Char) : Bool := ('A' ≤ c ∧ c ≤ 'Z') ∨ ('a' ≤ c ∧ c ≤ 'z')

def emailPattern : Regex := sequence
  [.boundary, .rep 1 none (.chr fun c => tbl.word c ∨ c ∈ ['.', '%', '+', '-']), lit '@',
    .rep 1 none (.chr fun c => tbl.word c ∨ c ∈ ['.', '-']), lit '.',
    .rep 2 none (.chr asciiLetter), .boundary]

def creditCardPattern : Regex := sequence
  [.boundary,
    .rep 13 (some 19) (sequence [.chr tbl.digit, .rep 0 (some 1) (oneOf [' ', '-'])]), .boundary]

def ssnPattern : Regex := sequence
  [.boundary, digits tbl 3 (some 3), lit '-', digits tbl 2 (some 2), lit '-',
    digits tbl 4 (some 4), .boundary]

def ipAddressPattern : Regex := sequence
  [.boundary, .rep 3 (some 3) (sequence [digits tbl 1 (some 3), lit '.']), digits tbl 1 (some 3),
    .boundary]

def phonePattern : Regex := sequence
  [.boundary, .rep 0 (some 1) (lit '+'), .chr tbl.digit,
    .rep 7 none (.chr fun c => tbl.digit c ∨ tbl.space c ∨ c ∈ ['(', ')', '.', '-']),
    .chr tbl.digit, .boundary]

def dateLike : Regex := sequence
  [digits tbl 4 (some 4), lit '-', digits tbl 2 (some 2), lit '-', digits tbl 2 (some 2)]

/-- One pattern of `_PATTERNS` other than `phone`. -/
def redactLabel (label : PiiLabel) (pattern : Regex) (s : List Char × List PiiLabel) :
    List Char × List PiiLabel :=
  if search tbl.word pattern s.1 then
    (sub tbl.word pattern (fun _ => label.placeholder.toList) s.1, s.2 ++ [label])
  else s

/-- A match that holds a calendar date is kept and not reported. -/
def redactPhone (s : List Char × List PiiLabel) : List Char × List PiiLabel :=
  (sub tbl.word (phonePattern tbl)
      (fun w => if search tbl.word (dateLike tbl) w then w else PiiLabel.phone.placeholder.toList)
      s.1,
    if (finditer tbl.word (phonePattern tbl) s.1).any fun w =>
      !search tbl.word (dateLike tbl) w then s.2 ++ [.phone] else s.2)

def redactText (text : String) : String × List PiiLabel :=
  let s := redactLabel tbl .email (emailPattern tbl) (text.toList, [])
  let s := redactLabel tbl .creditCard (creditCardPattern tbl) s
  let s := redactLabel tbl .ssn (ssnPattern tbl) s
  let s := redactLabel tbl .ipAddress (ipAddressPattern tbl) s
  let s := redactPhone tbl s
  (String.ofList s.1, s.2)

def redacted (text : String) : String := (redactText tbl text).1

end Redaction

structure LlmMessage where
  role : String
  content : String
  cacheControl : Bool

def redactMessage (tbl : CharTable) (msg : LlmMessage) : LlmMessage :=
  if (redactText tbl msg.content).2.isEmpty then msg
  else ⟨msg.role, redacted tbl msg.content, false⟩

def redactMessages (tbl : CharTable) (messages : List LlmMessage) :
    List LlmMessage × List PiiLabel :=
  (messages.map (redactMessage tbl),
    messages.flatMap fun msg => (redactText tbl msg.content).2)

inductive ResponseFormat where
  | text | json
  deriving DecidableEq, Repr

/-- The last two fields are `__post_init__`. -/
structure LlmRequest where
  messages : List LlmMessage
  model : String
  tenantId : String
  userId : String
  maxTokens : ℤ
  responseFormat : ResponseFormat
  requestId : String
  tenant_mandatory : tenantId ≠ ""
  messages_nonempty : messages ≠ []

structure TransportResult where
  content : String
  promptTokens : ℕ
  completionTokens : ℕ
  finishReason : String
  actualModel : String
  cacheReadInputTokens : ℕ
  cacheCreationInputTokens : ℕ

structure LlmResponse where
  content : String
  model : String
  promptTokens : ℕ
  completionTokens : ℕ
  costUsd : ℚ
  latencyMs : ℕ
  finishReason : String
  redactedPii : List PiiLabel
  fellBack : Bool
  cacheReadInputTokens : ℕ
  cacheCreationInputTokens : ℕ

structure StreamDelta where
  text : String
  final : Bool
  promptTokens : ℕ
  completionTokens : ℕ
  finishReason : String
  actualModel : String
  cacheReadInputTokens : ℕ
  cacheCreationInputTokens : ℕ

inductive GatewayError where
  | quotaExceeded (message : String)
  | gateway (message : String) (cause : Option String)
  | value (message : String)
  /-- An exception of the transport that no handler of the gateway catches. -/
  | transport (name : String)

/-- A limit of zero or less is no limit. -/
structure QuotaGuard where
  defaultLimit : ℤ
  limits : String → Option ℤ
  used : String → ℕ

def QuotaGuard.limitFor (q : QuotaGuard) (tenantId : String) : ℤ :=
  (q.limits tenantId).getD q.defaultLimit

def QuotaGuard.spent (q : QuotaGuard) (tenantId : String) : Prop :=
  0 < q.limitFor tenantId ∧ q.limitFor tenantId ≤ q.used tenantId

instance (q : QuotaGuard) (tenantId : String) : Decidable (q.spent tenantId) :=
  inferInstanceAs (Decidable (_ ∧ _))

def QuotaGuard.checkAndCharge (q : QuotaGuard) (tenantId : String) :
    Except GatewayError QuotaGuard :=
  if q.spent tenantId then
    .error (.quotaExceeded ("tenant '" ++ tenantId ++ "' has used its " ++
      toString (q.limitFor tenantId) ++ "-call LLM quota for this window"))
  else .ok { q with used := Function.update q.used tenantId (q.used tenantId + 1) }

/-- USD per million tokens, input and output. -/
def priceFor (model : String) : ℚ × ℚ :=
  if model = "gpt-4o-mini" then (15 / 100, 60 / 100)
  else if model = "gpt-4o" then (250 / 100, 10)
  else if model = "text-embedding-3-large" then (13 / 100, 0)
  else if model = "text-embedding-3-small" then (2 / 100, 0)
  else (1, 3)

def computeCost (model : String) (promptTokens completionTokens : ℕ) : ℚ :=
  promptTokens / 1000000 * (priceFor model).1 + completionTokens / 1000000 * (priceFor model).2

structure Usage where
  calls : ℕ
  promptTokens : ℕ
  completionTokens : ℕ
  costUsd : ℚ

def Usage.add (u : Usage) (model : String) (promptTokens completionTokens : ℕ) : Usage :=
  ⟨u.calls + 1, u.promptTokens + promptTokens, u.completionTokens + completionTokens,
    u.costUsd + computeCost model promptTokens completionTokens⟩

structure Config where
  redact : Bool
  maxRetries : ℤ
  fallbackModel : Option String

/-- One handover to the transport: the texts of the request and the texts handed over. -/
structure Egress where
  given : List String
  sent : List String
  deriving DecidableEq

structure Gateway where
  quota : Option QuotaGuard
  usage : String × String → Usage
  egress : List Egress

def Gateway.record (g : Gateway) (tenantId model : String)
    (promptTokens completionTokens : ℕ) : Gateway :=
  { g with
    usage := Function.update g.usage (tenantId, model)
      ((g.usage (tenantId, model)).add model promptTokens completionTokens) }

def Gateway.charge (g : Gateway) (tenantId : String) : Except GatewayError Gateway :=
  match g.quota with
  | none => .ok g
  | some q => (q.checkAndCharge tenantId).map fun q' => { g with quota := some q' }

/-- How one transport call ends. -/
inductive Attempt where
  | result (r : TransportResult)
  | transient (error : String)
  | raised (error : String)

def contents (messages : List LlmMessage) : List String := messages.map (·.content)

section Calls

variable (tbl : CharTable) (cfg : Config)

def outboundMessages (req : LlmRequest) : List LlmMessage :=
  if cfg.redact then (redactMessages tbl req.messages).1 else req.messages

/-- `tuple(sorted(found))`. -/
def sortedLabels (found : List PiiLabel) : List PiiLabel :=
  [.creditCard, .email, .ipAddress, .phone, .ssn].filter (· ∈ found)

def redactedPii (req : LlmRequest) : List PiiLabel :=
  if cfg.redact then sortedLabels (redactMessages tbl req.messages).2 else []

def handover (req : LlmRequest) : Egress :=
  ⟨contents req.messages, contents (outboundMessages tbl cfg req)⟩

/-- The retry loop: the number of transport calls, and the answer or the last error. -/
def attempts (answers : ℕ → Attempt) : ℕ → ℕ → ℕ × Option Attempt
  | 0, _ => (0, none)
  | left + 1, i =>
    match answers i with
    | .transient e =>
      let rest := attempts answers left (i + 1)
      (rest.1 + 1, rest.2 <|> some (.transient e))
    | a => (1, some a)

def fallbackFor (req : LlmRequest) : Option String :=
  cfg.fallbackModel.filter fun m => m ≠ "" ∧ m ≠ req.model

def exhausted (cause : Option String) : GatewayError :=
  .gateway ("LLM call failed after " ++ toString (cfg.maxRetries + 1) ++ " attempt(s)" ++
    (if (cfg.fallbackModel.filter (· ≠ "")).isSome then " and a fallback" else "")) cause

/-- `_send`: the calls it makes, the result and whether it fell back. -/
def send (req : LlmRequest) (answers : ℕ → Attempt) :
    ℕ × Except GatewayError (TransportResult × Bool) :=
  let tries := attempts answers (cfg.maxRetries + 1).toNat 0
  match tries.2 with
  | some (.result r) => (tries.1, .ok (r, false))
  | some (.raised e) => (tries.1, .error (.transport e))
  | some (.transient e) => fallback tries.1 (some e)
  | none => fallback tries.1 none
where
  fallback (made : ℕ) (cause : Option String) :
      ℕ × Except GatewayError (TransportResult × Bool) :=
    match fallbackFor cfg req with
    | none => (made, .error (exhausted cfg cause))
    | some _ =>
      match answers made with
      | .result r => (made + 1, .ok (r, true))
      | .transient e => (made + 1, .error (exhausted cfg (some e)))
      | .raised e => (made + 1, .error (.transport e))

def servedModel (actual requested : String) : String := if actual = "" then requested else actual

/-- `call`, with the answers of the transport and the measured latency. -/
def call (req : LlmRequest) (answers : ℕ → Attempt) (latencyMs : ℕ) (g : Gateway) :
    Gateway × Except GatewayError LlmResponse :=
  match g.charge req.tenantId with
  | .error e => (g, .error e)
  | .ok g₁ =>
    let g₂ : Gateway :=
      { g₁ with
        egress := g₁.egress ++ List.replicate (send cfg req answers).1 (handover tbl cfg req) }
    match (send cfg req answers).2 with
    | .error e => (g₂, .error e)
    | .ok (r, fellBack) =>
      let model := servedModel r.actualModel req.model
      (g₂.record req.tenantId model r.promptTokens r.completionTokens,
        .ok { content := r.content
              model := model
              promptTokens := r.promptTokens
              completionTokens := r.completionTokens
              costUsd := computeCost model r.promptTokens r.completionTokens
              latencyMs := latencyMs
              finishReason := r.finishReason
              redactedPii := redactedPii tbl cfg req
              fellBack := fellBack
              cacheReadInputTokens := r.cacheReadInputTokens
              cacheCreationInputTokens := r.cacheCreationInputTokens })

def readStream : List StreamDelta → List String × Option StreamDelta
  | [] => ([], none)
  | d :: ds =>
    if d.final then ([], some d)
    else
      let rest := readStream ds
      (if d.text = "" then rest.1 else d.text :: rest.1, rest.2)

/-- `call_stream`: the deltas yielded, then the terminal response or the error. `failure`
is an exception of the stream after `deltas`. -/
def callStream (req : LlmRequest) (deltas : List StreamDelta) (failure : Option String)
    (latencyMs : ℕ) (g : Gateway) : Gateway × List String × Except GatewayError LlmResponse :=
  match g.charge req.tenantId with
  | .error e => (g, [], .error e)
  | .ok g₁ =>
    let g₂ : Gateway := { g₁ with egress := g₁.egress ++ [handover tbl cfg req] }
    let pieces := (readStream deltas).1
    let last := (readStream deltas).2
    match last, failure with
    | none, some name =>
      (g₂, pieces, .error (.gateway ("LLM stream failed (" ++ name ++ ")") (some name)))
    | _, _ =>
      let promptTokens := (last.map (·.promptTokens)).getD 0
      let completionTokens := (last.map (·.completionTokens)).getD 0
      let model := servedModel ((last.map (·.actualModel)).getD "") req.model
      (g₂.record req.tenantId model promptTokens completionTokens, pieces,
        .ok { content := String.join pieces
              model := model
              promptTokens := promptTokens
              completionTokens := completionTokens
              costUsd := computeCost model promptTokens completionTokens
              latencyMs := latencyMs
              finishReason := (last.map (·.finishReason)).getD "stop"
              redactedPii := redactedPii tbl cfg req
              fellBack := false
              cacheReadInputTokens := (last.map (·.cacheReadInputTokens)).getD 0
              cacheCreationInputTokens := (last.map (·.cacheCreationInputTokens)).getD 0 })

def embedTokens (texts : List String) : ℕ := (texts.map fun t => max 1 (t.length / 4)).sum

/-- `embed`; `answer` is what the transport returns or raises. -/
def embed (texts : List String) (model tenantId : String)
    (answer : Except String (List (List ℚ))) (g : Gateway) :
    Gateway × Except GatewayError (List (List ℚ)) :=
  if tenantId = "" then (g, .error (.value "embed requires a tenant_id"))
  else
    match g.charge tenantId with
    | .error e => (g, .error e)
    | .ok g₁ =>
      let g₂ : Gateway := { g₁ with egress := g₁.egress ++ [⟨texts, texts⟩] }
      match answer with
      | .error name => (g₂, .error (.transport name))
      | .ok vectors => (g₂.record tenantId model (embedTokens texts) 0, .ok vectors)

end Calls

section Redacted

variable {tbl : CharTable} {cfg : Config}

theorem redactLabel_quiet {label : PiiLabel} {pattern : Regex} {s : List Char × List PiiLabel}
    (h : (redactLabel tbl label pattern s).2 = []) : redactLabel tbl label pattern s = s := by
  unfold redactLabel at h ⊢
  split_ifs at h ⊢
  · simp at h
  · rfl

/-- Kept matches do not change the text. -/
theorem redactPhone_quiet {s : List Char × List PiiLabel} (h : (redactPhone tbl s).2 = []) :
    redactPhone tbl s = s := by
  unfold redactPhone at h ⊢
  dsimp only at h ⊢
  split_ifs at h ⊢ with hany
  · simp at h
  · refine Prod.ext (sub_eq_self fun w hw => ?_) rfl
    have hdate : search tbl.word (dateLike tbl) w = true := by
      by_contra hno
      exact hany (List.any_eq_true.mpr ⟨w, hw, by simpa using hno⟩)
    exact if_pos hdate

theorem redacted_eq_self {text : String} (h : (redactText tbl text).2 = []) :
    redacted tbl text = text := by
  simp only [redacted, redactText] at h ⊢
  have hphone := redactPhone_quiet h
  rw [hphone] at h
  have hip := redactLabel_quiet h
  rw [hip] at h
  have hssn := redactLabel_quiet h
  rw [hssn] at h
  have hcard := redactLabel_quiet h
  rw [hcard] at h
  have hmail := redactLabel_quiet h
  rw [hphone, hip, hssn, hcard, hmail, String.ofList_toList]

theorem content_redactMessage (msg : LlmMessage) :
    (redactMessage tbl msg).content = redacted tbl msg.content := by
  unfold redactMessage
  split_ifs with h
  · exact (redacted_eq_self (List.isEmpty_iff.mp h)).symm
  · rfl

def Egress.Redacted (tbl : CharTable) (e : Egress) : Prop := e.sent = e.given.map (redacted tbl)

theorem handover_redacted (hr : cfg.redact = true) (req : LlmRequest) :
    (handover tbl cfg req).Redacted tbl := by
  simp only [Egress.Redacted, handover, outboundMessages, hr, if_true, redactMessages, contents,
    List.map_map]
  refine List.map_congr_left fun msg _ => ?_
  exact content_redactMessage msg

end Redacted

inductive Op where
  | call (req : LlmRequest) (answers : ℕ → Attempt) (latencyMs : ℕ)
  | stream (req : LlmRequest) (deltas : List StreamDelta) (failure : Option String)
      (latencyMs : ℕ)
  | embed (texts : List String) (model tenantId : String)
      (answer : Except String (List (List ℚ)))
  | setTenantLimit (tenantId : String) (limit : ℤ)
  | resetWindow

section Runs

variable (tbl : CharTable) (cfg : Config)

def perform (g : Gateway) : Op → Gateway
  | .call req answers latencyMs => (call tbl cfg req answers latencyMs g).1
  | .stream req deltas failure latencyMs => (callStream tbl cfg req deltas failure latencyMs g).1
  | .embed texts model tenantId answer => (embed texts model tenantId answer g).1
  | .setTenantLimit tenantId limit =>
    { g with quota := g.quota.map fun q =>
        { q with limits := Function.update q.limits tenantId (some limit) } }
  | .resetWindow => { g with quota := g.quota.map fun q => { q with used := fun _ => 0 } }

def performAll (g : Gateway) (ops : List Op) : Gateway := ops.foldl (perform tbl cfg) g

def Admitted (g : Gateway) (tenantId : String) : Prop :=
  tenantId ≠ "" ∧ ∀ q ∈ g.quota, ¬ q.spent tenantId

/-- An embedding that goes out holds nothing to redact. -/
def Harmless (g : Gateway) : Op → Prop
  | .embed texts _ tenantId _ => Admitted g tenantId → ∀ t ∈ texts, redacted tbl t = t
  | _ => True

def AllRedacted (g : Gateway) : Prop := ∀ e ∈ g.egress, e.Redacted tbl

end Runs

section Steps

variable {tbl : CharTable} {cfg : Config} {g : Gateway}

theorem charge_egress {tenantId : String} {g' : Gateway} (h : g.charge tenantId = .ok g') :
    g'.egress = g.egress := by
  unfold Gateway.charge at h
  split at h
  · cases h
    rfl
  · rename_i q _
    cases hc : q.checkAndCharge tenantId with
    | error e => rw [hc] at h; cases h
    | ok q' => rw [hc] at h; cases h; rfl

theorem charge_ok_iff {tenantId : String} :
    (∃ g', g.charge tenantId = .ok g') ↔ ∀ q ∈ g.quota, ¬ q.spent tenantId := by
  unfold Gateway.charge
  cases hq : g.quota with
  | none => simp
  | some q =>
    simp only [Option.mem_some_iff, forall_eq', QuotaGuard.checkAndCharge]
    split_ifs with h <;> simp [Except.map, h]

variable (tbl cfg g) in
/-- `call` adds one handover per transport call. -/
theorem call_egress (req : LlmRequest) (answers : ℕ → Attempt) (latencyMs : ℕ) :
    ∃ n, (call tbl cfg req answers latencyMs g).1.egress =
      g.egress ++ List.replicate n (handover tbl cfg req) := by
  unfold call
  split
  · exact ⟨0, by simp⟩
  · rename_i g₁ hg
    refine ⟨(send cfg req answers).1, ?_⟩
    dsimp only
    split
    · dsimp only
      rw [charge_egress hg]
    · dsimp only [Gateway.record]
      rw [charge_egress hg]

variable (tbl cfg g) in
theorem callStream_egress (req : LlmRequest) (deltas : List StreamDelta) (failure : Option String)
    (latencyMs : ℕ) :
    ∃ n, (callStream tbl cfg req deltas failure latencyMs g).1.egress =
      g.egress ++ List.replicate n (handover tbl cfg req) := by
  unfold callStream
  split
  · exact ⟨0, by simp⟩
  · rename_i g₁ hg
    refine ⟨1, ?_⟩
    dsimp only
    split
    · dsimp only
      rw [charge_egress hg]
      rfl
    · dsimp only [Gateway.record]
      rw [charge_egress hg]
      rfl

/-- `embed` hands its texts over as they are. -/
theorem embed_egress (texts : List String) (model tenantId : String)
    (answer : Except String (List (List ℚ))) :
    (Admitted g tenantId ∧
        (embed texts model tenantId answer g).1.egress = g.egress ++ [⟨texts, texts⟩]) ∨
      (¬ Admitted g tenantId ∧ (embed texts model tenantId answer g).1.egress = g.egress) := by
  unfold embed
  split_ifs with ht
  · exact .inr ⟨fun h => h.1 ht, rfl⟩
  · split
    · rename_i e he
      refine .inr ⟨fun h => ?_, rfl⟩
      obtain ⟨g', hg'⟩ := charge_ok_iff.mpr h.2
      rw [hg'] at he
      cases he
    · rename_i g₁ hg
      refine .inl ⟨⟨ht, charge_ok_iff.mp ⟨g₁, hg⟩⟩, ?_⟩
      dsimp only
      split
      · dsimp only
        rw [charge_egress hg]
      · dsimp only [Gateway.record]
        rw [charge_egress hg]

theorem redacted_unchanged_iff (texts : List String) :
    (Egress.mk texts texts).Redacted tbl ↔ ∀ t ∈ texts, redacted tbl t = t := by
  constructor
  · intro h t ht
    exact (List.map_inj_left.mp (h.symm.trans (List.map_id texts).symm) t ht)
  · intro h
    exact (List.map_id texts).symm.trans (List.map_congr_left fun t ht => (h t ht).symm)

theorem allRedacted_append_replicate (hr : cfg.redact = true) {g g' : Gateway} {req : LlmRequest}
    {n : ℕ} (h : g'.egress = g.egress ++ List.replicate n (handover tbl cfg req))
    (hg : AllRedacted tbl g) : AllRedacted tbl g' := by
  intro e he
  rw [h, List.mem_append, List.mem_replicate] at he
  rcases he with he | ⟨_, rfl⟩
  · exact hg e he
  · exact handover_redacted hr req

theorem perform_allRedacted_iff (hr : cfg.redact = true) (hg : AllRedacted tbl g) (op : Op) :
    AllRedacted tbl (perform tbl cfg g op) ↔ Harmless tbl g op := by
  cases op with
  | call req answers latencyMs =>
    obtain ⟨n, hn⟩ := call_egress tbl cfg g req answers latencyMs
    exact iff_of_true (allRedacted_append_replicate hr hn hg) trivial
  | stream req deltas failure latencyMs =>
    obtain ⟨n, hn⟩ := callStream_egress tbl cfg g req deltas failure latencyMs
    exact iff_of_true (allRedacted_append_replicate hr hn hg) trivial
  | embed texts model tenantId answer =>
    simp only [Harmless, ← redacted_unchanged_iff]
    rcases embed_egress (g := g) texts model tenantId answer with ⟨ha, he⟩ | ⟨ha, he⟩
    · constructor
      · intro h _
        exact h _ (by rw [perform, he]; exact List.mem_append_right _ (List.mem_singleton_self _))
      · intro h e hmem
        rw [perform, he, List.mem_append, List.mem_singleton] at hmem
        rcases hmem with hmem | rfl
        · exact hg e hmem
        · exact h ha
    · refine iff_of_true ?_ fun h => absurd h ha
      intro e hmem
      rw [perform, he] at hmem
      exact hg e hmem
  | setTenantLimit tenantId limit => exact iff_of_true hg trivial
  | resetWindow => exact iff_of_true hg trivial

theorem perform_keeps (g : Gateway) (op : Op) {e : Egress} (he : e ∈ g.egress) :
    e ∈ (perform tbl cfg g op).egress := by
  cases op with
  | call req answers latencyMs =>
    obtain ⟨n, hn⟩ := call_egress tbl cfg g req answers latencyMs
    rw [perform, hn]
    exact List.mem_append_left _ he
  | stream req deltas failure latencyMs =>
    obtain ⟨n, hn⟩ := callStream_egress tbl cfg g req deltas failure latencyMs
    rw [perform, hn]
    exact List.mem_append_left _ he
  | embed texts model tenantId answer =>
    rw [perform]
    rcases embed_egress (g := g) texts model tenantId answer with ⟨_, h⟩ | ⟨_, h⟩
    · rw [h]
      exact List.mem_append_left _ he
    · rw [h]
      exact he
  | setTenantLimit tenantId limit => exact he
  | resetWindow => exact he

theorem performAll_keeps (ops : List Op) : ∀ {g : Gateway} {e : Egress}, e ∈ g.egress →
    e ∈ (performAll tbl cfg g ops).egress := by
  induction ops with
  | nil => exact fun he => he
  | cons op ops ih => exact fun he => ih (perform_keeps _ op he)

theorem performAll_redacted_iff (hr : cfg.redact = true) (ops : List Op) :
    ∀ {g : Gateway}, AllRedacted tbl g → (AllRedacted tbl (performAll tbl cfg g ops) ↔
      ∀ n op, ops[n]? = some op → Harmless tbl (performAll tbl cfg g (ops.take n)) op) := by
  induction ops with
  | nil =>
    intro g hg
    exact iff_of_true hg fun n op h => by simp at h
  | cons op ops ih =>
    intro g hg
    have hstep : AllRedacted tbl (perform tbl cfg g op) ↔ Harmless tbl g op :=
      perform_allRedacted_iff hr hg op
    constructor
    · intro h
      have hnext : AllRedacted tbl (perform tbl cfg g op) := fun e he =>
        h e (performAll_keeps ops he)
      rintro (_ | n) x hx
      · cases hx
        exact hstep.mp hnext
      · exact (ih hnext).mp h n x hx
    · intro h
      exact (ih (hstep.mpr (h 0 op rfl))).mpr fun n x hx => h (n + 1) x hx

end Steps

/-- For every sequence of operations on a gateway that redacts, whatever the transport
answers: every text handed over is the redaction of the text given, exactly when each
embedding that goes out holds nothing to redact. -/
theorem egress_redacted_iff (tbl : CharTable) (cfg : Config) (hr : cfg.redact = true)
    {g : Gateway} (hg : g.egress = []) (ops : List Op) :
    (∀ e ∈ (performAll tbl cfg g ops).egress, e.Redacted tbl) ↔
      ∀ n op, ops[n]? = some op → Harmless tbl (performAll tbl cfg g (ops.take n)) op := by
  refine performAll_redacted_iff hr ops ?_
  intro e he
  rw [hg] at he
  cases he

def asciiTable : CharTable where
  word c := c.isAlphanum ∨ c = '_'
  digit c := c.isDigit
  space c := c ∈ [' ', '\t', '\n', '\r']

def redacting : Config := ⟨true, 2, none⟩

def freshGateway : Gateway := ⟨none, fun _ => ⟨0, 0, 0, 0⟩, []⟩

def mailRequest : LlmRequest :=
  ⟨[⟨"user", "ask al@x.io", false⟩], "gpt-4o", "t", "", 1024, .text, "", by decide, by simp⟩

def flaky : ℕ → Attempt
  | 0 => .transient "LLMTimeoutError"
  | _ => .result ⟨"ok", 3, 1, "stop", "", 0, 0⟩

def mailCall : Op := .call mailRequest flaky 5

theorem mailCall_redacted :
    (performAll asciiTable redacting freshGateway [mailCall]).egress =
      [⟨["ask al@x.io"], ["ask [REDACTED_EMAIL]"]⟩, ⟨["ask al@x.io"], ["ask [REDACTED_EMAIL]"]⟩] ∧
    ∀ e ∈ (performAll asciiTable redacting freshGateway [mailCall]).egress,
      e.Redacted asciiTable := by
  refine ⟨by decide, (egress_redacted_iff asciiTable redacting rfl rfl [mailCall]).mpr ?_⟩
  rintro (_ | n) op h
  · cases h
    trivial
  · simp at h

def mailEmbedding : Op := .embed ["al@x.io"] "text-embedding-3-small" "t" (.ok [[1]])

theorem embedding_sent_unredacted :
    redacting.redact = true ∧
    (performAll asciiTable redacting freshGateway [mailEmbedding]).egress =
      [⟨["al@x.io"], ["al@x.io"]⟩] ∧
    redacted asciiTable "al@x.io" = "[REDACTED_EMAIL]" ∧
    ¬ ∀ e ∈ (performAll asciiTable redacting freshGateway [mailEmbedding]).egress,
      e.Redacted asciiTable := by
  have hsent : (performAll asciiTable redacting freshGateway [mailEmbedding]).egress =
      [⟨["al@x.io"], ["al@x.io"]⟩] := by rfl
  have hmail : redacted asciiTable "al@x.io" = "[REDACTED_EMAIL]" := by decide
  refine ⟨rfl, hsent, hmail, fun h => ?_⟩
  rw [hsent] at h
  have := h _ (List.mem_singleton_self _)
  simp [Egress.Redacted, hmail] at this

end LlmGateway
