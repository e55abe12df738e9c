import OneOps.EntityExtraction
import OneOps.PiiRedaction
import OneOps.TurnReply

/-! The turns that no agent answers. A gate before the router gives social messages a fixed
reply each; a message that shows the shape of a record id is never taken for one. Behind the
router, the boundary speaks where no agent was found. -/
namespace ConversationControl

open EntityExtraction
open FulfillmentContracts
open PythonRegex
open RegexLanguage
open TurnReply (Wording field)

inductive ControlType where
  | none | greeting | wellbeingCheck | farewell | thanks | acknowledgement | compliment | apology
  | frustration | identity | helpInquiry | capabilitiesInquiry | chitchat | outOfScope | noise
  deriving DecidableEq, Repr

def outOfScopeReply : String :=
  "You are asking questions that are out of my scope. Please ask your questions within the " ++
    "ITSM/ITOM domain."

def response : ControlType → Option String
  | .none => Option.none
  | .greeting => some "Hello. How can I help you with your ITSM work today?"
  | .wellbeingCheck => some "I'm doing well, thanks. How can I help with your ITSM work today?"
  | .thanks => some "You're welcome."
  | .acknowledgement => some "Got it."
  | .farewell => some "Goodbye."
  | .compliment => some "Thank you. Happy to help — what else do you need?"
  | .apology => some "No problem at all. What can I help you with?"
  | .frustration =>
    some "I understand — let's work through it. Tell me what's going wrong and I'll help."
  | .identity => some ("I'm OneOps, an AI assistant for IT, ITSM, and ITOM. I can summarise " ++
      "tickets, search the knowledge base, and help you navigate incidents, requests, problems, " ++
      "changes, and configuration items. What can I help with?")
  | .helpInquiry => some ("I help with ITSM work — tickets, requests, problems, changes, " ++
      "knowledge articles, assets, and CMDB records. Try asking about a specific ticket (e.g. " ++
      "'summarize INC0001001') or describing an issue.")
  | .capabilitiesInquiry => some ("I can summarise any incident / request / problem / change / " ++
      "asset / CMDB record, search the knowledge base, and answer follow-up questions about a " ++
      "ticket's fields. Share a record id or describe the issue and I'll take it from there.")
  | .chitchat => some ("Happy to chat, but I'm really only useful for your ITSM work. Got a " ++
      "ticket I can help with?")
  | .outOfScope => some outOfScopeReply
  | .noise => some "Please share what you need help with."

structure ControlResult where
  controlType : ControlType
  responseText : Option String
  deriving DecidableEq, Repr

def fallthrough : ControlResult := ⟨.none, none⟩

def canned (label : ControlType) : ControlResult := ⟨label, response label⟩

def isEmoji (c : Char) : Bool :=
  PythonText.isSpace c || (0x1F300 ≤ c.toNat && c.toNat ≤ 0x1FAFF) ||
    (0x2600 ≤ c.toNat && c.toNat ≤ 0x27BF)

/-- `[A-Z]` where case is ignored: two letters beyond ASCII fold into it. -/
def isIdLetter (c : Char) : Bool := c.isAlpha || c.toNat = 0x17F || c.toNat = 0x212A

def idParts (cls : CharClasses) : List Regex :=
  [.rep 2 (some 6) (.chr isIdLetter), .rep 4 none (.chr cls.digit)]

def canonicalId (cls : CharClasses) : Regex :=
  LlmGateway.sequence (.boundary :: (idParts cls ++ [.boundary]))

/-- The model's label; none where it abstains or cannot be asked. -/
abbrev ControlClassifier := String → Option ControlType

def detectConversationControl (cls : CharClasses) (classify : ControlClassifier)
    (message : String) : ControlResult :=
  if PythonText.strip message = "" then canned .noise
  else if message.toList.all fun c => !cls.word c || c = '_' then canned .noise
  else if message.toList.all isEmoji then canned .noise
  else if search cls.word (canonicalId cls) message.toList then fallthrough
  else
    match classify message with
    | some label => canned label
    | none => fallthrough

def ControlResult.fires (r : ControlResult) : Bool :=
  r.responseText.any (· ≠ "") && r.controlType ≠ .none

theorem response_ne_empty {label : ControlType} {text : String} (h : response label = some text) :
    label ≠ .none ∧ text ≠ "" := by
  cases label <;> cases h <;> exact ⟨by decide, by decide +kernel⟩

theorem response_isSome {label : ControlType} (h : label ≠ .none) : (response label).isSome := by
  cases label <;> first | rfl | exact absurd rfl h

theorem canned_fires (label : ControlType) : (canned label).fires = true ↔ label ≠ .none := by
  unfold ControlResult.fires canned
  constructor
  · intro h
    rw [Bool.and_eq_true, decide_eq_true_eq] at h
    exact h.2
  · intro h
    obtain ⟨text, ht⟩ := Option.isSome_iff_exists.mp (response_isSome h)
    simp [ht, h, (response_ne_empty ht).2]

theorem detect_cases (cls : CharClasses) (classify : ControlClassifier) (message : String) :
    ∃ label, detectConversationControl cls classify message = canned label := by
  unfold detectConversationControl
  split_ifs
  · exact ⟨_, rfl⟩
  · exact ⟨_, rfl⟩
  · exact ⟨_, rfl⟩
  · exact ⟨.none, rfl⟩
  · cases classify message with
    | some label => exact ⟨label, rfl⟩
    | none => exact ⟨.none, rfl⟩

/-- Two to six letters and at least four digits, between word boundaries. -/
def ShowsId (cls : CharClasses) (text : List Char) : Prop :=
  ∃ a letters digits b, text = a ++ (letters ++ digits) ++ b ∧
    (∀ c ∈ letters, isIdLetter c) ∧ 2 ≤ letters.length ∧ letters.length ≤ 6 ∧
    (∀ c ∈ digits, cls.digit c) ∧ 4 ≤ digits.length ∧
    Edge cls.word a (letters ++ digits ++ b) ∧ Edge cls.word (a ++ (letters ++ digits)) b

theorem finds_canonicalId (cls : CharClasses) :
    Finds cls.word (canonicalId cls) (lang (LlmGateway.sequence (idParts cls))) :=
  PiiRedaction.finds_sequence (List.cons_ne_nil _ _)
    (by simp [idParts, LlmGateway.sequence, Plain])

theorem mem_idParts {cls : CharClasses} {m : List Char} :
    m ∈ lang (LlmGateway.sequence (idParts cls)) ↔ ∃ letters digits, m = letters ++ digits ∧
      (∀ c ∈ letters, isIdLetter c) ∧ 2 ≤ letters.length ∧ letters.length ≤ 6 ∧
      (∀ c ∈ digits, cls.digit c) ∧ 4 ≤ digits.length := by
  change m ∈ lang (.rep 2 (some 6) (.chr isIdLetter)) * lang (.rep 4 none (.chr cls.digit)) ↔ _
  rw [Language.mem_mul]
  constructor
  · rintro ⟨letters, ⟨k, hk, hmax, hl⟩, digits, ⟨j, hj, -, hd⟩, rfl⟩
    obtain ⟨rfl, hletters⟩ := mem_chr_pow.mp hl
    obtain ⟨rfl, hdigits⟩ := mem_chr_pow.mp hd
    exact ⟨letters, digits, rfl, hletters, hk, hmax 6 rfl, hdigits, hj⟩
  · rintro ⟨letters, digits, rfl, hletters, hmin, hmax, hdigits, hfour⟩
    refine ⟨letters, ⟨letters.length, hmin, ?_, mem_chr_pow.mpr ⟨rfl, hletters⟩⟩, digits,
      ⟨digits.length, hfour, nofun, mem_chr_pow.mpr ⟨rfl, hdigits⟩⟩, rfl⟩
    intro h hh
    obtain rfl := Option.some.inj hh
    exact hmax

theorem search_canonicalId {cls : CharClasses} {text : List Char} :
    search cls.word (canonicalId cls) text = true ↔ ShowsId cls text := by
  have hne : [] ∉ lang (LlmGateway.sequence (idParts cls)) := by
    rw [mem_idParts]
    rintro ⟨letters, digits, heq, -, hmin, -⟩
    rw [(List.append_eq_nil_iff.mp heq.symm).1] at hmin
    cases hmin
  rw [(finds_canonicalId cls).search_iff hne]
  constructor
  · rintro ⟨a, m, b, rfl, ho⟩
    obtain ⟨letters, digits, rfl, hletters, hmin, hmax, hdigits, hfour⟩ := mem_idParts.mp ho.mem
    exact ⟨a, letters, digits, b, rfl, hletters, hmin, hmax, hdigits, hfour, ho.starts, ho.stops⟩
  · rintro ⟨a, letters, digits, b, rfl, hletters, hmin, hmax, hdigits, hfour, hstart, hstop⟩
    exact ⟨a, letters ++ digits, b, rfl,
      mem_idParts.mpr ⟨letters, digits, rfl, hletters, hmin, hmax, hdigits, hfour⟩, hstart, hstop⟩

theorem idLetter_plain {c : Char} (h : isIdLetter c) :
    PythonText.isSpace c = false ∧ isEmoji c = false ∧ c ≠ '_' := by
  have hcode : (65 ≤ c.toNat ∧ c.toNat ≤ 90) ∨ (97 ≤ c.toNat ∧ c.toNat ≤ 122) ∨ c.toNat = 0x17F ∨
      c.toNat = 0x212A := by
    simp only [isIdLetter, Bool.or_eq_true, decide_eq_true_eq, PythonText.isAlpha_iff] at h
    omega
  have hspace : PythonText.isSpace c = false := by
    simp only [PythonText.isSpace, List.mem_cons, List.not_mem_nil, or_false,
      decide_eq_false_iff_not]
    omega
  refine ⟨hspace, ?_, ?_⟩
  · simp only [isEmoji, hspace, Bool.false_or, Bool.or_eq_false_iff, Bool.and_eq_false_iff,
      decide_eq_false_iff_not]
    omega
  · rintro rfl
    revert hcode
    decide

/-- A message that shows an id goes on to the router, whatever the model would say of it. -/
theorem shownId_passes {cls : CharClasses} (hword : ∀ c, isIdLetter c → cls.word c)
    (classify : ControlClassifier) {message : String} (h : ShowsId cls message.toList) :
    detectConversationControl cls classify message = fallthrough := by
  have hsearch := search_canonicalId.mpr h
  obtain ⟨a, letters, digits, b, htext, hletters, hmin, -⟩ := h
  obtain ⟨c, hc⟩ : ∃ c, c ∈ letters := by
    cases letters with
    | nil => cases hmin
    | cons c rest => exact ⟨c, List.mem_cons_self⟩
  have hmem : c ∈ message.toList := by
    rw [htext]
    simp [hc]
  obtain ⟨hspace, hemoji, hunder⟩ := idLetter_plain (hletters c hc)
  unfold detectConversationControl
  rw [if_neg (PythonText.strip_ne_empty hmem hspace), if_neg, if_neg, if_pos hsearch]
  · intro hall
    rw [List.all_eq_true.mp hall c hmem] at hemoji
    cases hemoji
  · intro hall
    have := List.all_eq_true.mp hall c hmem
    simp [hword c (hletters c hc), hunder] at this

def boundaryFallback (outcome : String) : String :=
  if outcome = "policy_denied" then
    "You don't have access to do that. If you believe you should, ask your administrator to " ++
      "grant the necessary permission."
  else
    "I'm not sure how to help with that yet. Could you rephrase it, or tell me which area it " ++
      "relates to — a ticket, a knowledge article, an approval, and so on?"

def boolField (fields : JsonObject) (name : String) : Option Bool :=
  match field fields name with
  | .bool b => some b
  | _ => none

/-- `_combine_axes`; none where the axes are missing or malformed. -/
def combineAxes : Json → Option String
  | .obj axes =>
    match boolField axes "asks_for_written_content", boolField axes "mentions_it_topic",
        boolField axes "is_pure_chitchat" with
    | some a, some b, some c =>
      if c && !(a || b) then some "out_of_scope"
      else if a && b then some "in_scope_kb_search"
      else if (a && !b) || (b && !a) then some "in_scope_unclear"
      else some "out_of_scope"
    | _, _, _ => none
  | _ => none

def defaultReply (category reply : String) : String :=
  if category = "in_scope_kb_search" then "I'll search the knowledge base and share what I find."
  else if category = "in_scope_unclear" then
    "Could you tell me which ticket or topic you're asking about?"
  else if category = "greeting" then "Hi! How can I help with your tickets today?"
  else reply

def textField (T : Wording) (fields : JsonObject) (name : String) : String :=
  PythonText.strip (if (field fields name).truthy then T.str (field fields name) else "")

/-- `_parse_boundary_payload`; none for a document that is no object, which raises. -/
def parseBoundaryPayload (T : Wording) (loads : String → Option Json) (content : String) :
    Option (String × String) :=
  match loads content with
  | none => some ("", content)
  | some (.obj fields) =>
    let category := T.lower (textField T fields "category")
    let reply := textField T fields "reply"
    match combineAxes (field fields "axes") with
    | some derived =>
      if derived ≠ category then some (derived, defaultReply derived reply)
      else some (category, reply)
    | none => some (category, reply)
  | some _ => none

def respond (T : Wording) (loads : String → Option Json) (outcome : String)
    (answer : Option String) : Option String :=
  if outcome = "policy_denied" then some (boundaryFallback outcome)
  else
    match answer with
    | none => some (boundaryFallback outcome)
    | some content =>
      (parseBoundaryPayload T loads (PythonText.strip content)).map fun payload =>
        if payload.1 = "out_of_scope" then outOfScopeReply
        else if payload.2 ≠ "" then payload.2
        else boundaryFallback outcome

theorem respond_ne_empty {T : Wording} {loads : String → Option Json} {outcome : String}
    {answer : Option String} {text : String} (h : respond T loads outcome answer = some text) :
    text ≠ "" := by
  have hfallback : ∀ outcome, boundaryFallback outcome ≠ "" := by
    intro outcome
    unfold boundaryFallback
    split <;> exact TurnReply.append_ne_empty (by decide +kernel)
  unfold respond at h
  split at h
  · obtain rfl := Option.some.inj h
    exact hfallback _
  · cases answer with
    | none =>
      obtain rfl := Option.some.inj h
      exact hfallback _
    | some content =>
      obtain ⟨payload, -, rfl⟩ := Option.map_eq_some_iff.mp h
      split_ifs with hscope hreply
      · exact TurnReply.append_ne_empty (by decide +kernel)
      · exact hreply
      · exact hfallback _

end ConversationControl
