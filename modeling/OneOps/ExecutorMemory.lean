import OneOps.PythonText
import Mathlib.Algebra.Order.Ring.Nat
import Mathlib.Algebra.BigOperators.Group.List.Basic

/-! The trimmer of the conversation history. A history over the budget becomes a summary of
its older part and the last messages. Neither of the two is bounded, and the result is
estimated after it has been built, not checked. -/
namespace ExecutorMemory

open PythonText

abbrev Message := List (String × String)

def field (m : Message) (key : String) : String :=
  ((m.find? fun e => e.1 = key).map Prod.snd).getD ""

def chars (m : Message) : ℕ := (field m "role").length + (field m "content").length

def totalChars (messages : List Message) : ℕ := (messages.map chars).sum

def estimateTokens (messages : List Message) : ℕ :=
  if messages = [] then 0 else max 1 (totalChars messages / 4)

/-- The summariser of a list of messages for a tenant: its text, nothing, or an exception. -/
abbrev Summariser := List Message → String → Except String (Option String)

structure TokenBudgetTrimmer where
  maxTokens : ℕ
  keepLastTurns : ℕ
  summariser : Option Summariser
  maxTokens_pos : 0 < maxTokens
  keepLastTurns_pos : 0 < keepLastTurns

/-- The constructor refuses a budget or a window that is not positive. -/
def tokenBudgetTrimmer (maxTokens keepLastTurns : ℤ) (summariser : Option Summariser) :
    Except String TokenBudgetTrimmer :=
  if h : 0 < maxTokens then
    if h' : 0 < keepLastTurns then
      .ok ⟨maxTokens.toNat, keepLastTurns.toNat, summariser, by omega, by omega⟩
    else .error ("TokenBudgetTrimmer.keep_last_turns must be > 0, got " ++ toString keepLastTurns)
  else .error ("TokenBudgetTrimmer.max_tokens must be > 0, got " ++ toString maxTokens)

structure TrimResult where
  history : List Message
  summaryEmitted : Bool
  estimatedTokensBefore : ℕ
  estimatedTokensAfter : ℕ
  keepSuffix : ℕ
  deriving DecidableEq

inductive TrimError where
  | conversationTrim (message : String)
  | summariser (exception : String)
  deriving DecidableEq

def summaryHeader : String := "[Prior conversation summary] "

def summaryMessage (text : String) : Message :=
  [("role", "system"), ("content", summaryHeader ++ text)]

def oldTurns (T : TokenBudgetTrimmer) (history : List Message) : List Message :=
  history.take (history.length - T.keepLastTurns)

def lastTurns (T : TokenBudgetTrimmer) (history : List Message) : List Message :=
  history.drop (history.length - T.keepLastTurns)

/-- The text that the summariser gives, without white space around it. -/
def summaryText (f : Summariser) (messages : List Message) (tenantId : String) :
    Except String String :=
  (f messages tenantId).map fun out => strip (out.getD "")

def trim (T : TokenBudgetTrimmer) (history : List Message) (tenantId : String) :
    Except TrimError TrimResult :=
  let before := estimateTokens history
  if before ≤ T.maxTokens then .ok ⟨history, false, before, before, history.length⟩
  else if history.length ≤ T.keepLastTurns then
    .error (.conversationTrim ("history has " ++ toString history.length ++
      " turns but token budget (" ++ toString T.maxTokens ++ ") is already exceeded by the " ++
      "minimum keep-window (" ++ toString T.keepLastTurns ++ "); raise max_tokens or shrink " ++
      "keep_last_turns"))
  else
    match T.summariser with
    | none => .error (.conversationTrim ("conversation exceeds token budget (" ++
        toString before ++ " > " ++ toString T.maxTokens ++ ") but no summariser is wired; " ++
        "refusing to silently drop history (see [[feedback_no_turn_cap]])"))
    | some f =>
      if tenantId = "" then
        .error (.conversationTrim "trim requires tenant_id (single LLM egress is tenant-scoped)")
      else
        match summaryText f (oldTurns T history) tenantId with
        | .error e => .error (.summariser e)
        | .ok text =>
          if text = "" then
            .error (.conversationTrim
              "summariser returned an empty summary; refusing to drop prefix turns silently")
          else
            let trimmed := summaryMessage text :: lastTurns T history
            .ok ⟨trimmed, true, before, estimateTokens trimmed, (lastTurns T history).length⟩

/-- The history is over the budget and a summary of its older part is there. -/
def Summarised (T : TokenBudgetTrimmer) (history : List Message) (tenantId text : String) : Prop :=
  T.maxTokens < estimateTokens history ∧ T.keepLastTurns < history.length ∧ tenantId ≠ "" ∧
    text ≠ "" ∧ ∃ f, T.summariser = some f ∧
      summaryText f (oldTurns T history) tenantId = .ok text

def Trimmed (T : TokenBudgetTrimmer) (history result : List Message) : Prop :=
  result = history ∨ ∃ text, result = summaryMessage text :: lastTurns T history ∧
    (lastTurns T history).length = T.keepLastTurns

section Trim

variable {T : TokenBudgetTrimmer} {history : List Message} {tenantId : String}

theorem lastTurns_length (h : T.keepLastTurns < history.length) :
    (lastTurns T history).length = T.keepLastTurns := by
  unfold lastTurns
  rw [List.length_drop]
  omega

theorem trim_cases {r : TrimResult} (h : trim T history tenantId = .ok r) :
    (estimateTokens history ≤ T.maxTokens ∧ r.history = history) ∨
      ∃ text, Summarised T history tenantId text ∧
        r.history = summaryMessage text :: lastTurns T history := by
  unfold trim at h
  by_cases hbudget : estimateTokens history ≤ T.maxTokens
  · simp only [if_pos hbudget, Except.ok.injEq] at h
    exact .inl ⟨hbudget, by rw [← h]⟩
  by_cases hkeep : history.length ≤ T.keepLastTurns
  · simp [hbudget, hkeep] at h
  simp only [if_neg hbudget, if_neg hkeep] at h
  cases hs : T.summariser with
  | none => simp [hs] at h
  | some f =>
    by_cases ht : tenantId = ""
    · simp [hs, ht] at h
    simp only [hs, if_neg ht] at h
    cases htext : summaryText f (oldTurns T history) tenantId with
    | error e => simp [htext] at h
    | ok text =>
      by_cases hempty : text = ""
      · simp [htext, hempty] at h
      simp only [htext, if_neg hempty, Except.ok.injEq] at h
      exact .inr ⟨text, ⟨by omega, by omega, ht, hempty, f, hs, htext⟩, by rw [← h]⟩

theorem trim_summarised {text : String} (h : Summarised T history tenantId text) :
    ∃ r, trim T history tenantId = .ok r ∧
      r.history = summaryMessage text :: lastTurns T history := by
  obtain ⟨hbudget, hkeep, ht, hempty, f, hs, htext⟩ := h
  refine ⟨⟨summaryMessage text :: lastTurns T history, true, estimateTokens history,
    estimateTokens (summaryMessage text :: lastTurns T history),
    (lastTurns T history).length⟩, ?_, rfl⟩
  unfold trim
  simp only [if_neg (not_le.mpr hbudget), if_neg (not_le.mpr hkeep), hs, if_neg ht, htext,
    if_neg hempty]

theorem chars_summaryMessage (text : String) :
    chars (summaryMessage text) = "system".length + summaryHeader.length + text.length := by
  simp [chars, field, summaryMessage, Nat.add_assoc]

theorem estimate_summary_le (text : String) (messages : List Message) :
    estimateTokens (summaryMessage text :: messages) ≤ T.maxTokens ↔
      "system".length + summaryHeader.length + text.length + totalChars messages <
        4 * (T.maxTokens + 1) := by
  have hpos := T.maxTokens_pos
  have htotal : totalChars (summaryMessage text :: messages) =
      "system".length + summaryHeader.length + text.length + totalChars messages := by
    rw [totalChars, List.map_cons, List.sum_cons, chars_summaryMessage]
    rfl
  rw [estimateTokens, if_neg (List.cons_ne_nil _ _), htotal, max_le_iff]
  omega

end Trim

/-- For every trimmer, history and tenant: whatever is returned is within the budget, and is
the input or one summary and the last messages, exactly if the summary that is made, with
its header and the last messages, stays below four characters for each token. -/
theorem trim_bounded_iff (T : TokenBudgetTrimmer) (history : List Message) (tenantId : String) :
    (∀ r, trim T history tenantId = .ok r →
      estimateTokens r.history ≤ T.maxTokens ∧ Trimmed T history r.history) ↔
    ∀ text, Summarised T history tenantId text →
      "system".length + summaryHeader.length + text.length + totalChars (lastTurns T history) <
        4 * (T.maxTokens + 1) := by
  constructor
  · intro h text htext
    obtain ⟨r, hr, hhist⟩ := trim_summarised htext
    have hle := (h r hr).1
    rw [hhist] at hle
    exact (estimate_summary_le text _).mp hle
  · intro h r hr
    rcases trim_cases hr with ⟨hle, hhist⟩ | ⟨text, htext, hhist⟩
    · rw [hhist]
      exact ⟨hle, .inl rfl⟩
    · rw [hhist]
      exact ⟨(estimate_summary_le text _).mpr (h text htext),
        .inr ⟨text, rfl, lastTurns_length htext.2.1⟩⟩

def pastedLog : List Message :=
  [[("role", "user"), ("content", "hi")],
    [("role", "user"), ("content", String.ofList (List.replicate 200 'x'))]]

def smallBudget : TokenBudgetTrimmer :=
  ⟨20, 1, some fun _ _ => .ok (some "greeting"), by decide, by decide⟩

theorem chars_user (content : String) :
    chars [("role", "user"), ("content", content)] = 4 + content.length := by
  have huser : "user".length = 4 := String.length_ofList
  simp [chars, field, huser]

/-- The estimate of what is returned, of which the log is a part. -/
theorem trim_pasted {log : String} (hlog : log.length = 200) :
    ∃ r, trim smallBudget [[("role", "user"), ("content", "hi")],
        [("role", "user"), ("content", log)]] "t" = .ok r ∧
      estimateTokens r.history = 61 ∧ r.history.length = 2 := by
  have hover : smallBudget.maxTokens <
      estimateTokens [[("role", "user"), ("content", "hi")],
        [("role", "user"), ("content", log)]] := by
    simp only [estimateTokens, totalChars, List.map_cons, List.sum_cons, chars_user, hlog,
      smallBudget, if_neg (List.cons_ne_nil _ _)]
    omega
  obtain ⟨r, hr, hhist⟩ := @trim_summarised smallBudget _ "t" "greeting"
    ⟨hover, Nat.lt_succ_self 1, by decide, by decide, _, rfl, rfl⟩
  have hlast : lastTurns smallBudget
      [[("role", "user"), ("content", "hi")], [("role", "user"), ("content", log)]] =
      [[("role", "user"), ("content", log)]] := rfl
  rw [hlast] at hhist
  refine ⟨r, hr, ?_, by rw [hhist]; rfl⟩
  have hsystem : "system".length = 6 := String.length_ofList
  have hheader : summaryHeader.length = 29 := String.length_ofList
  have hgreeting : "greeting".length = 8 := String.length_ofList
  rw [hhist, estimateTokens, if_neg (List.cons_ne_nil _ _)]
  simp only [totalChars, List.map_cons, List.map_nil, List.sum_cons, List.sum_nil,
    chars_summaryMessage, chars_user, hsystem, hheader, hgreeting, hlog]
  rfl

theorem long_suffix_over_budget :
    (trim smallBudget pastedLog "t").toOption.map
        (fun r => (estimateTokens r.history, r.history.length)) = some (61, 2) ∧
    ¬ ∀ r, trim smallBudget pastedLog "t" = .ok r →
      estimateTokens r.history ≤ smallBudget.maxTokens ∧
        Trimmed smallBudget pastedLog r.history := by
  have hlog : (String.ofList (List.replicate 200 'x')).length = 200 := by
    rw [String.length_ofList, List.length_replicate]
  obtain ⟨r, hr, htokens, hlength⟩ := trim_pasted hlog
  refine ⟨?_, fun h => ?_⟩
  · rw [pastedLog, hr]
    change some (estimateTokens r.history, r.history.length) = _
    rw [htokens, hlength]
  · have hle := (h r hr).1
    rw [htokens] at hle
    exact absurd hle (by decide)

end ExecutorMemory
