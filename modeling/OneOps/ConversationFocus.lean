import OneOps.SessionConversation
import OneOps.EntityExtraction
import OneOps.ExecutorMemory

/-! The record that a conversation is about. Every turn runs on a thread of its own, so its
focus is found again each time: in the message, or else in the latest user message of the
stored history that names a record, after the history was cut to the window and trimmed to the
token budget. -/
namespace ConversationFocus

open SessionStore
open SessionConversation
open EntityIds
open EntityExtraction
open ExecutorMemory

def roleText : TurnRole → String
  | .user => "user"
  | .assistant => "assistant"

def historyTurn (e : ConversationEvent) : Message :=
  [("role", roleText e.turnRole), ("content", e.content)]

/-- `load_session`, on what the store gives: the raw history where there is no trimmer, or
where it cannot be trimmed. An exception of the summariser goes through. -/
def loadSession (trimmer : Option TokenBudgetTrimmer) (tenantId : String)
    (events : List ConversationEvent) : Except String (List Message) :=
  match trimmer with
  | none => .ok (events.map historyTurn)
  | some T =>
    match trim T (events.map historyTurn) tenantId with
    | .ok r => .ok r.history
    | .error (.conversationTrim _) => .ok (events.map historyTurn)
    | .error (.summariser e) => .error e

inductive FocusSource where
  | currentMessage | carried | historyRecovery | topicSearchDrop
  deriving DecidableEq, Repr

abbrev Focus := Option (String × String)

section

variable (cls : CharClasses) (n : EntityIdNormalizer)

def named (message : String) : Focus :=
  (extract cls n message).entities.head?.map fun e => (e.entityId, e.serviceId)

def namedByUser (t : Message) : Focus :=
  if field t "role" = "user" then named cls n (field t "content") else none

def resolveFocus (message : String) (carried : Focus) (history : List Message) :
    Focus × FocusSource :=
  match named cls n message with
  | some e => (some e, .currentMessage)
  | none =>
    match carried with
    | some c => (some c, .carried)
    | none =>
      match history.reverse.findSome? (namedByUser cls n) with
      | some e => (some e, .historyRecovery)
      | none => (none, .carried)

/-- Whether the model says that a message is a topic search; a call that fails says nothing. -/
abbrev FocusIntentClassifier := String → String × String → Bool

def applyFocusIntent (classifier : Option FocusIntentClassifier) (message : String) :
    Focus × FocusSource → Focus × FocusSource
  | (some e, source) =>
    if (source = .carried ∨ source = .historyRecovery) ∧
        (classifier.any fun c => c message e) = true then (none, .topicSearchDrop)
    else (some e, source)
  | (none, source) => (none, source)

def updateFocus (classifier : Option FocusIntentClassifier) (message : String) (carried : Focus)
    (history : List Message) : Focus :=
  (applyFocusIntent classifier message (resolveFocus cls n message carried history)).1

end

theorem updateFocus_unnamed {cls : CharClasses} {n : EntityIdNormalizer}
    {classifier : Option FocusIntentClassifier} {message : String} {history : List Message}
    (h : named cls n message = none) :
    updateFocus cls n classifier message none history =
      (history.reverse.findSome? (namedByUser cls n)).filter fun f =>
        !classifier.any fun c => c message f := by
  simp only [updateFocus, resolveFocus, h]
  cases history.reverse.findSome? (namedByUser cls n) with
  | none => rfl
  | some f =>
    rw [Option.filter_some]
    cases hc : classifier.any fun c => c message f <;> simp [applyFocusIntent, hc]

/-- The newest events that a trimmer leaves as they are. -/
def reach (trimmer : Option TokenBudgetTrimmer) (P : RetentionPolicy) : ℕ :=
  match trimmer with
  | none => P.hotWindowEvents
  | some T => min T.keepLastTurns P.hotWindowEvents

variable {cls : CharClasses} {n : EntityIdNormalizer}

def lastNamed (cls : CharClasses) (n : EntityIdNormalizer) (log : List ConversationEvent) : Focus :=
  log.reverse.findSome? fun e => namedByUser cls n (historyTurn e)

/-- The history is the events themselves, or a summary before the newest of them. -/
theorem loadSession_cases {trimmer : Option TokenBudgetTrimmer} {tenantId : String}
    {events : List ConversationEvent} {history : List Message}
    (h : loadSession trimmer tenantId events = .ok history) :
    history = events.map historyTurn ∨ ∃ T text, trimmer = some T ∧
      history = summaryMessage text :: (events.rtake T.keepLastTurns).map historyTurn := by
  unfold loadSession at h
  cases trimmer with
  | none => exact .inl (Except.ok.inj h).symm
  | some T =>
    dsimp only at h
    cases htrim : trim T (events.map historyTurn) tenantId with
    | error e =>
      rw [htrim] at h
      cases e with
      | conversationTrim => exact .inl (Except.ok.inj h).symm
      | summariser => cases h
    | ok r =>
      rw [htrim] at h
      obtain rfl := Except.ok.inj h
      rcases trim_cases htrim with ⟨-, hraw⟩ | ⟨text, -, hcut⟩
      · exact .inl hraw
      · refine .inr ⟨T, text, rfl, ?_⟩
        rw [hcut, lastTurns, List.rtake, List.map_drop, List.length_map]

theorem namedByUser_summary (text : String) : namedByUser cls n (summaryMessage text) = none := rfl

theorem namedByUser_historyTurn (e : ConversationEvent) :
    namedByUser cls n (historyTurn e) =
      if e.turnRole = .user then named cls n e.content else none := by
  obtain ⟨role, content, i, now⟩ := e
  cases role <;> rfl

theorem recovered_eq (events : List ConversationEvent) :
    (events.map historyTurn).reverse.findSome? (namedByUser cls n) = lastNamed cls n events := by
  rw [← List.map_reverse, List.findSome?_map]
  rfl

/-- Trimmed or not, the history names what a suffix of the log names. -/
theorem loadSession_named (cls : CharClasses) (n : EntityIdNormalizer)
    {trimmer : Option TokenBudgetTrimmer} {tenantId : String} {P : RetentionPolicy}
    {log : List ConversationEvent} {history : List Message}
    (h : loadSession trimmer tenantId (log.rtake P.hotWindowEvents) = .ok history) :
    ∃ k, reach trimmer P ≤ k ∧
      history.reverse.findSome? (namedByUser cls n) = lastNamed cls n (log.rtake k) := by
  rcases loadSession_cases h with rfl | ⟨T, text, rfl, rfl⟩
  · refine ⟨P.hotWindowEvents, ?_, recovered_eq _⟩
    cases trimmer with
    | none => exact le_rfl
    | some T => exact Nat.min_le_right _ _
  · refine ⟨min T.keepLastTurns P.hotWindowEvents, le_rfl, ?_⟩
    rw [List.reverse_cons, List.findSome?_append, recovered_eq, rtake_rtake,
      List.findSome?_singleton, namedByUser_summary, Option.or_none]

theorem lastNamed_snoc (log : List ConversationEvent) (e : ConversationEvent) :
    lastNamed cls n (log ++ [e]) =
      (namedByUser cls n (historyTurn e)).or (lastNamed cls n log) := by
  unfold lastNamed
  rw [List.reverse_append, List.reverse_singleton, List.singleton_append, List.findSome?_cons]
  cases namedByUser cls n (historyTurn e) <;> rfl

theorem lastNamed_of_suffix {log : List ConversationEvent} {k : ℕ} {f : String × String}
    (h : lastNamed cls n (log.rtake k) = some f) : lastNamed cls n log = some f := by
  have hsplit : log = log.take (log.length - k) ++ log.rtake k := (List.take_append_drop _ _).symm
  unfold lastNamed at h ⊢
  rw [hsplit, List.reverse_append, List.findSome?_append, h, Option.some_or]

def Answered (xs : List Exchange) : Prop := ∀ x ∈ xs, x.assistantMessage ≠ ""

theorem named_empty : named cls n "" = none := by
  have hfound : PythonRegex.finditer cls.word (candidate cls) "".toList = [] := rfl
  rw [named, extract_entities, pass1DigitTokens, hfound]
  rfl

def EndsAnswered (log : List ConversationEvent) : Prop :=
  log = [] ∨ ∃ before e, log = before ++ [e] ∧ e.turnRole = .assistant

/-- A message that is not written again stands right before the last answer. -/
theorem repeated_at {P : RetentionPolicy} {log : List ConversationEvent} {m : String}
    (hend : EndsAnswered log) (h : Repeats P log m) :
    ∃ before i now a, log = before ++ [⟨.user, m, i, now⟩, a] ∧ a.turnRole = .assistant := by
  obtain ⟨e, he, hrole, hcontent⟩ := h
  rcases hend with rfl | ⟨before, a, rfl, ha⟩
  · simp [List.rtake] at he
  · have htwo : e ∈ (before ++ [a]).rtake 2 := by
      rw [← Nat.min_eq_left (Nat.min_le_left 2 P.hotWindowEvents), ← rtake_rtake] at he
      exact List.mem_of_mem_drop he
    rw [List.rtake_concat_succ, List.mem_append, List.mem_singleton] at htwo
    have hbefore : e ∈ before.rtake 1 := by
      rcases htwo with htwo | rfl
      · exact htwo
      · rw [ha] at hrole
        cases hrole
    rcases List.eq_nil_or_concat before with rfl | ⟨rest, b, rfl⟩
    · simp [List.rtake] at hbefore
    · rw [List.concat_eq_append, List.rtake_concat_succ, List.rtake_zero, List.nil_append,
        List.mem_singleton] at hbefore
      subst hbefore
      obtain ⟨role, content, i, now⟩ := e
      obtain rfl : role = .user := hrole
      obtain rfl : content = m := hcontent
      exact ⟨rest, i, now, a, by simp, ha⟩

theorem namedByUser_of_assistant {e : ConversationEvent} (h : e.turnRole = .assistant) :
    namedByUser cls n (historyTurn e) = none := by
  rw [namedByUser_historyTurn, h]
  rfl

theorem lastNamed_append {log new : List ConversationEvent}
    (h : ∀ e ∈ new, namedByUser cls n (historyTurn e) = none) :
    lastNamed cls n (log ++ new) = lastNamed cls n log := by
  have hnone : new.reverse.findSome? (fun e => namedByUser cls n (historyTurn e)) = none :=
    List.findSome?_eq_none_iff.mpr fun e he => h e (List.mem_reverse.mp he)
  unfold lastNamed
  rw [List.reverse_append, List.findSome?_append, hnone, Option.none_or]

/-- What one answered exchange adds to an answered log: its message, if there is one that is
not there already, and its answer. -/
theorem written_cases {P : RetentionPolicy} {log : List ConversationEvent} {x : Exchange}
    (hend : EndsAnswered log) (hx : x.assistantMessage ≠ "") :
    ∃ e, e.turnRole = .assistant ∧
      ((written P log x = [e] ∧ (x.userMessage = "" ∨ ∃ before i now a, a.turnRole = .assistant ∧
          log = before ++ [⟨.user, x.userMessage, i, now⟩, a])) ∨
        ∃ i, written P log x = [⟨.user, x.userMessage, i, x.now⟩, e]) := by
  unfold written
  dsimp only
  rw [if_neg hx, if_neg hx]
  by_cases hu : x.userMessage = "" ∨ Repeats P log x.userMessage
  · rw [if_pos hu]
    refine ⟨_, rfl, .inl ⟨rfl, hu.imp_right fun hr => ?_⟩⟩
    obtain ⟨before, i, now, a, heq, ha⟩ := repeated_at hend hr
    exact ⟨before, i, now, a, ha, heq⟩
  · rw [if_neg hu]
    exact ⟨_, rfl, .inr ⟨_, rfl⟩⟩

theorem lastNamed_user (log : List ConversationEvent) {after : List ConversationEvent} {m : String}
    {i now : ℕ} (h : ∀ e ∈ after, e.turnRole = .assistant) :
    lastNamed cls n (log ++ ⟨.user, m, i, now⟩ :: after) =
      (named cls n m).or (lastNamed cls n log) := by
  have hsplit : log ++ ⟨.user, m, i, now⟩ :: after =
      (log ++ [⟨.user, m, i, now⟩]) ++ after := by simp
  rw [hsplit, lastNamed_append fun e he => namedByUser_of_assistant (h e he), lastNamed_snoc]
  rfl

section Run

variable {P : RetentionPolicy} {log : List ConversationEvent} {x : Exchange}
  {f : String × String}

theorem EndsAnswered.written (hend : EndsAnswered log) (hx : x.assistantMessage ≠ "") :
    EndsAnswered (log ++ written P log x) := by
  obtain ⟨e, he, ⟨hw, -⟩ | ⟨i, hw⟩⟩ := written_cases (P := P) hend hx
  · exact .inr ⟨log, e, by rw [hw], he⟩
  · exact .inr ⟨log ++ [⟨.user, x.userMessage, i, x.now⟩], e, by rw [hw]; simp, he⟩

theorem written_named (hend : EndsAnswered log) (hx : x.assistantMessage ≠ "") :
    lastNamed cls n (log ++ written P log x) =
      (named cls n x.userMessage).or (lastNamed cls n log) := by
  obtain ⟨e, he, ⟨hw, hold⟩ | ⟨i, hw⟩⟩ := written_cases (P := P) hend hx
  · rw [hw, lastNamed_append fun e' he' => namedByUser_of_assistant
      (List.mem_singleton.mp he' ▸ he)]
    rcases hold with hempty | ⟨before, i, now, a, ha, rfl⟩
    · rw [hempty, named_empty, Option.none_or]
    · rw [lastNamed_user before fun e' he' => List.mem_singleton.mp he' ▸ ha]
      cases named cls n x.userMessage <;> rfl
  · rw [hw, lastNamed_user log fun e' he' => List.mem_singleton.mp he' ▸ he]

theorem recorded_ends {xs : List Exchange} (h : Answered xs) :
    EndsAnswered (recorded P xs).cold := by
  induction xs using List.reverseRecOn with
  | nil => exact .inl rfl
  | append_singleton xs x ih =>
    rw [recorded_cold]
    apply EndsAnswered.written (ih fun y hy => h y (List.mem_append_left _ hy))
    exact h x (List.mem_append_right _ List.mem_cons_self)

theorem recorded_named {xs : List Exchange} (h : Answered xs) :
    lastNamed cls n (recorded P xs).cold =
      xs.reverse.findSome? fun x => named cls n x.userMessage := by
  induction xs using List.reverseRecOn with
  | nil => rfl
  | append_singleton xs x ih =>
    have hprev : Answered xs := fun y hy => h y (List.mem_append_left _ hy)
    have hx : x.assistantMessage ≠ "" := h x (List.mem_append_right _ List.mem_cons_self)
    rw [recorded_cold, written_named (recorded_ends hprev) hx, ih hprev, List.reverse_append,
      List.reverse_singleton, List.singleton_append, List.findSome?_cons]
    cases named cls n x.userMessage <;> rfl

theorem lastNamed_wider {k k' : ℕ} (hk : k ≤ k') (h : lastNamed cls n (log.rtake k) = some f) :
    lastNamed cls n (log.rtake k') = some f := by
  apply lastNamed_of_suffix (k := k)
  rwa [rtake_rtake, Nat.min_eq_left hk]

theorem rtake_append_length (log new : List ConversationEvent) (k : ℕ) :
    (log ++ new).rtake (k + new.length) = log.rtake k ++ new := by
  unfold List.rtake
  rw [List.length_append, Nat.add_sub_add_right,
    List.drop_append_of_le_length (Nat.sub_le _ _)]

theorem lastNamed_newest (new : List ConversationEvent) (h : lastNamed cls n new = some f) :
    lastNamed cls n ((log ++ new).rtake new.length) = some f := by
  have hnew := rtake_append_length log new 0
  rw [Nat.zero_add, List.rtake_zero, List.nil_append] at hnew
  rw [hnew, h]

theorem written_near (hend : EndsAnswered log) (hx : x.assistantMessage ≠ "")
    (hf : named cls n x.userMessage = some f) :
    lastNamed cls n ((log ++ written P log x).rtake 3) = some f := by
  obtain ⟨e, he, ⟨hw, hold⟩ | ⟨i, hw⟩⟩ := written_cases (P := P) hend hx
  · rcases hold with hempty | ⟨before, i, now, a, ha, rfl⟩
    · rw [hempty, named_empty] at hf
      cases hf
    · have hsplit : before ++ [⟨.user, x.userMessage, i, now⟩, a] ++ [e] =
          before ++ [⟨.user, x.userMessage, i, now⟩, a, e] := by simp
      rw [hw, hsplit]
      refine lastNamed_newest [⟨.user, x.userMessage, i, now⟩, a, e] ?_
      have hafter : ∀ e' ∈ [a, e], e'.turnRole = .assistant := by
        intro e' he'
        rcases List.mem_pair.mp he' with rfl | rfl
        · exact ha
        · exact he
      exact (lastNamed_user [] hafter).trans (by rw [hf, Option.some_or])
  · rw [hw]
    apply lastNamed_wider (k := 2) (by omega)
    refine lastNamed_newest [⟨.user, x.userMessage, i, x.now⟩, e] ?_
    exact (lastNamed_user [] fun e' he' => List.mem_singleton.mp he' ▸ he).trans
      (by rw [hf, Option.some_or])

/-- An exchange that names nothing moves it back by two events at most. -/
theorem written_kept {k : ℕ} (hend : EndsAnswered log) (hx : x.assistantMessage ≠ "")
    (hnone : named cls n x.userMessage = none) (h : lastNamed cls n (log.rtake k) = some f) :
    lastNamed cls n ((log ++ written P log x).rtake (k + 2)) = some f := by
  have hquiet : ∀ e ∈ written P log x, namedByUser cls n (historyTurn e) = none := by
    obtain ⟨a, ha, ⟨hw, -⟩ | ⟨i, hw⟩⟩ := written_cases (P := P) hend hx
    · intro e he
      rw [hw, List.mem_singleton] at he
      exact namedByUser_of_assistant (he ▸ ha)
    · intro e he
      rw [hw] at he
      rcases List.mem_pair.mp he with rfl | rfl
      · exact hnone
      · exact namedByUser_of_assistant ha
  have hlen : (written P log x).length ≤ 2 := by
    obtain ⟨a, ha, ⟨hw, -⟩ | ⟨i, hw⟩⟩ := written_cases (P := P) hend hx <;> simp [hw]
  apply lastNamed_wider (k := k + (written P log x).length) (by omega)
  rw [rtake_append_length, lastNamed_append hquiet, h]

theorem recorded_near {before after : List Exchange} (h : Answered (before ++ x :: after))
    (hf : named cls n x.userMessage = some f)
    (hafter : ∀ y ∈ after, named cls n y.userMessage = none) :
    lastNamed cls n ((recorded P (before ++ x :: after)).cold.rtake (2 * after.length + 3)) =
      some f := by
  induction after using List.reverseRecOn with
  | nil =>
    have hbefore : Answered before := fun y hy => h y (List.mem_append_left _ hy)
    rw [recorded_cold]
    exact written_near (recorded_ends hbefore) (h x (by simp)) hf
  | append_singleton after y ih =>
    have hsplit : before ++ x :: (after ++ [y]) = (before ++ x :: after) ++ [y] := by simp
    rw [hsplit] at h ⊢
    have hprev : Answered (before ++ x :: after) := fun z hz => h z (List.mem_append_left _ hz)
    have hlast := ih hprev fun z hz => hafter z (List.mem_append_left _ hz)
    have hlen : 2 * (after ++ [y]).length + 3 = 2 * after.length + 3 + 2 := by
      rw [List.length_append, List.length_singleton]
      omega
    rw [recorded_cold, hlen]
    exact written_kept (recorded_ends hprev) (h y (by simp))
      (hafter y (by simp)) hlast

end Run

/-- A record that the message names is the focus; otherwise the focus is never another one than
the user named last, and it is that one as long as it stands within reach, unless the message
is a topic search. -/
structure FollowsUser (cls : CharClasses) (n : EntityIdNormalizer) (reach : ℕ)
    (classifier : Option FocusIntentClassifier) (xs : List Exchange) (message : String)
    (focus : Focus) : Prop where
  told : ∀ f, named cls n message = some f → focus = some f
  fresh : named cls n message = none → ∀ f, focus = some f →
    (xs.reverse.findSome? fun x => named cls n x.userMessage) = some f
  kept : named cls n message = none → ∀ before x after f, xs = before ++ x :: after →
    named cls n x.userMessage = some f → (∀ y ∈ after, named cls n y.userMessage = none) →
    2 * after.length + 3 ≤ reach →
    focus = if (classifier.any fun c => c message f) = true then none else some f

theorem updateFocus_follows (cls : CharClasses) (n : EntityIdNormalizer) {P : RetentionPolicy}
    {trimmer : Option TokenBudgetTrimmer} {tenantId : String}
    (classifier : Option FocusIntentClassifier) {xs : List Exchange} (h : Answered xs)
    {history : List Message}
    (hload : loadSession trimmer tenantId ((recorded P xs).cold.rtake P.hotWindowEvents) =
      .ok history) (message : String) :
    FollowsUser cls n (reach trimmer P) classifier xs message
      (updateFocus cls n classifier message none history) := by
  obtain ⟨k, hk, hhistory⟩ := loadSession_named cls n hload
  refine ⟨fun f hf => ?_, fun hnone f hfocus => ?_, ?_⟩
  · simp [updateFocus, resolveFocus, hf, applyFocusIntent]
  · rw [← recorded_named (P := P) h]
    apply lastNamed_of_suffix (k := k)
    rw [← hhistory]
    exact (Option.filter_eq_some_iff.mp ((updateFocus_unnamed hnone).symm.trans hfocus)).1
  · intro hnone before x after f heq hf hafter hreach
    have hnear := recorded_near (P := P) (heq ▸ h) hf hafter
    rw [← heq] at hnear
    have hfound := hhistory.trans (lastNamed_wider (hreach.trans hk) hnear)
    rw [updateFocus_unnamed hnone, hfound]
    cases hc : classifier.any fun c => c message f <;> simp [hc]

end ConversationFocus
