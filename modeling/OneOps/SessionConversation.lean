import OneOps.SessionStore
import OneOps.ListSplit
import Mathlib.Data.List.Induction

/-! The conversation log as `append_turn_events` writes it, one call for each exchange. The
index of an event is read off the hot window, and a repeated user message is told from a
resumed turn by the content of the last two events. -/
namespace SessionConversation

open SessionStore
open ListSplit

inductive TurnRole where
  | user | assistant
  deriving DecidableEq, Repr

structure ConversationEvent where
  turnRole : TurnRole
  content : String
  turnIndex : ℕ
  occurredAtUnixMs : ℕ
  deriving DecidableEq, Repr

/-- One call. The first exchange of a turn ends in the answer or in the question that the
turn pauses on; each later one resumes the turn with the original message. The window may
have expired before any of the store's calls. -/
structure Exchange where
  userMessage : String
  assistantMessage : String
  resumed : Bool
  now : ℕ
  expired : ℕ → Bool

def expire (b : Bool) (s : Session ConversationEvent) : Session ConversationEvent :=
  if b then evict s else s

def isUserMessage (m : String) (e : ConversationEvent) : Bool :=
  e.turnRole = .user ∧ e.content = m

/-- The user's part: the event is written unless the message is among the last two. -/
def appendUser (P : RetentionPolicy) (s : Session ConversationEvent) (x : Exchange)
    (existing : List ConversationEvent) : Session ConversationEvent × ℕ :=
  let dupUser := x.userMessage ≠ "" && (existing.rtake 2).any (isUserMessage x.userMessage)
  if x.userMessage ≠ "" && !dupUser then
    (append P (expire (x.expired 1) s) ⟨.user, x.userMessage, existing.length, x.now⟩,
      existing.length + 1)
  else (s, existing.length)

def appendTurnEvents (P : RetentionPolicy) (s : Session ConversationEvent) (x : Exchange) :
    Session ConversationEvent :=
  let read := recent P (expire (x.expired 0) s)
  let out := appendUser P read.2 x read.1
  if x.assistantMessage ≠ "" then
    append P (expire (x.expired 2) out.1) ⟨.assistant, x.assistantMessage, out.2, x.now⟩
  else out.1

def recorded (P : RetentionPolicy) (xs : List Exchange) : Session ConversationEvent :=
  xs.foldl (appendTurnEvents P) ⟨[], none⟩

/-- The messages of an exchange; an empty one is none. A resumed turn adds its reply only. -/
def messages (x : Exchange) : List (TurnRole × String) :=
  (if x.resumed = true ∨ x.userMessage = "" then [] else [(.user, x.userMessage)]) ++
    if x.assistantMessage = "" then [] else [(.assistant, x.assistantMessage)]

def contents (log : List ConversationEvent) : List (TurnRole × String) :=
  log.map fun e => (e.turnRole, e.content)

def indices (log : List ConversationEvent) : List ℕ := log.map ConversationEvent.turnIndex

structure Faithful (log : List ConversationEvent) (xs : List Exchange) : Prop where
  complete : contents log = xs.flatMap messages
  increasing : (indices log).Pairwise (· < ·)

def Repeats (P : RetentionPolicy) (log : List ConversationEvent) (m : String) : Prop :=
  ∃ e ∈ log.rtake (min 2 P.hotWindowEvents), e.turnRole = .user ∧ e.content = m

/-- The user message is among the last two events exactly when the turn is resumed, and a
call that has something to write finds at most a windowful of events. -/
structure Recordable (P : RetentionPolicy) (log : List ConversationEvent) (x : Exchange) :
    Prop where
  told : x.userMessage ≠ "" → (x.resumed = true ↔ Repeats P log x.userMessage)
  fits : messages x ≠ [] → log.length ≤ P.hotWindowEvents

open Classical in
noncomputable def written (P : RetentionPolicy) (log : List ConversationEvent) (x : Exchange) :
    List ConversationEvent :=
  let base := min P.hotWindowEvents log.length
  if x.userMessage = "" ∨ Repeats P log x.userMessage then
    if x.assistantMessage = "" then [] else [⟨.assistant, x.assistantMessage, base, x.now⟩]
  else
    ⟨.user, x.userMessage, base, x.now⟩ ::
      if x.assistantMessage = "" then [] else [⟨.assistant, x.assistantMessage, base + 1, x.now⟩]

section Call

variable {P : RetentionPolicy} {s : Session ConversationEvent} {x : Exchange}

theorem expire_cold (b : Bool) (s : Session ConversationEvent) : (expire b s).cold = s.cold := by
  cases b <;> rfl

theorem coherent_expire (h : Coherent P s) (b : Bool) : Coherent P (expire b s) := by
  cases b with
  | false => exact h
  | true => exact evict_coherent P s

theorem any_isUserMessage {log : List ConversationEvent} {m : String} :
    ((log.rtake P.hotWindowEvents).rtake 2).any (isUserMessage m) = true ↔ Repeats P log m := by
  rw [rtake_rtake, List.any_eq_true]
  simp only [isUserMessage, decide_eq_true_eq, Repeats]

/-- The calls keep the window coherent, so what they write depends on the log alone. -/
theorem appendTurnEvents_spec (h : Coherent P s) :
    (appendTurnEvents P s x).cold = s.cold ++ written P s.cold x ∧
      Coherent P (appendTurnEvents P s x) := by
  have hread := (coherent_expire h (x.expired 0)).recent
  have hcold : (recent P (expire (x.expired 0) s)).2.cold = s.cold := by
    rw [recent_cold, expire_cold]
  have hlen := length_rtake s.cold P.hotWindowEvents
  rw [expire_cold] at hread
  unfold appendTurnEvents appendUser written
  by_cases hu : x.userMessage = "" ∨ Repeats P s.cold x.userMessage
  · have hskip : (x.userMessage ≠ "" && !(x.userMessage ≠ "" &&
        ((recent P (expire (x.expired 0) s)).1.rtake 2).any (isUserMessage x.userMessage))) =
        false := by
      rw [hread.1]
      rcases hu with hu | hu
      · simp [hu]
      · simp [any_isUserMessage.mpr hu]
    simp only [hskip, if_pos hu, Bool.false_eq_true, if_false]
    by_cases ha : x.assistantMessage = ""
    · simp only [ha, ne_eq, not_true, if_true, if_false, List.append_nil]
      exact ⟨hcold, hread.2⟩
    · simp only [ha, ne_eq, not_false_eq_true, if_true, if_false]
      refine ⟨?_, (coherent_expire hread.2 _).append _⟩
      simp only [append, expire_cold, hcold, hread.1, hlen]
  · have hwrite : (x.userMessage ≠ "" && !(x.userMessage ≠ "" &&
        ((recent P (expire (x.expired 0) s)).1.rtake 2).any (isUserMessage x.userMessage))) =
        true := by
      rw [not_or] at hu
      rw [hread.1]
      have hany := mt any_isUserMessage.mp hu.2
      simp only [Bool.not_eq_true] at hany
      simp [hu.1, hany]
    simp only [hwrite, if_neg hu, if_true]
    have hnext := (coherent_expire hread.2 (x.expired 1)).append
      ⟨.user, x.userMessage, (recent P (expire (x.expired 0) s)).1.length, x.now⟩
    by_cases ha : x.assistantMessage = ""
    · simp only [ha, ne_eq, not_true, if_true, if_false]
      refine ⟨?_, hnext⟩
      simp only [append, expire_cold, hcold, hread.1, hlen]
    · simp only [ha, ne_eq, not_false_eq_true, if_true, if_false]
      refine ⟨?_, (coherent_expire hnext _).append _⟩
      simp only [append, expire_cold, hcold, hread.1, hlen, List.append_assoc, List.cons_append,
        List.nil_append]

theorem contents_written_iff {log : List ConversationEvent} :
    contents (written P log x) = messages x ↔
      (x.userMessage ≠ "" → (x.resumed = true ↔ Repeats P log x.userMessage)) := by
  unfold written messages contents
  by_cases hu : x.userMessage = "" <;> by_cases hr : Repeats P log x.userMessage <;>
    by_cases ha : x.assistantMessage = "" <;> cases x.resumed <;> simp [hu, hr, ha]

def Positions (log : List ConversationEvent) : Prop := indices log = List.range log.length

theorem written_index {log : List ConversationEvent} (h : written P log x ≠ []) :
    ∃ e ∈ written P log x, e.turnIndex = min P.hotWindowEvents log.length := by
  unfold written at h ⊢
  by_cases hu : x.userMessage = "" ∨ Repeats P log x.userMessage
  · by_cases ha : x.assistantMessage = ""
    · simp [hu, ha] at h
    · simp [hu, ha]
  · simp [hu]

theorem Positions.append {log : List ConversationEvent} (h : Positions log)
    (hfits : log.length ≤ P.hotWindowEvents) : Positions (log ++ written P log x) := by
  have hnew : indices (written P log x) =
      List.range' log.length (written P log x).length := by
    unfold written indices
    rw [Nat.min_eq_right hfits]
    by_cases hu : x.userMessage = "" ∨ Repeats P log x.userMessage <;>
      by_cases ha : x.assistantMessage = "" <;> simp [hu, ha, List.range']
  unfold Positions indices at h ⊢
  rw [List.map_append, h, List.length_append, List.range_eq_range', List.range_eq_range']
  change _ ++ indices (written P log x) = _
  rw [hnew, ← List.range'_append_1, Nat.zero_add]

theorem Positions.increasing {log : List ConversationEvent} (h : Positions log) :
    (indices log).Pairwise (· < ·) := by
  rw [h]
  exact List.pairwise_lt_range

theorem Positions.fits {log : List ConversationEvent} (h : Positions log)
    (hw : written P log x ≠ []) (hp : (indices (log ++ written P log x)).Pairwise (· < ·)) :
    log.length ≤ P.hotWindowEvents := by
  by_contra hlt
  obtain ⟨e, he, hidx⟩ := written_index hw
  rw [indices, List.map_append, List.pairwise_append] at hp
  have hlast : log.length - 1 ∈ log.map ConversationEvent.turnIndex := by
    change _ ∈ indices log
    rw [h, List.mem_range]
    omega
  have := hp.2.2 _ hlast _ (List.mem_map_of_mem he)
  omega

theorem faithful_snoc_iff {log : List ConversationEvent} {xs : List Exchange}
    (hf : Faithful log xs) (hp : Positions log) :
    Faithful (log ++ written P log x) (xs ++ [x]) ↔ Recordable P log x := by
  have hsplit : contents (log ++ written P log x) = (xs ++ [x]).flatMap messages ↔
      contents (written P log x) = messages x := by
    rw [contents, List.map_append, List.flatMap_append, ← hf.complete]
    simp [contents]
  constructor
  · intro h
    have hwritten := hsplit.mp h.complete
    refine ⟨contents_written_iff.mp hwritten, ?_⟩
    intro hne
    apply hp.fits _ h.increasing
    intro hnil
    rw [hnil] at hwritten
    exact hne hwritten.symm
  · intro h
    have hwritten := contents_written_iff.mpr h.told
    refine ⟨hsplit.mpr hwritten, ?_⟩
    by_cases hne : messages x = []
    · rw [hne] at hwritten
      rw [List.map_eq_nil_iff.mp hwritten, List.append_nil]
      exact hf.increasing
    · exact (hp.append (h.fits hne)).increasing

theorem Positions.snoc {log : List ConversationEvent} (hp : Positions log)
    (h : Recordable P log x) : Positions (log ++ written P log x) := by
  by_cases hne : messages x = []
  · have hwritten := contents_written_iff.mpr h.told
    rw [hne] at hwritten
    rwa [List.map_eq_nil_iff.mp hwritten, List.append_nil]
  · exact hp.append (h.fits hne)

end Call

theorem recorded_snoc (P : RetentionPolicy) (xs : List Exchange) (x : Exchange) :
    recorded P (xs ++ [x]) = appendTurnEvents P (recorded P xs) x := by
  simp [recorded]

theorem recorded_coherent (P : RetentionPolicy) (xs : List Exchange) :
    Coherent P (recorded P xs) := by
  induction xs using List.reverseRecOn with
  | nil =>
    intro w hw
    cases hw
  | append_singleton xs x ih =>
    rw [recorded_snoc]
    exact (appendTurnEvents_spec ih).2

theorem recorded_cold (P : RetentionPolicy) (xs : List Exchange) (x : Exchange) :
    (recorded P (xs ++ [x])).cold =
      (recorded P xs).cold ++ written P (recorded P xs).cold x := by
  rw [recorded_snoc]
  exact (appendTurnEvents_spec (recorded_coherent P xs)).1

def AllRecordable (P : RetentionPolicy) (xs : List Exchange) : Prop :=
  AtEach (fun before x => Recordable P (recorded P before).cold x) xs

theorem positions_of_allRecordable {P : RetentionPolicy} {xs : List Exchange}
    (h : AllRecordable P xs) : Positions (recorded P xs).cold := by
  induction xs using List.reverseRecOn with
  | nil => rfl
  | append_singleton xs x ih =>
    obtain ⟨hxs, hx⟩ := atEach_snoc.mp h
    rw [recorded_cold]
    exact (ih hxs).snoc hx

/-- For every sequence of exchanges, the log is faithful after each of them exactly when
every call can tell a resumed turn from a new one by the last two events and finds at most
a windowful of events. -/
theorem conversation_log_faithful_iff (P : RetentionPolicy) (xs : List Exchange) :
    (∀ before, before <+: xs → Faithful (recorded P before).cold before) ↔ AllRecordable P xs := by
  induction xs using List.reverseRecOn with
  | nil =>
    refine ⟨fun _ => atEach_nil, ?_⟩
    · intro _ before hb
      rw [List.prefix_nil.mp hb]
      exact ⟨rfl, List.Pairwise.nil⟩
  | append_singleton xs x ih =>
    have hsplit : ∀ before, before <+: xs ++ [x] ↔ before <+: xs ∨ before = xs ++ [x] := by
      intro before
      rw [List.prefix_concat_iff, or_comm]
    rw [AllRecordable, atEach_snoc, ← AllRecordable, ← ih]
    constructor
    · intro h
      have hxs : ∀ before, before <+: xs → Faithful (recorded P before).cold before :=
        fun before hb => h before ((hsplit before).mpr (.inl hb))
      have hlast := h (xs ++ [x]) List.prefix_rfl
      rw [recorded_cold] at hlast
      exact ⟨hxs, (faithful_snoc_iff (hxs xs List.prefix_rfl)
        (positions_of_allRecordable (ih.mp hxs))).mp hlast⟩
    · rintro ⟨hxs, hx⟩ before hb
      rcases (hsplit before).mp hb with hb | rfl
      · exact hxs before hb
      · rw [recorded_cold]
        exact (faithful_snoc_iff (hxs xs List.prefix_rfl)
          (positions_of_allRecordable (ih.mp hxs))).mpr hx

def directTurn (userMessage assistantMessage : String) : Exchange :=
  ⟨userMessage, assistantMessage, false, 0, fun _ => false⟩

/-- The user sends the same message again as the next turn, and it is not recorded. -/
theorem repeated_message_lost :
    contents (recorded defaultPolicy [directTurn "retry" "failed",
      directTurn "retry" "done"]).cold =
        [(.user, "retry"), (.assistant, "failed"), (.assistant, "done")] ∧
      ¬ Faithful (recorded defaultPolicy [directTurn "retry" "failed",
        directTurn "retry" "done"]).cold
        [directTurn "retry" "failed", directTurn "retry" "done"] := by
  have hlog : contents
      (recorded defaultPolicy [directTurn "retry" "failed", directTurn "retry" "done"]).cold =
        [(.user, "retry"), (.assistant, "failed"), (.assistant, "done")] := by decide +kernel
  refine ⟨hlog, fun h => ?_⟩
  have hc := h.complete
  rw [hlog] at hc
  exact absurd hc (by decide)

end SessionConversation
