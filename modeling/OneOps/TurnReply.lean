import OneOps.ExecutorWaveLoop
import OneOps.PythonText

/-! What the user is told of a plan that has run: each step's result is rendered as a short
text, and the texts are joined in plan order. A response of a policy rule is the whole answer,
and a text that two steps share is said once. -/
namespace TurnReply

open FulfillmentContracts
open ExecutorPlan
open ExecutorNodes
open ExecutorWaves
open ExecutorWaveLoop
open PythonText
open RowMerge

/-- `str` of a decoded value, and `str.lower`. -/
structure Wording where
  str : Json → String
  str_str : ∀ s, str (.str s) = s
  str_truthy : ∀ v, v.truthy = true → str v ≠ ""
  lower : String → String

def field (fields : JsonObject) (name : String) : Json :=
  ((fields.find? fun f => f.1 = name).map Prod.snd).getD .null

def firstField (fields : JsonObject) (names : List String) : Option Json :=
  names.findSome? fun name =>
    if (field fields name).truthy then some (field fields name) else none

/-- The text without surrounding space, unless it is blank. -/
def nonblank (s : String) : Option String := if strip s = "" then none else some (strip s)

def contains (needle text : String) : Bool := decide (needle.toList <:+: text.toList)

def parameterIds : List String :=
  ["ticket_id", "entity_id", "article_id", "kb_id", "incident_id", "request_id", "problem_id",
    "change_id", "asset_id", "ci_id"]

def outputIds : List String :=
  ["ticket_id", "entity_id", "article_id", "incident_id", "request_id", "problem_id", "change_id",
    "asset_id", "ci_id"]

def genericFailure : String := "I wasn't able to complete that request."

section

variable (T : Wording)

def extractEntityId (parameters : JsonObject) (r : StepResult) : String :=
  match firstField parameters parameterIds with
  | some v => T.str v
  | none =>
    match r.output with
    | .obj fields => ((firstField fields outputIds).map T.str).getD ""
    | _ => ""

def displayText (fields : JsonObject) : Option String :=
  match field fields "display_text" with
  | .str s => nonblank s
  | _ => none

def summaryText (fields : JsonObject) : Option String :=
  match field fields "summary" with
  | .obj inner =>
    nonblank (if (field inner "summary").truthy then T.str (field inner "summary") else "")
  | .str s => nonblank s
  | _ => none

def messageText (fields : JsonObject) : Option String :=
  match field fields "message" with
  | .str s => nonblank s
  | _ => none

def renderSuccessText (output : Json) : String :=
  match output with
  | .obj fields =>
    ((displayText fields).or ((summaryText T fields).or (messageText fields))).getD "Done."
  | _ => "Done."

def classifyFailureText (error entityId : String) : String :=
  let lowered := T.lower error
  if contains "hookerror" lowered || contains "authz_recheck" lowered ||
      contains "before-hook aborted" lowered then
    if entityId ≠ "" then "Your role doesn't allow you to read " ++ entityId ++ "."
    else "Your role doesn't allow that action."
  else if contains "llmgatewayerror" lowered || contains "llm call failed" lowered ||
      contains "llm_unavailable" lowered then
    "The summarisation service is temporarily unavailable. Please try again in a moment."
  else if contains "timed out" lowered || contains "timeout" lowered then
    "That request took too long to complete. Please try again."
  else if contains "not_found" lowered && entityId ≠ "" then
    "I couldn't find " ++ entityId ++ " in this tenant's records."
  else genericFailure

def friendlyStepResponse (parameters : JsonObject) (r : StepResult) : String :=
  match r.status with
  | .success => renderSuccessText T r.output
  | .blocked =>
    (nonblank (r.error.getD "")).getD
      "This step was skipped because a prerequisite did not complete."
  | _ => classifyFailureText T (r.error.getD "") (extractEntityId T parameters r)

end

/-- The response of a policy rule, or what a handler put in its place. -/
def cannedResponse (r : StepResult) : Option Json :=
  match r.output with
  | .obj fields =>
    if (field fields "canned_response").truthy then some (field fields "canned_response") else none
  | _ => none

/-- Texts that differ in white space only are one. -/
def wordsOf (text : String) : String := " ".intercalate (split text)

def parametersOf (plan : List Step) (stepId : String) : JsonObject :=
  ((plan.reverse.find? fun p => p.stepId = stepId).map Step.parameters).getD []

def parts (T : Wording) (rows : List StepResult) (plan : List Step) : List String :=
  ((rows.map fun r => friendlyStepResponse T (parametersOf plan r.stepId) r).filter (· ≠ "")).foldl
    (insertNew wordsOf) []

def unroutedNote (unrouted : List String) : String :=
  if unrouted = [] then ""
  else "\n\nI couldn't act on: " ++ "; ".intercalate (unrouted.map fun u => "\"" ++ u ++ "\"")

def composeResponse (T : Wording) (rows : List StepResult) (plan : List Step)
    (unrouted : List String) : String :=
  match rows.findSome? cannedResponse with
  | some canned => T.str canned
  | none =>
    let joined := "\n\n".intercalate (parts T rows plan)
    (if joined = "" then "Nothing to do." else joined) ++ unroutedNote unrouted

def aggregateResponse (T : Wording) (s : ExecutorState) (entityClarification : String) : String :=
  let response := composeResponse T (ordered s) (turnPlan s) s.unrouted
  if entityClarification = "" then response else response ++ "\n\n" ++ entityClarification

theorem nonblank_ne_empty {s t : String} (h : nonblank s = some t) : t ≠ "" := by
  unfold nonblank at h
  split at h
  · cases h
  · next hne =>
    obtain rfl := Option.some.inj h
    exact hne

section

variable {T : Wording}

theorem displayText_ne_empty {fields : JsonObject} {t : String} (h : displayText fields = some t) :
    t ≠ "" := by
  unfold displayText at h
  split at h
  · exact nonblank_ne_empty h
  · cases h

theorem summaryText_ne_empty {fields : JsonObject} {t : String}
    (h : summaryText T fields = some t) : t ≠ "" := by
  unfold summaryText at h
  split at h
  · exact nonblank_ne_empty h
  · exact nonblank_ne_empty h
  · cases h

theorem messageText_ne_empty {fields : JsonObject} {t : String} (h : messageText fields = some t) :
    t ≠ "" := by
  unfold messageText at h
  split at h
  · exact nonblank_ne_empty h
  · cases h

theorem renderSuccessText_ne_empty (output : Json) : renderSuccessText T output ≠ "" := by
  unfold renderSuccessText
  split
  · next fields =>
    cases hd : displayText fields with
    | some t => simpa using displayText_ne_empty hd
    | none =>
      cases hs : summaryText T fields with
      | some t => simpa using summaryText_ne_empty hs
      | none =>
        cases hm : messageText fields with
        | some t => simpa using messageText_ne_empty hm
        | none => decide
  · decide

theorem append_ne_empty {s t : String} (h : s ≠ "") : s ++ t ≠ "" := by
  intro he
  exact h (String.append_eq_empty_iff.mp he).1

theorem classifyFailureText_ne_empty (error entityId : String) :
    classifyFailureText T error entityId ≠ "" := by
  unfold classifyFailureText
  dsimp only
  split_ifs
  · exact append_ne_empty (append_ne_empty (by decide))
  · decide
  · decide
  · decide
  · exact append_ne_empty (append_ne_empty (by decide))
  · decide

theorem friendlyStepResponse_ne_empty (parameters : JsonObject) (r : StepResult) :
    friendlyStepResponse T parameters r ≠ "" := by
  unfold friendlyStepResponse
  cases r.status with
  | success => exact renderSuccessText_ne_empty _
  | blocked =>
    cases hn : nonblank (r.error.getD "") with
    | some t => simpa [hn] using nonblank_ne_empty hn
    | none => simp
  | failed => exact classifyFailureText_ne_empty _ _
  | denied => exact classifyFailureText_ne_empty _ _

theorem suffix_toList (s t : String) : t.toList <:+ (s ++ t).toList := by
  rw [String.toList_append]
  exact List.suffix_append _ _

theorem mem_join {sep part : String} {parts : List String} (h : part ∈ parts) :
    part.toList <:+: (sep.intercalate parts).toList := by
  rw [String.toList_intercalate]
  induction parts with
  | nil => cases h
  | cons a rest ih =>
    rcases List.mem_cons.mp h with rfl | hm
    · rw [List.map_cons]
      cases rest with
      | nil => simp
      | cons b rest =>
        rw [List.map_cons, List.intercalate_cons_cons, List.append_assoc]
        exact (List.prefix_append _ _).isInfix
    · rw [List.map_cons, List.intercalate_cons_of_ne_nil
        (by simpa using List.ne_nil_of_mem hm)]
      exact (ih hm).trans ⟨a.toList ++ sep.toList, [], by simp⟩

/-- Every row's text stands among the parts, up to white space. -/
theorem mem_parts {rows : List StepResult} (plan : List Step) {r : StepResult} (hr : r ∈ rows) :
    ∃ part ∈ parts T rows plan,
      wordsOf part = wordsOf (friendlyStepResponse T (parametersOf plan r.stepId) r) := by
  have hmem : friendlyStepResponse T (parametersOf plan r.stepId) r ∈
      (rows.map fun r => friendlyStepResponse T (parametersOf plan r.stepId) r).filter (· ≠ "") :=
    List.mem_filter.mpr ⟨List.mem_map.mpr ⟨r, hr, rfl⟩,
      decide_eq_true (friendlyStepResponse_ne_empty _ _)⟩
  have hkey : ∀ (texts acc : List String) (t : String), t ∈ texts →
      wordsOf t ∈ (texts.foldl (insertNew wordsOf) acc).map wordsOf := by
    intro texts
    induction texts with
    | nil => intro acc t h; cases h
    | cons a texts ih =>
      intro acc t h
      rw [List.foldl_cons]
      rcases List.mem_cons.mp h with rfl | h
      · have hnew : wordsOf t ∈ (insertNew wordsOf acc t).map wordsOf :=
          mem_keys_insertNew.mpr (.inr rfl)
        obtain ⟨x, hx, heq⟩ := List.mem_map.mp hnew
        exact List.mem_map.mpr ⟨x, mem_foldl_insertNew hx, heq⟩
      · exact ih _ t h
  exact List.mem_map.mp (hkey _ [] _ hmem)

theorem cannedResponse_truthy {r : StepResult} {v : Json} (h : cannedResponse r = some v) :
    v.truthy = true := by
  unfold cannedResponse at h
  split at h
  · split at h
    · next ht =>
      obtain rfl := Option.some.inj h
      exact ht
    · cases h
  · cases h

theorem composeResponse_ne_empty (rows : List StepResult) (plan : List Step)
    (unrouted : List String) : composeResponse T rows plan unrouted ≠ "" := by
  unfold composeResponse
  split
  · next v hv =>
    obtain ⟨r, -, hr⟩ := List.exists_of_findSome?_eq_some hv
    exact T.str_truthy v (cannedResponse_truthy hr)
  · apply append_ne_empty
    split
    · decide
    · next hne => exact hne

theorem unrouted_mentioned {unrouted : List String} {u : String} (h : u ∈ unrouted) :
    ("\"" ++ u ++ "\"").toList <:+: (unroutedNote unrouted).toList := by
  unfold unroutedNote
  rw [if_neg (List.ne_nil_of_mem h)]
  have hjoin : ("\"" ++ u ++ "\"").toList <:+:
      ("; ".intercalate (unrouted.map fun u => "\"" ++ u ++ "\"")).toList :=
    mem_join (List.mem_map.mpr ⟨u, h, rfl⟩)
  exact hjoin.trans (suffix_toList _ _).isInfix

theorem composeResponse_starts (s : ExecutorState) (entityClarification : String) :
    (composeResponse T (ordered s) (turnPlan s) s.unrouted).toList <+:
      (aggregateResponse T s entityClarification).toList := by
  unfold aggregateResponse
  dsimp only
  split
  · exact List.prefix_rfl
  · rw [String.toList_append, String.toList_append, List.append_assoc]
    exact List.prefix_append _ _

theorem aggregateResponse_ne_empty (s : ExecutorState) (entityClarification : String) :
    aggregateResponse T s entityClarification ≠ "" := by
  unfold aggregateResponse
  dsimp only
  split
  · exact composeResponse_ne_empty _ _ _
  · exact append_ne_empty (append_ne_empty (composeResponse_ne_empty _ _ _))

theorem parametersOf_eq {plan : List Step} (h : (plan.map Step.stepId).Nodup) {p : Step}
    (hp : p ∈ plan) : parametersOf plan p.stepId = p.parameters := by
  unfold parametersOf
  cases hf : plan.reverse.find? fun q => q.stepId = p.stepId with
  | none =>
    have hno := List.find?_eq_none.mp hf p (List.mem_reverse.mpr hp)
    simp at hno
  | some q =>
    have hq : q ∈ plan := List.mem_reverse.mp (List.mem_of_find?_eq_some hf)
    have hid : q.stepId = p.stepId := by simpa using List.find?_some hf
    rw [List.inj_on_of_nodup_map h hq hp hid]
    rfl

/-- The first canned response in plan order, at the head of the reply. -/
def AnswersCanned (T : Wording) (rows : List StepResult) (reply : String) : Prop :=
  ∃ before r after v, rows = before ++ r :: after ∧ cannedResponse r = some v ∧
    (∀ x ∈ before, cannedResponse x = none) ∧ (T.str v).toList <+: reply.toList

/-- The reply holds the text of every planned step's result, and names what was not routed. -/
structure AnswersPlan (T : Wording) (s : ExecutorState) (reply : String) : Prop where
  steps : ∀ p ∈ turnPlan s, ∃ r ∈ ordered s, r.stepId = p.stepId ∧ ∃ part,
    part.toList <:+: reply.toList ∧ wordsOf part = wordsOf (friendlyStepResponse T p.parameters r)
  unrouted : ∀ u ∈ s.unrouted, ("\"" ++ u ++ "\"").toList <:+: reply.toList

theorem answersCanned {s : ExecutorState} {reply : String} {v : Json}
    (h : (ordered s).findSome? cannedResponse = some v)
    (hpre : (composeResponse T (ordered s) (turnPlan s) s.unrouted).toList <+: reply.toList) :
    AnswersCanned T (ordered s) reply := by
  obtain ⟨before, r, after, heq, hr, hnone⟩ := List.findSome?_eq_some_iff.mp h
  refine ⟨before, r, after, v, heq, hr, hnone, ?_⟩
  rwa [composeResponse, h] at hpre

theorem answersPlan {s : ExecutorState} {reply : String}
    (hplan : ((turnPlan s).map Step.stepId).Nodup)
    (hids : (ordered s).map StepResult.stepId = (turnPlan s).map Step.stepId)
    (h : (ordered s).findSome? cannedResponse = none)
    (hpre : (composeResponse T (ordered s) (turnPlan s) s.unrouted).toList <+: reply.toList) :
    AnswersPlan T s reply := by
  have hcompose : composeResponse T (ordered s) (turnPlan s) s.unrouted =
      (if "\n\n".intercalate (parts T (ordered s) (turnPlan s)) = "" then "Nothing to do."
        else "\n\n".intercalate (parts T (ordered s) (turnPlan s))) ++ unroutedNote s.unrouted := by
    unfold composeResponse
    rw [h]
  rw [hcompose, String.toList_append] at hpre
  refine ⟨fun p hp => ?_, fun u hu => ?_⟩
  · obtain ⟨r, hr, hid⟩ := List.mem_map.mp (hids ▸ List.mem_map_of_mem hp)
    obtain ⟨part, hpart, hwords⟩ := mem_parts (T := T) (turnPlan s) hr
    refine ⟨r, hr, hid, part, ?_, ?_⟩
    · have hjoin : part.toList <:+:
          ("\n\n".intercalate (parts T (ordered s) (turnPlan s))).toList :=
        mem_join hpart
      split at hpre
      · next hempty =>
        rw [hempty] at hjoin
        have hnil : part.toList = [] := List.infix_nil.mp hjoin
        rw [hnil]
        exact List.nil_infix
      · exact hjoin.trans ((List.prefix_append _ _).trans hpre).isInfix
    · rw [hwords, hid, parametersOf_eq hplan hp]
  · exact ((unrouted_mentioned hu).trans (List.suffix_append _ _).isInfix).trans hpre.isInfix

end

/-- At every point of every run, a reply composed there is not empty; it opens with the first
canned response, or it holds the text of every planned step and every part that was not
routed. What was asked back about a malformed reference stands at its end. -/
theorem plan_answered (T : Wording) (S : ℕ → Services) (B : Budgets) (s : ExecutorState)
    (hs : Initial s) (entityClarification : String) (n : ℕ) :
    let st := (after S B s n).state
    let reply := aggregateResponse T st entityClarification
    reply ≠ "" ∧ entityClarification.toList <:+ reply.toList ∧
      (AnswersCanned T (ordered st) reply ∨
        (∀ r ∈ ordered st, cannedResponse r = none) ∧ AnswersPlan T st reply) := by
  intro st reply
  have hsound := sound_after (B := B) hs.startable S n
  refine ⟨aggregateResponse_ne_empty st entityClarification, ?_, ?_⟩
  · change _ <:+ (aggregateResponse T st entityClarification).toList
    unfold aggregateResponse
    dsimp only
    split
    · next he =>
      rw [he]
      exact List.nil_suffix
    · exact suffix_toList _ _
  · cases hc : (ordered st).findSome? cannedResponse with
    | some v => exact .inl (answersCanned hc (composeResponse_starts st entityClarification))
    | none =>
      refine .inr ⟨List.findSome?_eq_none_iff.mp hc, ?_⟩
      exact answersPlan
        ((hsound.plan_nodup hs.startable).sublist (List.filter_sublist.map _))
        (hsound.ordered_ids hs) hc (composeResponse_starts st entityClarification)

def plainWording : Wording where
  str
    | .str s => s
    | _ => "value"
  str_str _ := rfl
  str_truthy v h := by
    cases v with
    | str s => simpa [Json.truthy] using h
    | _ => simp
  lower := lowerAscii

/-- The first step failed, and the second one, which depends on it, ran all the same. -/
theorem plan_answered_pair :
    let st := (after (fun _ => failingServices) defaultBudgets orderedPair 2).state
    aggregateResponse plainWording st "" = "I wasn't able to complete that request.\n\nDone." ∧
      AnswersPlan plainWording st (aggregateResponse plainWording st "") := by
  intro st
  have hs : Initial orderedPair := ⟨by decide, rfl⟩
  have hreply : aggregateResponse plainWording st "" =
      "I wasn't able to complete that request.\n\nDone." := by decide +kernel
  obtain ⟨-, -, hanswer⟩ :=
    plan_answered plainWording (fun _ => failingServices) defaultBudgets orderedPair hs "" 2
  refine ⟨hreply, ?_⟩
  rcases hanswer with ⟨before, r, after, v, heq, hr, -⟩ | ⟨-, h⟩
  · have hnone : ((ordered st).all fun r => (cannedResponse r).isNone) = true := by decide +kernel
    have hmem : r ∈ ordered st := heq ▸ List.mem_append_right before List.mem_cons_self
    have hr' := List.all_eq_true.mp hnone r hmem
    rw [hr] at hr'
    cases hr'
  · exact h

end TurnReply