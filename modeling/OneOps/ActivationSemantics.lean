import OneOps.ActivationConditions
import OneOps.KleeneLogic

/-! What an activation condition means: the Kleene value of its tree, in which a node with
`negate` is the negation of what it is without. The evaluator agrees on leaves and on plain
groups. A verdict that it gives before the intents are classified is final. -/
namespace ActivationSemantics

open ActivationConditions
open KleeneLogic

inductive ConditionOperator where
  | allOf | anyOf | leaf
  deriving DecidableEq, Repr

def ConditionOperator.value : ConditionOperator → String
  | .allOf => "all_of"
  | .anyOf => "any_of"
  | .leaf => "leaf"

def signalValue : ConditionSignal → String
  | .intentIn => "intent_in"
  | .entityPresent => "entity_present"
  | .entityServiceIn => "entity_service_in"
  | .focusRequired => "focus_required"
  | .tenantCapability => "tenant_capability"
  | .roleIn => "role_in"

/-- A node with the fields of all kinds of nodes, as it is loaded. -/
inductive RawCondition where
  | mk (operator : ConditionOperator) (signal : Option ConditionSignal) (values : List String)
      (negate : Bool) (clauses : List RawCondition)

def membership : List ConditionSignal := [.intentIn, .entityServiceIn, .tenantCapability, .roleIn]

def checkLeaf (signal : Option ConditionSignal) (values : List String) (negate : Bool)
    (clauses : List ActivationCondition) : Except String ActivationCondition :=
  match signal with
  | none => .error "leaf condition requires a `signal`"
  | some sig =>
    if clauses ≠ [] then .error "leaf condition must not carry `clauses`"
    else if sig ∈ membership ∧ values = [] then
      .error ("signal " ++ signalValue sig ++ " requires non-empty `values`")
    else .ok (.leaf sig values negate)

/-- `negate` is not one of the fields that a group must not carry. -/
def checkGroup (name : String) (operator : GroupOperator) (signal : Option ConditionSignal)
    (values : List String) (negate : Bool) (clauses : List ActivationCondition) :
    Except String ActivationCondition :=
  if clauses = [] then .error (name ++ " condition requires `clauses`")
  else if signal ≠ none ∨ values ≠ [] then
    .error (name ++ " condition must not carry leaf fields")
  else .ok (.group operator clauses negate)

mutual

/-- The clauses are conditions themselves and are checked before the node. -/
def checkShape : RawCondition → Except String ActivationCondition
  | .mk operator signal values negate clauses => do
    let clauses ← checkShapes clauses
    match operator with
    | .leaf => checkLeaf signal values negate clauses
    | .allOf => checkGroup operator.value .allOf signal values negate clauses
    | .anyOf => checkGroup operator.value .anyOf signal values negate clauses

def checkShapes : List RawCondition → Except String (List ActivationCondition)
  | [] => .ok []
  | c :: clauses => do
    let c ← checkShape c
    let clauses ← checkShapes clauses
    .ok (c :: clauses)

end

def truth : Ternary → Truth
  | .pass => .yes
  | .fail => .no
  | .indeterminate => .unknown

def signalTruth (s : RequestSignals) (values : List String) : ConditionSignal → Truth
  | .intentIn =>
    match s.intents with
    | none => .unknown
    | some intents => KleeneLogic.ofBool (∃ v ∈ values, v ∈ intents)
  | .entityPresent => KleeneLogic.ofBool (s.presentEntities ≠ [])
  | .entityServiceIn =>
    KleeneLogic.ofBool (∃ e ∈ s.presentEntities, e.2 ≠ "" ∧ e.2 ∈ values)
  | .focusRequired => KleeneLogic.ofBool s.hasActiveFocus
  | .tenantCapability => KleeneLogic.ofBool (∃ v ∈ values, v ∈ s.tenantCapabilities)
  | .roleIn => KleeneLogic.ofBool (s.role ∈ values)

def connective : GroupOperator → List Truth → Truth
  | .allOf => all
  | .anyOf => any

def negateIf (negate : Bool) (v : Truth) : Truth := if negate then neg v else v

mutual

def denote (s : RequestSignals) : ActivationCondition → Truth
  | .leaf signal values negate => negateIf negate (signalTruth s values signal)
  | .group operator clauses negate => negateIf negate (connective operator (denoteAll s clauses))

def denoteAll (s : RequestSignals) : List ActivationCondition → List Truth
  | [] => []
  | c :: clauses => denote s c :: denoteAll s clauses

end

theorem denoteAll_eq (s : RequestSignals) (clauses : List ActivationCondition) :
    denoteAll s clauses = clauses.map (denote s) := by
  induction clauses with
  | nil => rw [denoteAll, List.map_nil]
  | cons c clauses ih => rw [denoteAll, ih, List.map_cons]

theorem evaluateAll_eq (s : RequestSignals) (clauses : List ActivationCondition) :
    evaluateAll s clauses = clauses.map (evaluate s) := by
  induction clauses with
  | nil => rw [evaluateAll, List.map_nil]
  | cons c clauses ih => rw [evaluateAll, ih, List.map_cons]

theorem truth_injective : Function.Injective truth := by
  intro u v h
  revert h
  cases u <;> cases v <;> decide

theorem truth_flip (v : Ternary) : truth (flip v) = neg (truth v) := by cases v <;> rfl

theorem truth_ofBool (b : Bool) : truth (ActivationConditions.ofBool b) = KleeneLogic.ofBool b := by
  cases b <;> rfl

theorem truth_evalLeaf (signal : ConditionSignal) (values : List String) (negate : Bool)
    (s : RequestSignals) :
    truth (evalLeaf signal values negate s) = negateIf negate (signalTruth s values signal) := by
  have hverdict : ∀ b : Bool,
      truth (if negate then flip (ActivationConditions.ofBool b)
        else ActivationConditions.ofBool b) =
        negateIf negate (KleeneLogic.ofBool b) := by
    intro b
    cases negate with
    | true => exact (truth_flip _).trans (congrArg neg (truth_ofBool b))
    | false => exact truth_ofBool b
  have hsame : ∀ b b' : Bool, (b = true ↔ b' = true) →
      negateIf negate (KleeneLogic.ofBool b) = negateIf negate (KleeneLogic.ofBool b') := by
    intro b b' h
    rw [Bool.eq_iff_iff.mpr h]
  cases signal with
  | intentIn =>
    cases hi : s.intents with
    | none => cases negate <;> simp [evalLeaf, signalTruth, negateIf, hi, truth, neg]
    | some intents =>
      simp only [evalLeaf, signalTruth, hi, hverdict]
      exact hsame _ _ (by simp)
  | entityPresent =>
    simp only [evalLeaf, signalTruth, hverdict]
    exact hsame _ _ (by simp [hasEntity, List.length_pos_iff])
  | entityServiceIn =>
    simp only [evalLeaf, signalTruth, hverdict]
    refine hsame _ _ ?_
    simp only [entityServices, List.any_eq_true, decide_eq_true_eq, List.mem_filter, List.mem_map]
    grind
  | focusRequired => simp only [evalLeaf, signalTruth, hverdict]
  | tenantCapability =>
    simp only [evalLeaf, signalTruth, hverdict]
    exact hsame _ _ (by simp)
  | roleIn => simp only [evalLeaf, signalTruth, hverdict]

theorem truth_combine (operator : GroupOperator) (results : List Ternary) :
    truth (combine operator results) = connective operator (results.map truth) := by
  have hmem : ∀ v, truth v ∈ results.map truth ↔ v ∈ results := fun v =>
    List.mem_map_of_injective truth_injective
  have hno : Truth.no ∈ results.map truth ↔ .fail ∈ results := hmem .fail
  have hyes : Truth.yes ∈ results.map truth ↔ .pass ∈ results := hmem .pass
  have hunknown : Truth.unknown ∈ results.map truth ↔ .indeterminate ∈ results :=
    hmem .indeterminate
  cases operator with
  | allOf =>
    simp only [combine, connective]
    split_ifs with hf hi
    · exact (all_eq_no.mpr (hno.mpr hf)).symm
    · have h₁ : all (results.map truth) ≠ .no := fun h => hf (hno.mp (all_eq_no.mp h))
      have h₂ : all (results.map truth) ≠ .yes := fun h => by
        have := all_eq_yes.mp h _ (hunknown.mpr hi)
        cases this
      revert h₁ h₂
      cases all (results.map truth) <;> simp [truth]
    · refine (all_eq_yes.mpr fun v hv => ?_).symm
      cases v with
      | yes => rfl
      | no => exact absurd (hno.mp hv) hf
      | unknown => exact absurd (hunknown.mp hv) hi
  | anyOf =>
    simp only [combine, connective]
    split_ifs with hp hi
    · exact (any_eq_yes.mpr (hyes.mpr hp)).symm
    · have h₁ : any (results.map truth) ≠ .yes := fun h => hp (hyes.mp (any_eq_yes.mp h))
      have h₂ : any (results.map truth) ≠ .no := fun h => by
        have := any_eq_no.mp h _ (hunknown.mpr hi)
        cases this
      revert h₁ h₂
      cases any (results.map truth) <;> simp [truth]
    · refine (any_eq_no.mpr fun v hv => ?_).symm
      cases v with
      | no => rfl
      | yes => exact absurd (hyes.mp hv) hp
      | unknown => exact absurd (hunknown.mp hv) hi

/-- The evaluator gives a group the value of its connective, negated or not. -/
theorem truth_evaluate_group (s : RequestSignals) (operator : GroupOperator)
    (clauses : List ActivationCondition) (negate : Bool) :
    truth (evaluate s (.group operator clauses negate)) =
      connective operator (clauses.map fun c => truth (evaluate s c)) := by
  rw [evaluate, truth_combine, evaluateAll_eq, List.map_map]
  rfl

theorem truth_evaluate_leaf (s : RequestSignals) (signal : ConditionSignal) (values : List String)
    (negate : Bool) : truth (evaluate s (.leaf signal values negate)) =
      negateIf negate (signalTruth s values signal) := by
  rw [evaluate, truth_evalLeaf]

def withIntents (s : RequestSignals) (intents : Finset String) : RequestSignals :=
  { s with intents := some intents }

section Intents

variable {s : RequestSignals} {intents : Finset String}

theorem negateIf_refines {u v : Truth} (h : Refines u v) (negate : Bool) :
    Refines (negateIf negate u) (negateIf negate v) := by
  cases negate with
  | true => exact h.neg
  | false => exact h

theorem connective_refines {us vs : List Truth} (h : List.Forall₂ Refines us vs)
    (operator : GroupOperator) : Refines (connective operator us) (connective operator vs) := by
  cases operator with
  | allOf => exact .all h
  | anyOf => exact .any h

theorem connective_known {vs : List Truth} (h : ∀ v ∈ vs, v ≠ .unknown)
    (operator : GroupOperator) : connective operator vs ≠ .unknown := by
  cases operator with
  | allOf => exact all_known h
  | anyOf => exact any_known h

theorem signalTruth_refines (hs : s.intents = none) (values : List String)
    (signal : ConditionSignal) :
    Refines (signalTruth s values signal) (signalTruth (withIntents s intents) values signal) := by
  cases signal with
  | intentIn => exact .inl (by simp [signalTruth, hs])
  | _ => exact .refl _

theorem signalTruth_known (s : RequestSignals) (values : List String) (signal : ConditionSignal) :
    signalTruth (withIntents s intents) values signal ≠ .unknown := by
  have hb : ∀ b, KleeneLogic.ofBool b ≠ .unknown := by decide
  cases signal <;> exact hb _

mutual

/-- Knowing the intents adds to a verdict and does not change it. -/
theorem evaluate_refines (hs : s.intents = none) : ∀ c : ActivationCondition,
    Refines (truth (evaluate s c)) (truth (evaluate (withIntents s intents) c))
  | .leaf signal values negate => by
    rw [truth_evaluate_leaf, truth_evaluate_leaf]
    exact negateIf_refines (signalTruth_refines hs values signal) negate
  | .group operator clauses negate => by
    rw [truth_evaluate_group, truth_evaluate_group]
    exact connective_refines (evaluate_refines_all hs clauses) operator

theorem evaluate_refines_all (hs : s.intents = none) : ∀ clauses : List ActivationCondition,
    List.Forall₂ Refines (clauses.map fun c => truth (evaluate s c))
      (clauses.map fun c => truth (evaluate (withIntents s intents) c))
  | [] => .nil
  | c :: clauses => .cons (evaluate_refines hs c) (evaluate_refines_all hs clauses)

end

mutual

theorem evaluate_known (s : RequestSignals) : ∀ c : ActivationCondition,
    truth (evaluate (withIntents s intents) c) ≠ .unknown
  | .leaf signal values negate => by
    rw [truth_evaluate_leaf]
    have h := @signalTruth_known intents s values signal
    revert h
    cases negate <;> cases signalTruth (withIntents s intents) values signal <;> decide
  | .group operator clauses negate => by
    rw [truth_evaluate_group]
    apply connective_known
    intro v hv
    obtain ⟨c, hc, rfl⟩ := List.mem_map.mp hv
    exact evaluate_known_all s clauses c hc

theorem evaluate_known_all (s : RequestSignals) : ∀ clauses : List ActivationCondition,
    ∀ c ∈ clauses, truth (evaluate (withIntents s intents) c) ≠ .unknown
  | [] => fun _ hc => by cases hc
  | c :: clauses => fun d hd => by
    rcases List.mem_cons.mp hd with h | h
    · rw [h]
      exact evaluate_known s c
    · exact evaluate_known_all s clauses d h

end

theorem evaluate_final (hs : s.intents = none) {c : ActivationCondition}
    (h : evaluate s c ≠ .indeterminate) : evaluate (withIntents s intents) c = evaluate s c := by
  rcases @evaluate_refines s intents hs c with hu | he
  · exact absurd (truth_injective (show truth _ = truth .indeterminate from hu)) h
  · exact (truth_injective he).symm

end Intents

/-- For every condition and every request whose intents are not classified yet: a definite
verdict is the one for every set of intents, an indeterminate one becomes definite, and so
an agent that the filter drops would be dropped whatever the intents are. -/
theorem filter_keeps_viable (c : ActivationCondition) (s : RequestSignals)
    (hs : s.intents = none) :
    (evaluate s c = .pass → ∀ intents, evaluate (withIntents s intents) c = .pass) ∧
    (evaluate s c = .fail → ∀ intents, evaluate (withIntents s intents) c = .fail) ∧
    (evaluate s c = .indeterminate → ∀ intents,
      evaluate (withIntents s intents) c = .pass ∨ evaluate (withIntents s intents) c = .fail) ∧
    (survivesFilter c s = false → ∀ intents,
      survivesFilter c (withIntents s intents) = false) := by
  have hfinal : ∀ v, v ≠ Ternary.indeterminate → evaluate s c = v →
      ∀ intents, evaluate (withIntents s intents) c = v := by
    intro v hv he intents
    rw [evaluate_final hs (he ▸ hv), he]
  refine ⟨hfinal .pass (by decide), hfinal .fail (by decide), ?_, ?_⟩
  · intro _ intents
    have hknown := @evaluate_known intents s c
    revert hknown
    cases evaluate (withIntents s intents) c <;> decide
  · intro hdrop intents
    have hfail : evaluate s c = .fail := by simpa [survivesFilter] using hdrop
    simp [survivesFilter, hfinal .fail (by decide) hfail intents]

def askedSignals : RequestSignals := ⟨"end_user", "t", [], ∅, true, none⟩

def summaryOrFocus : ActivationCondition :=
  .group .anyOf [.leaf .intentIn ["summary"] true, .leaf .focusRequired [] false] false

theorem summaryOrFocus_viable : askedSignals.intents = none ∧
    evaluate askedSignals summaryOrFocus = .pass ∧
    ∀ intents, evaluate (withIntents askedSignals intents) summaryOrFocus = .pass :=
  ⟨rfl, by decide, (filter_keeps_viable summaryOrFocus askedSignals rfl).1 (by decide)⟩

/-- `Node d c`: `d` is `c` or stands somewhere in it. -/
inductive Node : ActivationCondition → ActivationCondition → Prop where
  | self (c : ActivationCondition) : Node c c
  | clause {d c : ActivationCondition} {operator : GroupOperator}
      {clauses : List ActivationCondition} {negate : Bool} (hc : c ∈ clauses) (hd : Node d c) :
      Node d (.group operator clauses negate)

def IsNegatedGroup : ActivationCondition → Prop
  | .leaf _ _ _ => False
  | .group _ _ negate => negate = true

def dual : GroupOperator → GroupOperator
  | .allOf => .anyOf
  | .anyOf => .allOf

def negated : ActivationCondition → ActivationCondition
  | .leaf signal values negate => .leaf signal values !negate
  | .group operator clauses negate => .group operator clauses !negate

def IsLeaf : ActivationCondition → Prop
  | .leaf _ _ _ => True
  | .group _ _ _ => False

theorem neg_connective (operator : GroupOperator) (vs : List Truth) :
    neg (connective operator vs) = connective (dual operator) (vs.map neg) := by
  cases operator with
  | allOf => exact neg_all vs
  | anyOf => exact neg_any vs

theorem negateIf_not (negate : Bool) (v : Truth) :
    negateIf (!negate) v = neg (negateIf negate v) := by
  cases negate <;> simp [negateIf]

theorem denote_group (s : RequestSignals) (operator : GroupOperator)
    (clauses : List ActivationCondition) (negate : Bool) :
    denote s (.group operator clauses negate) =
      negateIf negate (connective operator (clauses.map (denote s))) := by
  rw [denote, denoteAll_eq]

theorem denote_negated (s : RequestSignals) (c : ActivationCondition) :
    denote s (negated c) = neg (denote s c) := by
  cases c with
  | leaf signal values negate => simp only [negated, denote, negateIf_not]
  | group operator clauses negate => simp only [negated, denote_group, negateIf_not]

theorem denote_deMorgan (s : RequestSignals) (operator : GroupOperator)
    (clauses : List ActivationCondition) :
    denote s (.group operator clauses true) =
      denote s (.group (dual operator) (clauses.map negated) false) := by
  rw [denote_group, denote_group, List.map_map]
  have hneg : (denote s ∘ negated) = neg ∘ denote s := funext fun c => denote_negated s c
  rw [hneg, ← List.map_map]
  exact neg_connective operator _

mutual

/-- Where no group is negated, the evaluator computes the meaning. -/
theorem evaluate_denotes (s : RequestSignals) : ∀ c : ActivationCondition,
    (∀ d, Node d c → ¬ IsNegatedGroup d) → truth (evaluate s c) = denote s c
  | .leaf signal values negate => fun _ => by rw [truth_evaluate_leaf, denote]
  | .group operator clauses negate => fun h => by
    have hplain : negate = false := by simpa [IsNegatedGroup] using h _ (.self _)
    rw [truth_evaluate_group, denote_group, hplain,
      evaluate_denotes_all s clauses fun c hc d hd => h d (.clause hc hd)]
    rfl

theorem evaluate_denotes_all (s : RequestSignals) : ∀ clauses : List ActivationCondition,
    (∀ c ∈ clauses, ∀ d, Node d c → ¬ IsNegatedGroup d) →
      (clauses.map fun c => truth (evaluate s c)) = clauses.map (denote s)
  | [] => fun _ => rfl
  | c :: clauses => fun h => by
    rw [List.map_cons, List.map_cons, evaluate_denotes s c (h c List.mem_cons_self),
      evaluate_denotes_all s clauses fun d hd => h d (List.mem_cons_of_mem _ hd)]

end

theorem Node.trans {b c d : ActivationCondition} (h : Node b c) (h' : Node c d) : Node b d := by
  induction h' with
  | self => exact h
  | clause hc _ ih => exact .clause hc ih

/-- The evaluator does not see that a group is negated. -/
theorem negatedGroup_misread {s : RequestSignals} {operator : GroupOperator}
    {clauses : List ActivationCondition}
    (h : ∀ c ∈ clauses, truth (evaluate s c) = denote s c) :
    truth (evaluate s (.group operator clauses true)) = denote s (.group operator clauses true) ↔
      denote s (.group operator clauses false) = .unknown := by
  have hmap : (clauses.map fun c => truth (evaluate s c)) = clauses.map (denote s) :=
    List.map_congr_left h
  rw [truth_evaluate_group, denote_group, denote_group, hmap]
  simp only [negateIf, if_true, Bool.false_eq_true, if_false]
  rw [eq_comm]
  exact neg_eq_self

theorem leaf_denotes (s : RequestSignals) {c : ActivationCondition} (h : IsLeaf c) :
    truth (evaluate s c) = denote s c := by
  cases c with
  | leaf signal values negate => rw [truth_evaluate_leaf, denote]
  | group operator clauses negate => exact h.elim

/-- For every condition: each of its nodes means what it evaluates to, for every request,
exactly if none of its groups is negated. Over leaves, De Morgan's law holds of the
evaluator at a request exactly if the group is indeterminate there. -/
theorem evaluate_denotes_iff (c : ActivationCondition) :
    ((∀ d, Node d c → ∀ s, truth (evaluate s d) = denote s d) ↔
      ∀ d, Node d c → ¬ IsNegatedGroup d) ∧
    ∀ operator clauses, (∀ d ∈ clauses, IsLeaf d) →
      ∀ s, evaluate s (.group operator clauses true) =
          evaluate s (.group (dual operator) (clauses.map negated) false) ↔
        denote s (.group operator clauses false) = .unknown := by
  constructor
  · constructor
    · intro h d hd hneg
      cases d with
      | leaf signal values negate => exact hneg
      | group operator clauses negate =>
        obtain rfl : negate = true := hneg
        -- a request with classified intents settles every group
        let s : RequestSignals := withIntents ⟨"", "", [], ∅, false, none⟩ ∅
        have hclauses : ∀ x ∈ clauses, truth (evaluate s x) = denote s x := fun x hx =>
          h x ((Node.clause hx (.self x)).trans hd) s
        have hunknown := (negatedGroup_misread hclauses).mp (h _ hd s)
        have hsame : truth (evaluate s (.group operator clauses false)) =
            denote s (.group operator clauses false) := by
          rw [truth_evaluate_group, denote_group, List.map_congr_left hclauses]
          rfl
        exact evaluate_known _ _ (hsame.trans hunknown)
    · intro h d hd s
      exact evaluate_denotes s d fun x hx => h x (hx.trans hd)
  · intro operator clauses hleaf s
    have hdual : truth (evaluate s (.group (dual operator) (clauses.map negated) false)) =
        denote s (.group (dual operator) (clauses.map negated) false) := by
      apply evaluate_denotes
      intro d hd
      cases hd with
      | self => simp [IsNegatedGroup]
      | clause hx hd =>
        obtain ⟨y, hy, rfl⟩ := List.mem_map.mp hx
        have := hleaf y hy
        cases y with
        | leaf signal values negate =>
          cases hd
          exact id
        | group op cs negate => exact this.elim
    rw [← negatedGroup_misread fun x hx => leaf_denotes s (hleaf x hx), denote_deMorgan, ← hdual]
    exact ⟨fun h => by rw [h], fun h => truth_injective h⟩

/-- An agent for everything but incidents that are in focus, with the group negated. -/
def notFocusedIncident : RawCondition :=
  .mk .allOf none [] true
    [.mk .leaf (some .entityServiceIn) ["incident"] false [],
      .mk .leaf (some .focusRequired) [] false []]

def notFocusedIncidentTree : ActivationCondition :=
  .group .allOf [.leaf .entityServiceIn ["incident"] false, .leaf .focusRequired [] false] true

def focusedIncident : RequestSignals :=
  ⟨"end_user", "t", [("INC0048213", "incident")], ∅, true, none⟩

theorem negatedGroup_passes :
    checkShape notFocusedIncident = .ok notFocusedIncidentTree ∧
    evaluate focusedIncident notFocusedIncidentTree = .pass ∧
    denote focusedIncident notFocusedIncidentTree = .no ∧
    truth (evaluate focusedIncident notFocusedIncidentTree) ≠
      denote focusedIncident notFocusedIncidentTree ∧
    evaluate focusedIncident notFocusedIncidentTree ≠
      evaluate focusedIncident (.group .anyOf
        [.leaf .entityServiceIn ["incident"] true, .leaf .focusRequired [] true] false) := by
  refine ⟨rfl, ?_, ?_, ?_, ?_⟩ <;> decide

end ActivationSemantics
