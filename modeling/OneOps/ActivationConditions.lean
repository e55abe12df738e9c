import Mathlib.Data.Finset.Insert
import Mathlib.Data.String.Basic

/-! The activation condition of an agent: a tree of deterministic signals with a value of
three. What a request does not know yet is indeterminate, and only a definite failure drops
an agent before the model has classified the intent. -/
namespace ActivationConditions

inductive ConditionSignal where
  | intentIn | entityPresent | entityServiceIn | focusRequired | tenantCapability | roleIn
  deriving DecidableEq, Repr

inductive GroupOperator where
  | allOf | anyOf
  deriving DecidableEq, Repr

/-- A leaf has a signal and its values, a group has clauses; `negate` is on both. -/
inductive ActivationCondition where
  | leaf (signal : ConditionSignal) (values : List String) (negate : Bool)
  | group (operator : GroupOperator) (clauses : List ActivationCondition) (negate : Bool)

inductive Ternary where
  | pass | fail | indeterminate
  deriving DecidableEq, Repr

/-- The facts about one request; intents are `none` until they have been classified. -/
structure RequestSignals where
  role : String
  tenantId : String
  presentEntities : List (String × String)
  tenantCapabilities : Finset String
  hasActiveFocus : Bool
  intents : Option (Finset String)
  deriving DecidableEq

def entityServices (s : RequestSignals) : List String :=
  (s.presentEntities.map Prod.snd).filter fun svc => svc ≠ ""

def hasEntity (s : RequestSignals) : Bool := 0 < s.presentEntities.length

def flip : Ternary → Ternary
  | .pass => .fail
  | .fail => .pass
  | .indeterminate => .indeterminate

def ofBool (passed : Bool) : Ternary := if passed then .pass else .fail

/-- An unclassified intent is indeterminate whatever `negate` says. -/
def evalLeaf (signal : ConditionSignal) (values : List String) (negate : Bool)
    (s : RequestSignals) : Ternary :=
  let verdict (result : Ternary) : Ternary := if negate then flip result else result
  match signal with
  | .intentIn =>
    match s.intents with
    | none => .indeterminate
    | some intents => verdict (ofBool (values.any fun v => v ∈ intents))
  | .entityPresent => verdict (ofBool (hasEntity s))
  | .entityServiceIn => verdict (ofBool (values.any fun v => v ∈ entityServices s))
  | .focusRequired => verdict (ofBool s.hasActiveFocus)
  | .tenantCapability => verdict (ofBool (values.any fun v => v ∈ s.tenantCapabilities))
  | .roleIn => verdict (ofBool (s.role ∈ values))

def combine : GroupOperator → List Ternary → Ternary
  | .allOf, results =>
    if .fail ∈ results then .fail
    else if .indeterminate ∈ results then .indeterminate
    else .pass
  | .anyOf, results =>
    if .pass ∈ results then .pass
    else if .indeterminate ∈ results then .indeterminate
    else .fail

mutual

def evaluate (s : RequestSignals) : ActivationCondition → Ternary
  | .leaf signal values negate => evalLeaf signal values negate s
  | .group operator clauses _ => combine operator (evaluateAll s clauses)

def evaluateAll (s : RequestSignals) : List ActivationCondition → List Ternary
  | [] => []
  | c :: clauses => evaluate s c :: evaluateAll s clauses

end

def survivesFilter (c : ActivationCondition) (s : RequestSignals) : Bool := evaluate s c ≠ .fail

end ActivationConditions
