import Mathlib.Data.Rat.Floor
import Mathlib.Tactic.Common

/-! Python's floats by their values: a rational number, an infinity or no number. -/
namespace PythonFloat

inductive PyFloat where
  | finite (q : ℚ)
  | infinite (negative : Bool)
  | nan
  deriving DecidableEq

def PyFloat.le : PyFloat → PyFloat → Bool
  | .finite p, .finite q => p ≤ q
  | .infinite true, .finite _ => true
  | .finite _, .infinite negative => !negative
  | .infinite a, .infinite b => a || !b
  | _, _ => false

def roundHalfEven (q : ℚ) : ℤ :=
  let below := ⌊q⌋
  if q - below < 1 / 2 then below
  else if 1 / 2 < q - below then below + 1
  else if below % 2 = 0 then below
  else below + 1

/-- Integers that `float` refuses: from the middle between the largest float and the next power
of two on. -/
def TooLarge (n : ℤ) : Prop := 2 ^ 1024 - 2 ^ 970 ≤ n.natAbs

instance : DecidablePred TooLarge := fun n => inferInstanceAs (Decidable (_ ≤ n.natAbs))

end PythonFloat
