import Teleop.Numeric.Decimal

/-!
# Decimals with a fixed number of places

A magnitude is rounded once, to a whole number of units of the last place; of two equally near ones the
even one is taken.
-/

namespace Teleop.Numeric.Binary

variable {f : Format}

/-- The decimal with some number of places that is nearest to a magnitude. -/
def fixedMagnitude (f : Format) (places quanta : Nat) : Decimal :=
  ⟨nearestEven (quanta * 10 ^ places) (2 ^ f.unitShift), -places⟩

/-- The text of a value with some number of decimal places. -/
def fixed (places : Nat) : Binary f → List Char
  | nan => ['N', 'a', 'N']
  | infinite s => if s then ['-', 'i', 'n', 'f'] else ['i', 'n', 'f']
  | finite s q _ =>
    let digits := (fixedMagnitude f places q).positional
    if s then '-' :: digits else digits

end Teleop.Numeric.Binary
