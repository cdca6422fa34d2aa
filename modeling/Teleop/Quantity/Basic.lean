import Teleop.Numeric.Arithmetic
import Teleop.Quantity.Measure

/-!
# Quantities

A quantity is a number with a unit, where either may be missing. It is a duration, a distance or an
angle only if its unit says so.
-/

namespace Teleop

open Numeric

abbrev Millis := UInt64

structure Quantity where
  value : Option Binary64
  unit : Option Measure
deriving DecidableEq

namespace Quantity

def none : Quantity :=
  ⟨.none, .none⟩

/-- A number of seconds as whole milliseconds: a half goes up, and what lies outside the range of
milliseconds goes to its nearest end. -/
def millisOfSeconds (seconds : Binary64) : Millis :=
  .ofNat ((seconds * 1000).toNatWithin (UInt64.size - 1))

def asMillis? (q : Quantity) : Option Millis := do
  let value ← q.value
  match ← q.unit with
  | .seconds => some (millisOfSeconds value)
  | .minutes => some (millisOfSeconds (value * 60))
  | _ => .none

def asMeters? (q : Quantity) : Option Binary64 := do
  let value ← q.value
  match ← q.unit with
  | .meters => some value
  | .centimeters => some (value / 100)
  | _ => .none

def asDegrees? (q : Quantity) : Option Binary64 :=
  if q.unit = some .degrees then q.value else .none

end Quantity

end Teleop
