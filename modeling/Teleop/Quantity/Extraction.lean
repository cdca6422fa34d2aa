import Teleop.Quantity.Mention

/-!
# The quantity of a clause

A percentage takes precedence over everything else in a clause and is brought into its range. Failing
that, the first numeral with a unit is the quantity, and failing that the first numeral by itself.
-/

namespace Teleop.Quantity

open Numeric Text

def clampPercent (value : Binary64) : Binary64 :=
  value.clamp 0 100

/-- The quantity of the first percentage in a text. -/
def percentage? (text : List Char) : Option Quantity := do
  let mention ← (scan Mention.percentMention text).findSome? Piece.value?
  let value ← mention.value?
  return ⟨some (clampPercent value), some .percent⟩

/-- The numerals of a text that have a value, with it. -/
def readings (text : List Char) : List (Mention × Binary64) :=
  (scan Mention.mention text).filterMap fun piece => do
    let mention ← piece.value?
    return (mention, ← mention.value?)

/-- The first numeral with a unit. -/
def measured? (readings : List (Mention × Binary64)) : Option Quantity :=
  readings.findSome? fun (mention, value) =>
    mention.unit?.map fun unit => ⟨some value, some unit⟩

/-- The first numeral that counts without a unit. -/
def bare (readings : List (Mention × Binary64)) : Quantity :=
  ⟨(readings.find? (!·.1.needsUnit)).map (·.2), .none⟩

def extract (text : String) : Quantity :=
  let chars := text.toList
  (percentage? chars).getD ((measured? (readings chars)).getD (bare (readings chars)))

end Teleop.Quantity
