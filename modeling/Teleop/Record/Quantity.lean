import Teleop.Quantity.Basic
import Teleop.Record.Fields

/-!
# Quantities as records
-/

namespace Teleop.Quantity

def toJson (q : Quantity) : Json :=
  .ofMembers
    [("value", q.value.elim .null .ofBinary64),
     ("unit", q.unit.elim .null (.ofString ·.symbol))]

def ofJson? (j : Json) : Option Quantity := do
  let f ← Fields.ofJson? ["value", "unit"] j
  return {
    value := ← f.optional? "value" Json.asBinary64?
    unit := ← f.optional? "unit" (Json.asChoice? Json.isNull Measure.all Measure.symbol) }

end Teleop.Quantity
