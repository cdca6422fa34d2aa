import Teleop.Context
import Teleop.Record.Fields

/-!
# Contexts as records
-/

namespace Teleop

def Context.fieldNames : List String :=
  ["last_direction", "last_speed_percent", "last_heading_deg", "last_turn_style"]

def Context.members (c : Context) : List (String × Json) :=
  [("last_direction", c.lastDirection.elim .null (.ofString ·.name)),
   ("last_speed_percent", .ofBinary64 c.lastSpeedPercent),
   ("last_heading_deg", .ofBinary64 c.lastHeadingDegrees),
   ("last_turn_style", .ofString c.lastTurnStyle.name)]

def Context.toJson (c : Context) : Json :=
  .ofMembers c.members

def Context.ofJson? (j : Json) : Option Context := do
  let f ← Fields.ofJson? fieldNames j
  return {
    lastDirection :=
      ← f.optional? "last_direction" (Json.asChoice? Json.isNull Direction.all Direction.name)
    lastSpeedPercent := ← f.required? "last_speed_percent" Json.asBinary64?
    lastHeadingDegrees := ← f.required? "last_heading_deg" Json.asBinary64?
    lastTurnStyle :=
      ← f.required? "last_turn_style" (Json.asChoice? Json.isNull TurnStyle.all TurnStyle.name) }

end Teleop
