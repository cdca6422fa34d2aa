import Teleop.Command.Basic
import Teleop.Record.Fields

/-!
# Descriptors as records

A descriptor is one object: the kind of its command, the fields of that kind, the confidence and the
source text. The kind may also be given by its place in the list of kinds. The members that belong to
the command are gathered before the kind is known, so each of them must have a meaning and may be
nested only so deep, whether the command needs it or not.
-/

namespace Teleop

open Numeric

inductive CommandKind where
  | safety
  | move
  | turn
  | rotate
  | speed
  | camera
  | siren
  | lights
  | spray
  | taser
  | wait
  | unknown
deriving DecidableEq, Repr

namespace CommandKind

def name : CommandKind → String
  | safety => "safety"
  | move => "move"
  | turn => "turn"
  | rotate => "rotate"
  | speed => "speed"
  | camera => "camera"
  | siren => "siren"
  | lights => "lights"
  | spray => "spray"
  | taser => "taser"
  | wait => "wait"
  | unknown => "unknown"

def all : List CommandKind :=
  [safety, move, turn, rotate, speed, camera, siren, lights, spray, taser, wait, unknown]

def fieldNames : CommandKind → List String
  | safety | camera => ["action"]
  | move => ["direction", "style", "distance_meters", "duration_ms", "relative"]
  | turn => ["direction", "style"]
  | rotate => ["direction", "degrees", "relative"]
  | speed => ["percent"]
  | wait => ["ms"]
  | siren | lights | spray | taser | unknown => []

end CommandKind

namespace Command

def kind : Command → CommandKind
  | emergencyStop => .safety
  | move _ => .move
  | turn _ _ => .turn
  | rotate _ => .rotate
  | speed _ => .speed
  | camera _ => .camera
  | siren => .siren
  | lights => .lights
  | spray => .spray
  | taser => .taser
  | wait _ => .wait
  | unknown => .unknown

end Command

namespace CameraAction

def toJson : CameraAction → Json
  | photo => .ofString "photo"
  | record => .ofString "record"
  | zoom value => .ofMembers [("zoom", .ofMembers [("value", .ofBinary64 value)])]

end CameraAction

namespace Command

/-- The name of the only safety action. -/
def safetyAction : String := "emergency_stop"

def fieldMembers : Command → List (String × Json)
  | emergencyStop => [("action", .ofString safetyAction)]
  | move m =>
    [("direction", .ofString m.direction.name),
     ("style", m.style.elim .null (.ofString ·.name)),
     ("distance_meters", m.distance.elim .null .ofBinary64),
     ("duration_ms", m.duration.elim .null (.ofNat ·.toNat)),
     ("relative", .bool m.relative)]
  | turn side style => [("direction", .ofString side.name), ("style", .ofString style.name)]
  | rotate r =>
    [("direction", .ofString r.spin.name), ("degrees", .ofBinary64 r.degrees),
     ("relative", .bool r.relative)]
  | speed percent => [("percent", .ofBinary64 percent)]
  | camera action => [("action", action.toJson)]
  | wait t => [("ms", .ofNat t.toNat)]
  | siren | lights | spray | taser | unknown => []

/-- The members of a command, its kind first. -/
def members (c : Command) : List (String × Json) :=
  ("kind", .ofString c.kind.name) :: c.fieldMembers

def toJson (c : Command) : Json :=
  .ofMembers c.members

end Command

namespace Descriptor

def toJson (d : Descriptor) : Json :=
  .ofMembers (d.command.members ++
    [("confidence", .ofBinary32 d.confidence), ("raw", .ofString d.raw)])

end Descriptor

namespace Json

/-- Whether the name of a choice may be mapped to a document, in a member that was gathered. -/
def isGatheredNothing (j : Json) : Bool :=
  j.isNull || j.isEmptyObject

mutual

/-- Whether every part of a document has a meaning, and containers are nested at most `room` deep. -/
def isGatherable (room : Nat) : Json → Bool
  | null | bool _ => true
  | number n => n.toBinary64?.isSome
  | string text => (unescape? text).isSome
  | array elements => 0 < room && areGatherable (room - 1) elements
  | object members => 0 < room && membersGatherable (room - 1) members

def areGatherable (room : Nat) : List Json → Bool
  | [] => true
  | e :: rest => isGatherable room e && areGatherable room rest

def membersGatherable (room : Nat) : List (List Char × Json) → Bool
  | [] => true
  | (name, value) :: rest =>
    (unescape? name).isSome && isGatherable room value && membersGatherable room rest

end

/-- The kind that a document names or counts. -/
def asKind? : Json → Option CommandKind
  | string text => do
    let name ← unescape? text
    CommandKind.all.find? (·.name = String.ofList name)
  | number n => do CommandKind.all[(← n.toWord?).toNat]?
  | _ => none

def asGathered? {α : Type} (choices : List α) (name : α → String) : Json → Option α :=
  asChoice? isGatheredNothing choices name

def asCameraAction? (j : Json) : Option CameraAction := do
  match ← asTagged? j with
  | ("zoom", some value) =>
    let fields ← Fields.ofJson? ["value"] value
    return .zoom (← fields.required? "value" asBinary64?)
  | _ =>
    asGathered? [CameraAction.photo, CameraAction.record]
      (fun action => if action = .photo then "photo" else "record") j

end Json

def Fields.toCommand? (f : Fields) : CommandKind → Option Command
  | .safety => do
    f.required? "action" (Json.asGathered? [Command.emergencyStop] fun _ => Command.safetyAction)
  | .move => do
    return .move {
      direction := ← f.required? "direction" (Json.asGathered? Direction.all Direction.name)
      style := ← f.optional? "style" (Json.asGathered? MoveStyle.all MoveStyle.name)
      distance := ← f.optional? "distance_meters" Json.asBinary64?
      duration := ← f.optional? "duration_ms" Json.asWord?
      relative := ← f.required? "relative" Json.asBool? }
  | .turn => do
    return .turn (← f.required? "direction" (Json.asGathered? Side.all Side.name))
      (← f.required? "style" (Json.asGathered? TurnStyle.all TurnStyle.name))
  | .rotate => do
    return .rotate {
      spin := ← f.required? "direction" (Json.asGathered? Spin.all Spin.name)
      degrees := ← f.required? "degrees" Json.asBinary64?
      relative := ← f.required? "relative" Json.asBool? }
  | .speed => do return .speed (← f.required? "percent" Json.asBinary64?)
  | .camera => do return .camera (← f.required? "action" Json.asCameraAction?)
  | .wait => do return .wait (← f.required? "ms" Json.asWord?)
  | .siren => some .siren
  | .lights => some .lights
  | .spray => some .spray
  | .taser => some .taser
  | .unknown => some .unknown

namespace Descriptor

/-- How deep the members of a command may be nested inside a descriptor. -/
def gatheringRoom : Nat := 126

def ofJson? (j : Json) : Option Descriptor := do
  let given ← j.members?
  let own ← Fields.ofMembers? ["confidence", "raw", "kind"] given
  let confidence ← own.required? "confidence" Json.asBinary32?
  let raw ← own.required? "raw" Json.asString?
  let gathered := given.filter fun (name, _) => name ≠ "confidence" && name ≠ "raw"
  guard (gathered.all fun (_, value) => value.isGatherable gatheringRoom)
  let kind ← own.required? "kind" Json.asKind?
  let fields ← Fields.ofMembers? kind.fieldNames gathered
  return ⟨← fields.toCommand? kind, confidence, raw⟩

end Descriptor

end Teleop
