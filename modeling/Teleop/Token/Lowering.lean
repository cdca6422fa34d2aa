import Teleop.Token.Basic

/-!
# Lowering descriptors to tokens

Each command becomes a few tokens; a motion bounded in time becomes a bracket of motion, duration,
wait and stop. The wait and stop that a classified timed motion is followed by are that bracket
already and are absorbed. What is unknown contributes nothing, and a stream that would be empty is the
single token `unknown`.
-/

namespace Teleop

def Motion.tokens (m : Motion) : List Token :=
  .move m.direction :: m.distance.toList.map .moveDistance ++
    match m.duration with
    | none => []
    | some t => [.moveDuration t, .wait t, .move .stop]

def CameraAction.token : CameraAction → Token
  | photo => .cameraPhoto
  | record => .cameraRecord
  | zoom value => .cameraZoom value

def Command.tokens : Command → List Token
  | emergencyStop => [.emergencyStop]
  | move m => m.tokens
  | turn side _ => [.turn side]
  | rotate r => [.rotate r.spin r.degrees]
  | speed percent => [.moveSpeed percent]
  | camera action => [action.token]
  | siren => [.siren]
  | lights => [.flash]
  | spray => [.spray]
  | taser => [.taser]
  | wait t => [.wait t]
  | unknown => []

/-- Whether a wait and a stop are the tail of the bracket that a command opens: the command is a
motion bounded in time, and the wait lasts as long. -/
def Command.isBracket : Command → Command → Command → Bool
  | move m, wait t, move s => m.duration = some t && s.isStop
  | _, _, _ => false

namespace Token

/-- The tokens of a row of commands, without the tails of brackets. -/
def ofCommands : List Command → List Token
  | first :: second :: third :: rest =>
    first.tokens ++
      if first.isBracket second third then ofCommands rest else ofCommands (second :: third :: rest)
  | first :: rest => first.tokens ++ ofCommands rest
  | [] => []

/-- The token stream of a row of descriptors. -/
def ofDescriptors (ds : List Descriptor) : List Token :=
  match ofCommands (ds.map (·.command)) with
  | [] => [.unknown]
  | tokens => tokens

end Token

end Teleop
