import Teleop.Command.Basic
import Teleop.Numeric.Numeral
import Teleop.Numeric.Shortest

/-!
# Instruction tokens and their wire text

The alphabet that a dispatcher understands. A token is written as its name, with a colon and an
argument where it has one. Numbers are written in plain notation and the two zeros alike; reading
accepts every numeral.
-/

namespace Teleop

open Numeric

inductive Token where
  | move (direction : Direction)
  | moveDistance (meters : Binary64)
  | moveDuration (duration : Millis)
  | moveSpeed (percent : Binary64)
  | turn (side : Side)
  | rotate (spin : Spin) (degrees : Binary64)
  | cameraPhoto
  | cameraRecord
  | cameraZoom (value : Binary64)
  | siren
  | flash
  | spray
  | taser
  | wait (duration : Millis)
  | emergencyStop
  | unknown
deriving DecidableEq

namespace Token

/-- The text of a number: a whole number of at most fifteen digits as its digits, any other number in
plain notation. -/
def numberText (x : Binary64) : List Char :=
  match x.toInt? with
  | some n =>
    if n.natAbs < 1000000000000000 then (if n < 0 then ['-'] else []) ++ toDigits n.natAbs
    else x.plain
  | none => x.plain

def spinName : Spin → String
  | .clockwise => "rotate.cw.deg"
  | .counterclockwise => "rotate.ccw.deg"

/-- The name of a token, and its argument if it has one. -/
def parts : Token → String × Option (List Char)
  | move d => ("move." ++ d.name, none)
  | moveDistance x => ("move.distance", some (numberText x ++ ['m']))
  | moveDuration t => ("move.duration", some (toDigits t.toNat))
  | moveSpeed x => ("move.speed", some (numberText x))
  | turn s => ("turn." ++ s.name, none)
  | rotate s x => (spinName s, some (numberText x))
  | cameraPhoto => ("camera.photo", none)
  | cameraRecord => ("camera.record", none)
  | cameraZoom x => ("camera.zoom", some (numberText x))
  | siren => ("siren", none)
  | flash => ("flash", none)
  | spray => ("spray", none)
  | taser => ("taser", none)
  | wait t => ("wait", some (toDigits t.toNat))
  | emergencyStop => ("safety.estop", none)
  | unknown => ("unknown", none)

def chars (t : Token) : List Char :=
  match t.parts with
  | (name, none) => name.toList
  | (name, some argument) => name.toList ++ ':' :: argument

def text (t : Token) : String :=
  String.ofList t.chars

def plainTokens : List Token :=
  Direction.all.map move ++ Side.all.map turn ++
    [cameraPhoto, cameraRecord, siren, flash, spray, taser, emergencyStop, unknown]

def readMillis? (argument : List Char) : Option Millis :=
  (readWord? argument).map .ofNat

def ofParts? (name : String) (argument : List Char) : Option Token :=
  match name with
  | "move.distance" =>
    if argument.getLast? = some 'm' then (Binary.read? argument.dropLast).map moveDistance else none
  | "move.duration" => (readMillis? argument).map moveDuration
  | "move.speed" => (Binary.read? argument).map moveSpeed
  | "rotate.cw.deg" => (Binary.read? argument).map (rotate .clockwise)
  | "rotate.ccw.deg" => (Binary.read? argument).map (rotate .counterclockwise)
  | "camera.zoom" => (Binary.read? argument).map cameraZoom
  | "wait" => (readMillis? argument).map wait
  | _ => none

def ofChars? (text : List Char) : Option Token :=
  match plainTokens.find? (·.chars == text) with
  | some t => some t
  | none =>
    match text.dropWhile (· ≠ ':') with
    | [] => none
    | _ :: argument => ofParts? (String.ofList (text.takeWhile (· ≠ ':'))) argument

def refusal (text : String) : String :=
  "unrecognized instruction token: " ++ text

/-- The duration that a token asks the dispatcher to wait. -/
def waitDuration? : Token → Option Millis
  | wait t => some t
  | _ => none

/-- Whether two tokens are the same instruction: numbers are compared by size, so that a number that
is none differs from itself. -/
def equals : Token → Token → Bool
  | moveDistance x, moveDistance y => x.equals y
  | moveSpeed x, moveSpeed y => x.equals y
  | rotate s x, rotate t y => s = t && x.equals y
  | cameraZoom x, cameraZoom y => x.equals y
  | s, t => s = t

end Token

end Teleop
