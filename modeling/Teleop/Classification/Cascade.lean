import Teleop.Classification.View
import Teleop.Context

/-!
# The cascade of rules

A clause is classified by the first rule that applies. A rule yields one or more descriptors and the
context after them, or does not apply. Where no rule applies the clause is unknown and the context
stays as it was.
-/

namespace Teleop

open Numeric

inductive Rule where
  | safety
  | stop
  | speed
  | wait
  | timedMove
  | distanceMove
  | rotate
  | turn
  | cardinalMove
  | accessory
deriving DecidableEq, Repr

namespace Rule

/-- The rules in order of precedence. -/
def cascade : List Rule :=
  [safety, stop, speed, wait, timedMove, distanceMove, rotate, turn, cardinalMove, accessory]

def name : Rule → String
  | safety => "safety"
  | stop => "stop"
  | speed => "speed"
  | wait => "wait"
  | timedMove => "timed_move"
  | distanceMove => "distance_move"
  | rotate => "rotate"
  | turn => "turn"
  | cardinalMove => "cardinal_move"
  | accessory => "accessory"

def safetyWords : List String := ["emergency", "estop", "e-stop", "abort", "panic"]

def safetyPhrases : List String := ["e stop", "kill switch"]

def stopWords : List String := ["stop", "halt", "freeze", "brake"]

def speedWords : List String := ["speed", "throttle", "power", "velocity"]

def waitWords : List String := ["wait", "pause"]

/-- The words that bound a motion in time. -/
def durationWords : List String := ["for"]

def rotateWords : List String := ["rotate", "spin", "rotation", "rotating", "spinning"]

/-- The phrases for a half turn. -/
def aboutFacePhrases : List String := ["turn around", "u-turn", "u turn"]

def turnWords : List String := ["turn", "sharp", "steer"]

def zoomWords : List String := ["zoom"]

def recordWords : List String := ["record", "recording", "video", "film"]

def photoWords : List String :=
  ["photo", "photograph", "picture", "pic", "snapshot", "snap", "capture", "camera"]

def sirenWords : List String := ["siren", "alarm"]

def lightsWords : List String :=
  ["lights", "light", "flash", "flashlight", "torch", "headlights", "headlight", "lamp"]

def sprayWords : List String := ["spray", "sprayer", "mist"]

def taserWords : List String := ["taser", "tase", "shock", "stun"]

/-- What a rule makes of a clause: its descriptors and the context after them. -/
abbrev Outcome := List Descriptor × Context

def applySafety (v : View) (c : Context) : Option Outcome :=
  if v.has safetyWords || v.hasPhrase safetyPhrases then
    some ([v.describe .emergencyStop Confidence.safety], c)
  else none

def applyStop (v : View) (c : Context) : Option Outcome :=
  if v.has stopWords then
    some ([v.describe (.move .stop) Confidence.stop], c.recordStop)
  else none

/-- A speed, given by a number without a unit or a percentage. -/
def applySpeed (v : View) (c : Context) : Option Outcome := do
  guard (v.has speedWords)
  let value ← v.quantity.value
  guard (v.quantity.unit = none ∨ v.quantity.unit = some .percent)
  let percent := Quantity.clampPercent value
  return ([v.describe (.speed percent) Confidence.quantified], c.recordSpeed percent)

def applyWait (v : View) (c : Context) : Option Outcome := do
  guard (v.has waitWords)
  let duration ← v.quantity.asMillis?
  return ([v.describe (.wait duration) Confidence.quantified], c)

/-- A motion bounded in time: the motion, a wait of its duration, and a stop. -/
def applyTimedMove (v : View) (c : Context) : Option Outcome := do
  guard (v.has durationWords)
  let duration ← v.quantity.asMillis?
  let direction ← v.direction?
  let motion := (Motion.toward direction v.moveStyle).withDuration duration
  return ([v.describe (.move motion) Confidence.quantified,
    v.describe (.wait duration) Confidence.quantified,
    v.describe (.move .stop) Confidence.quantified], c.recordDirection direction)

def applyDistanceMove (v : View) (c : Context) : Option Outcome := do
  let direction ← v.direction?
  let meters ← v.quantity.asMeters?
  let motion := (Motion.toward direction v.moveStyle).withDistance meters
  return ([v.describe (.move motion) Confidence.quantified], c.recordDirection direction)

/-- The angle of a rotation: the angle of the clause, or half a turn where the clause asks for one and
names no number. -/
def rotationDegrees? (v : View) : Option Binary64 :=
  if v.has rotateWords then v.quantity.asDegrees?
  else if v.hasPhrase aboutFacePhrases && v.quantity.value.isNone then some 180
  else none

/-- A rotation, remembered as degrees that count clockwise. -/
def applyRotate (v : View) (c : Context) : Option Outcome := do
  let degrees ← rotationDegrees? v
  let clockwise := match v.spin with
    | .clockwise => degrees
    | .counterclockwise => -degrees
  return ([v.describe (.rotate ⟨v.spin, degrees, true⟩) Confidence.directional],
    c.recordRotation clockwise)

def applyTurn (v : View) (c : Context) : Option Outcome := do
  guard (v.has turnWords)
  let side ← v.side?
  return ([v.describe (.turn side v.turnStyle) Confidence.directional],
    c.recordTurn side v.turnStyle)

/-- A motion without a bound. -/
def applyCardinalMove (v : View) (c : Context) : Option Outcome := do
  let direction ← v.direction?
  return ([v.describe (.move (.toward direction v.moveStyle)) Confidence.cardinal],
    c.recordDirection direction)

/-- The camera action of a clause; zooming wins over recording and recording over photographs. -/
def cameraAction? (zoomStep : Binary64) (v : View) : Option CameraAction :=
  if v.has zoomWords then some (.zoom (v.quantity.value.getD zoomStep))
  else if v.has recordWords then some .record
  else if v.has photoWords then some .photo
  else none

/-- The device commands of a clause, each device by itself. -/
def accessoryCommands (zoomStep : Binary64) (v : View) : List Command :=
  (cameraAction? zoomStep v).toList.map .camera ++
    (if v.has sirenWords then [.siren] else []) ++
    (if v.has lightsWords then [.lights] else []) ++
    (if v.has sprayWords then [.spray] else []) ++
    (if v.has taserWords then [.taser] else [])

def applyAccessory (zoomStep : Binary64) (v : View) (c : Context) : Option Outcome :=
  match accessoryCommands zoomStep v with
  | [] => none
  | commands => some (commands.map (v.describe · Confidence.accessory), c)

/-- What a rule makes of a clause. -/
def apply (zoomStep : Binary64) (v : View) (c : Context) : Rule → Option Outcome
  | safety => applySafety v c
  | stop => applyStop v c
  | speed => applySpeed v c
  | wait => applyWait v c
  | timedMove => applyTimedMove v c
  | distanceMove => applyDistanceMove v c
  | rotate => applyRotate v c
  | turn => applyTurn v c
  | cardinalMove => applyCardinalMove v c
  | accessory => applyAccessory zoomStep v c

end Rule

/-- The descriptors of a clause and the context after it. -/
def classify (zoomStep : Binary64) (clause : String) (c : Context) : Rule.Outcome :=
  (Rule.cascade.findSome? (Rule.apply zoomStep (View.ofClause clause) c)).getD
    ([Descriptor.unknown clause], c)

end Teleop
