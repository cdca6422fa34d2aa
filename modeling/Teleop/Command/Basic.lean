import Teleop.Quantity.Basic

/-!
# Commands

What a machine can be told to do. Each kind of command carries only the data of its kind. A motion
that is bounded by a distance or a duration is relative to the present position; a stop has no
manner.
-/

namespace Teleop

open Numeric

/-- The direction of a motion, where stopping counts as a direction. -/
inductive Direction where
  | forward
  | backward
  | left
  | right
  | stop
deriving DecidableEq, Repr

inductive MoveStyle where
  | normal
  | little
  | sharp
deriving DecidableEq, Repr

inductive Side where
  | left
  | right
deriving DecidableEq, Repr

inductive TurnStyle where
  | normal
  | sharp
deriving DecidableEq, Repr

inductive Spin where
  | clockwise
  | counterclockwise
deriving DecidableEq, Repr

inductive CameraAction where
  | photo
  | record
  | zoom (value : Binary64)
deriving DecidableEq

namespace Direction

def name : Direction → String
  | forward => "forward"
  | backward => "backward"
  | left => "left"
  | right => "right"
  | stop => "stop"

def all : List Direction :=
  [forward, backward, left, right, stop]

/-- Whether a direction leads to a side. -/
def isLateral (d : Direction) : Bool :=
  d = left || d = right

end Direction

namespace MoveStyle

def name : MoveStyle → String
  | normal => "normal"
  | little => "little"
  | sharp => "sharp"

def all : List MoveStyle :=
  [normal, little, sharp]

end MoveStyle

namespace Side

def name : Side → String
  | left => "left"
  | right => "right"

def all : List Side :=
  [left, right]

def direction : Side → Direction
  | left => .left
  | right => .right

end Side

namespace TurnStyle

def name : TurnStyle → String
  | normal => "normal"
  | sharp => "sharp"

def all : List TurnStyle :=
  [normal, sharp]

/-- The manner of moving that goes with a manner of turning. -/
def moveStyle : TurnStyle → MoveStyle
  | normal => .normal
  | sharp => .sharp

end TurnStyle

namespace Spin

def name : Spin → String
  | clockwise => "clockwise"
  | counterclockwise => "counterclockwise"

def all : List Spin :=
  [clockwise, counterclockwise]

end Spin

structure Motion where
  direction : Direction
  style : Option MoveStyle
  distance : Option Binary64
  duration : Option Millis
  relative : Bool
deriving DecidableEq

namespace Motion

/-- The motion that ends all motion. -/
def stop : Motion :=
  ⟨.stop, none, none, none, false⟩

/-- The motion in a direction without a bound. -/
def toward (direction : Direction) (style : MoveStyle) : Motion :=
  ⟨direction, some style, none, none, false⟩

def withDistance (m : Motion) (meters : Binary64) : Motion :=
  { m with distance := some meters, relative := true }

def withDuration (m : Motion) (duration : Millis) : Motion :=
  { m with duration := some duration, relative := true }

def isStop (m : Motion) : Bool :=
  m.direction = .stop

end Motion

/-- A rotation on the spot, in degrees against the present heading if it is relative. -/
structure Rotation where
  spin : Spin
  degrees : Binary64
  relative : Bool
deriving DecidableEq

inductive Command where
  | emergencyStop
  | move (motion : Motion)
  | turn (side : Side) (style : TurnStyle)
  | rotate (rotation : Rotation)
  | speed (percent : Binary64)
  | camera (action : CameraAction)
  | siren
  | lights
  | spray
  | taser
  | wait (duration : Millis)
  | unknown
deriving DecidableEq

structure Descriptor where
  command : Command
  confidence : Binary32
  raw : String
deriving DecidableEq

namespace Confidence

/-- A confidence in hundredths. -/
def hundredths (n : Nat) : Binary32 :=
  .ofRatio false n 100

def safety : Binary32 := hundredths 99
def stop : Binary32 := hundredths 95
/-- The confidence in a command that rests on a quantity. -/
def quantified : Binary32 := hundredths 90
/-- The confidence in a turn or rotation. -/
def directional : Binary32 := hundredths 85
def accessory : Binary32 := hundredths 85
def cardinal : Binary32 := hundredths 75
/-- The confidence in a repetition. -/
def ellipsis : Binary32 := hundredths 40
def unknown : Binary32 := hundredths 20

/-- All levels, from the rule of highest precedence down. -/
def levels : List Binary32 :=
  [safety, stop, quantified, directional, accessory, cardinal, ellipsis, unknown]

end Confidence

namespace Descriptor

/-- The descriptor with its confidence brought between zero and one. -/
def make (command : Command) (confidence : Binary32) (raw : String) : Descriptor :=
  ⟨command, confidence.clamp 0 1, raw⟩

/-- The descriptor of a text that was not understood. -/
def unknown (raw : String) : Descriptor :=
  make .unknown Confidence.unknown raw

def isUnknown (d : Descriptor) : Bool :=
  d.command = .unknown

def isConfident (d : Descriptor) (threshold : Binary32) : Bool :=
  threshold.le d.confidence

end Descriptor

end Teleop
