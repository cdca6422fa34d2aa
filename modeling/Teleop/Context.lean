import Teleop.Command.Basic

/-!
# The memory of a session

What is remembered of the last commands of an operator, so that a later utterance can ask for a
repetition. The last direction is never that of a stop: a stop clears it.
-/

namespace Teleop

open Numeric

/-- The motion state that an operator was last known to want. -/
structure Context where
  lastDirection : Option Direction
  lastSpeedPercent : Binary64
  lastHeadingDegrees : Binary64
  lastTurnStyle : TurnStyle
deriving DecidableEq

namespace Context

def defaultSpeedPercent : Binary64 := 50

def initial : Context :=
  ⟨none, defaultSpeedPercent, 0, .normal⟩

/-- Remembers a direction, or that there is none any more. -/
def recordDirection (c : Context) (direction : Direction) : Context :=
  { c with lastDirection := if direction = .stop then none else some direction }

def recordStop (c : Context) : Context :=
  { c with lastDirection := none }

def recordSpeed (c : Context) (percent : Binary64) : Context :=
  { c with lastSpeedPercent := percent }

def recordTurn (c : Context) (side : Side) (style : TurnStyle) : Context :=
  { c.recordDirection side.direction with lastTurnStyle := style }

/-- Remembers a rotation, given as degrees that count clockwise. -/
def recordRotation (c : Context) (degrees : Binary64) : Context :=
  { c with lastHeadingDegrees := c.lastHeadingDegrees + degrees }

end Context

end Teleop
