import Teleop.Lexicon.Entry
import Teleop.Numeric.Arithmetic

/-!
# Settings of an interpreter
-/

namespace Teleop

open Numeric

/-- What an interpreter can be set to: the confidence from which a command counts as certain, the zoom
value of a clause that names none, and lexicon entries beside the built-in ones. -/
structure Settings where
  confidenceThreshold : Binary32
  zoomStep : Binary64
  lexicon : List Entry
deriving DecidableEq

namespace Settings

def default : Settings :=
  ⟨.ofRatio false 7 10, 1, []⟩

def hasValidThreshold (s : Settings) : Bool :=
  Binary.le 0 s.confidenceThreshold && Binary.le s.confidenceThreshold 1

end Settings

end Teleop
