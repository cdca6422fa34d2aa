import Teleop.Command.Basic
import Teleop.Quantity.Extraction
import Teleop.Text.Letter

/-!
# A clause as the rules see it

The rules of the cascade look at the words of a clause, stripped of punctuation and in lower case, at
the phrases they form, and at the quantity of the clause.
-/

namespace Teleop

open Text

structure View where
  raw : String
  words : List String
  quantity : Quantity

namespace View

/-- A word without the characters at its ends that are neither letters nor numbers. -/
def bareWord (word : List Char) : List Char :=
  trimBoth (!isAlphanumeric ·) word

def ofClause (clause : String) : View where
  raw := clause
  words := (((Text.words clause.toList).map (lower ∘ bareWord)).filter (!·.isEmpty)).map String.ofList
  quantity := Quantity.extract clause

/-- Whether one of some words is in the clause. -/
def has (v : View) (cues : List String) : Bool :=
  v.words.any cues.contains

def hasPhrase (v : View) (phrases : List String) : Bool :=
  phrases.any fun phrase =>
    containsPhrase (unwords (v.words.map String.toList)) phrase.toList

def directionOf? (word : String) : Option Direction :=
  if ["forward", "forwards", "ahead", "straight"].contains word then some .forward
  else if ["back", "backward", "backwards", "reverse"].contains word then some .backward
  else if word = "left" then some .left
  else if word = "right" then some .right
  else none

def sideOf? (word : String) : Option Side :=
  if word = "left" then some .left
  else if word = "right" then some .right
  else none

/-- The first direction in the clause. -/
def direction? (v : View) : Option Direction :=
  v.words.findSome? directionOf?

/-- The first side in the clause. -/
def side? (v : View) : Option Side :=
  v.words.findSome? sideOf?

def sharpWords : List String := ["sharp", "sharply", "hard"]

def littleWords : List String := ["little", "slightly", "slight", "bit"]

/-- The manner of moving; sharp wins over little. -/
def moveStyle (v : View) : MoveStyle :=
  if v.has sharpWords then .sharp
  else if v.has littleWords then .little
  else .normal

def turnStyle (v : View) : TurnStyle :=
  if v.has sharpWords then .sharp else .normal

def counterclockwiseWords : List String := ["left", "counterclockwise", "anticlockwise", "ccw"]

def counterclockwisePhrases : List String := ["counter clockwise", "anti clockwise"]

/-- The sense of rotation; a clause that names none means clockwise. -/
def spin (v : View) : Spin :=
  if v.has counterclockwiseWords || v.hasPhrase counterclockwisePhrases then .counterclockwise
  else .clockwise

/-- A descriptor with the clause as its source. -/
def describe (v : View) (command : Command) (confidence : Numeric.Binary32) : Descriptor :=
  .make command confidence v.raw

end View

end Teleop
