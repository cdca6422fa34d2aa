import Teleop.Text.Words

/-!
# Units of quantities

A unit is read from the word behind a numeral. Closing punctuation is dropped and the case ignored;
the English and romanized names may have any ending, the names in Urdu script must be whole.
-/

namespace Teleop

open Text

inductive Measure where
  | percent
  | seconds
  | minutes
  | meters
  | centimeters
  | degrees
deriving DecidableEq, Repr

namespace Measure

def symbol : Measure → String
  | percent => "percent"
  | seconds => "s"
  | minutes => "min"
  | meters => "m"
  | centimeters => "cm"
  | degrees => "deg"

def all : List Measure :=
  [percent, seconds, minutes, meters, centimeters, degrees]

def isDuration (u : Measure) : Bool :=
  u = seconds || u = minutes

def isDistance (u : Measure) : Bool :=
  u = meters || u = centimeters

/-- The spellings of a unit: the beginnings of words that are enough to name it, and its whole
names. -/
def spellings : Measure → List String × List String
  | percent => (["percent", "fisad"], ["%", "pct", "فیصد"])
  | minutes => (["min"], ["منٹ"])
  | seconds => (["sec", "sakand"], ["s", "سیکنڈ"])
  | degrees => (["deg", "darj"], ["°", "ڈگری"])
  | centimeters => (["centi", "سینٹی"], ["cm"])
  | meters => (["met"], ["m", "میٹر"])

/-- Whether a lower-case word names a unit. -/
def isNamedBy (u : Measure) (word : List Char) : Bool :=
  u.spellings.1.any (·.toList.isPrefixOf word) || u.spellings.2.any (·.toList == word)

/-- The order in which units are tried. -/
def readingOrder : List Measure :=
  [percent, minutes, seconds, degrees, centimeters, meters]

/-- Whether a character closes a sentence or a bracket. -/
def isClosing (c : Char) : Bool :=
  c = '.' || c = '!' || c = '?' || c = ')'

def ofText? (text : List Char) : Option Measure :=
  let word := lower ((trim text).reverse.dropWhile isClosing).reverse
  readingOrder.find? (·.isNamedBy word)

end Measure

end Teleop
