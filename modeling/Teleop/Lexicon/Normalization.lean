import Teleop.Lexicon.Basic
import Teleop.Text.Scan

/-!
# Normalization into canonical words

An utterance is brought into one language: digits and punctuation of the Urdu script become ASCII, the
text is collapsed, and each source pattern that stands between word boundaries is replaced by its
canonical form, the longest pattern first.
-/

namespace Teleop

open Text

/-- The ASCII form of a digit or punctuation mark of the Urdu script. -/
def asciiForm (c : Char) : Char :=
  let n := c.toNat
  if 0x06F0 ≤ n && n ≤ 0x06F9 then Char.ofNat (n - 0x06F0 + '0'.toNat)
  else if 0x0660 ≤ n && n ≤ 0x0669 then Char.ofNat (n - 0x0660 + '0'.toNat)
  else if c = '،' then ','
  else if c = '؛' then ';'
  else if c = '۔' then '.'
  else if c = '؟' then '?'
  else c

namespace Lexicon

/-- Recognises the first of some sources that stands at a place between boundaries. -/
def recogniseSource (sources : List (List Char)) : Recogniser Unit := fun before text =>
  (sources.find? (isWordAt before text)).map fun source => ((), source.length)

/-- The text that an occurrence of a source is replaced by. A spelling that is a source only up to
case variants has no canonical form and stays. -/
def replacement (l : Lexicon) (text : List Char) : List Char :=
  ((l.lookup? (String.ofList text)).map String.toList).getD (collapse text)

def replacePiece (l : Lexicon) : Piece Unit → List Char
  | .plain c => [c]
  | .found _ text => l.replacement text

def replaceSources (l : Lexicon) (text : List Char) : List Char :=
  (scan (recogniseSource l.sourcesByLength) text).flatMap l.replacePiece

/-- The canonical form of an utterance. -/
def normalize (l : Lexicon) (utterance : String) : String :=
  String.ofList (collapse (l.replaceSources (collapse (utterance.toList.map asciiForm))))

end Lexicon

end Teleop
