import Teleop.Numeric.Numeral
import Teleop.Quantity.Basic
import Teleop.Quantity.NumberWord
import Teleop.Text.Scan

/-!
# Numerals mentioned in a text

A numeral is a row of digits with an optional decimal part, or number words between word boundaries.
`percentMention` finds numerals with a percent sign or word behind them, `mention` finds all numerals
with the word behind them, if any. A numeral in digits that are not ASCII is found and has no value.
-/

namespace Teleop

open Numeric Text

structure Mention where
  numeral : List Char
  isSpelled : Bool
  unitText : Option (List Char)
deriving DecidableEq, Repr

namespace Mention

/-- Whether a character separates the parts of a compound number word. -/
def isJoint (c : Char) : Bool :=
  isBlank c || c = '-'

/-- The length of the longest row of digits with a decimal part at the head of a text. -/
def digitsLength (text : List Char) : Nat :=
  let whole := (text.takeWhile isDecimalDigit).length
  if whole = 0 then 0
  else match text.drop whole with
    | '.' :: rest =>
      let decimals := (rest.takeWhile isDecimalDigit).length
      if decimals = 0 then whole else whole + 1 + decimals
    | _ => whole

/-- The words of a table that stand at the head of a text, by their lengths. -/
def wordLengths (table : List (String × Nat)) (text : List Char) : List Nat :=
  table.filterMap fun (w, _) => if startsWithLetters w.toList text then some w.length else none

/-- The lengths of the number words at the head of a text that begin with a multiple of ten: each
compound with one of the ones, then the word alone. -/
def compoundLengths (text : List Char) : List Nat :=
  (wordLengths NumberWord.tens text).flatMap fun n =>
    let behind := text.drop n
    let joint := (behind.takeWhile isJoint).length
    let compounds :=
      if joint = 0 then []
      else (wordLengths NumberWord.ones (behind.drop joint)).map (n + joint + ·)
    compounds ++ [n]

/-- The lengths of the spelled numerals at a place, in the order in which they are tried. -/
def spelledLengths (before : Option Char) (text : List Char) : List Nat :=
  if isBoundary before text.head? then
    (compoundLengths text ++ wordLengths NumberWord.ones text ++
      wordLengths NumberWord.urduByLength text).filter (boundaryBehind text)
  else []

/-- The numerals at a place as pairs of being spelled and length, in the order in which they are
tried. -/
def numeralsAt (before : Option Char) (text : List Char) : List (Bool × Nat) :=
  let digits := digitsLength text
  (if digits = 0 then [] else [(false, digits)]) ++ (spelledLengths before text).map (true, ·)

def isPercentAt (before : Option Char) (text : List Char) : Bool :=
  text.head? = some '%' ||
    ["percent", "per cent", "fisad"].any (isWordAt before text ·.toList) ||
    startsWithLetters "فیصد".toList text

/-- Recognises a numeral with a percent sign or word behind it. -/
def percentMention : Recogniser Mention := fun before text =>
  ((numeralsAt before text).find? fun (_, n) =>
    let behind := text.drop n
    let blanks := behind.takeWhile isBlank
    isPercentAt (blanks.getLast?.or text[n - 1]?) (behind.drop blanks.length)).map
  fun (spelled, n) => (⟨text.take n, spelled, none⟩, n)

/-- Whether a character can belong to the word behind a numeral. -/
def isUnitChar (c : Char) : Bool :=
  !(isBlank c || isDecimalDigit c || c = ',' || c = ';')

/-- Recognises a numeral with the word behind it, if one follows. -/
def mention : Recogniser Mention := fun before text =>
  (numeralsAt before text).head?.map fun (spelled, n) =>
    let behind := text.drop n
    let blanks := (behind.takeWhile isBlank).length
    let word := (behind.drop blanks).takeWhile isUnitChar
    if word.isEmpty then (⟨text.take n, spelled, none⟩, n)
    else (⟨text.take n, spelled, some word⟩, n + blanks + word.length)

/-- The sum of the number words of a spelled numeral. -/
def spelledValue? (numeral : List Char) : Option Nat :=
  (((numeral.splitOnP isJoint).filter (!·.isEmpty)).mapM NumberWord.value?).map (·.foldl (· + ·) 0)

/-- The value of a numeral, if its words or digits have one. -/
def value? (m : Mention) : Option Binary64 :=
  if m.isSpelled then (spelledValue? m.numeral).map fun n => Binary.ofInt n
  else Binary.read? m.numeral

def unit? (m : Mention) : Option Measure :=
  m.unitText.bind Measure.ofText?

/-- Whether a numeral counts only with a unit behind it, because its word also has another use. -/
def needsUnit (m : Mention) : Bool :=
  m.isSpelled && lower m.numeral = ['d', 'o']

end Mention

end Teleop
