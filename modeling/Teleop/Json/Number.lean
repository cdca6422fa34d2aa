import Teleop.Json.Basic
import Teleop.Numeric.Numeral
import Teleop.Numeric.Shortest

/-!
# Numbers in documents

Reading: a number without point and exponent is an integer while it fits into 64 bits. Any other
number is real. Its digits are gathered in a 64-bit word, further digits being dropped, and the word
is then scaled by one multiplication or division by a power of ten, so that the result may differ from
the nearest value in the last place. A number beyond the range of the format has no value.

Writing: the shortest digits that read back, always with a point or an exponent.
-/

namespace Teleop

open Numeric

namespace JsonNumber

/-- Whether a number is written as an integer. -/
def isInteger (n : JsonNumber) : Bool :=
  n.fraction.isNone && n.exponent.isNone

/-- The 64-bit natural number that is written. -/
def toWord? (n : JsonNumber) : Option UInt64 :=
  let value := ofDigits n.whole
  if n.isInteger && !n.negative && value < UInt64.size then some (.ofNat value) else none

structure Gathered where
  word : Nat
  dropped : Nat

def Gathered.takeWhole (g : Gathered) (c : Char) : Gathered :=
  let word := g.word * 10 + digitValue c
  if g.dropped = 0 && word < UInt64.size then { g with word } else { g with dropped := g.dropped + 1 }

/-- Takes the digits behind the point while the word has room; also tells their number. -/
def gatherFraction (word taken : Nat) : List Char → Nat × Nat
  | [] => (word, taken)
  | c :: rest =>
    let next := word * 10 + digitValue c
    if next < UInt64.size then gatherFraction next (taken + 1) rest else (word, taken)

/-- The word and the power of ten that the digits amount to. -/
def gather (n : JsonNumber) : Nat × Int :=
  let whole := n.whole.foldl Gathered.takeWhole ⟨0, 0⟩
  let (word, taken) := gatherFraction whole.word 0 (n.fraction.getD [])
  (word, (whole.dropped : Int) - taken)

def powerOfTen (e : Nat) : Binary64 :=
  .ofDecimal false ⟨1, e⟩

/-- A word scaled by a power of ten, unless the result leaves the range. -/
def scale? (word : Nat) : Int → Option Binary64
  | .ofNat e =>
    if e ≤ 308 then
      let value := (Binary.ofInt word : Binary64) * powerOfTen e
      if value.isFinite then some value else none
    else if word = 0 then some 0 else none
  | .negSucc e =>
    if e + 1 ≤ 308 then some (Binary.ofInt word / powerOfTen (e + 1))
    else if e + 1 ≤ 616 then some (Binary.ofInt word / powerOfTen 308 / powerOfTen (e + 1 - 308))
    else some 0

/-- The largest exponent that is looked at. -/
def maxExponent : Nat := 2147483647

def magnitude? (n : JsonNumber) : Option Binary64 :=
  let (word, power) := n.gather
  match n.exponent with
  | none => scale? word power
  | some (negative, digits) =>
    let e := ofDigits digits
    if maxExponent < e then if word ≠ 0 && !negative then none else some 0
    else scale? word (if negative then power - e else power + e)

def toBinary64? (n : JsonNumber) : Option Binary64 :=
  n.magnitude?.map fun value => if n.negative then -value else value

/-- Whether a number is an integer of 64 bits: a natural one, or a negative one with a sign bit. -/
def isSmallInteger (n : JsonNumber) : Bool :=
  let value := ofDigits n.whole
  n.isInteger && if n.negative then value ≠ 0 && value ≤ UInt64.size / 2 else value < UInt64.size

/-- The value of a number in the 32-bit format. An integer is rounded once, any other number through
the 64-bit format. -/
def toBinary32? (n : JsonNumber) : Option Binary32 :=
  if n.isSmallInteger then some (.ofRatio n.negative (ofDigits n.whole) 1)
  else n.toBinary64?.map Binary.convert

def ofNat (n : Nat) : JsonNumber :=
  ⟨false, toDigits n, none, none⟩

/-- Which positions of the leading digit a format writes without an exponent: those above `least` and
at most `most`, counted from the point. -/
structure Style where
  least : Int
  most : Int

/-- The style of 64-bit values: without an exponent from `1e-5` up to `1e16`. -/
def Style.wide : Style := ⟨-5, 16⟩

/-- The style of 32-bit values: without an exponent from `1e-6` up to `1e13`. -/
def Style.narrow : Style := ⟨-6, 13⟩

def ofDecimal (style : Style) (negative : Bool) (d : Decimal) : JsonNumber :=
  let digits := toDigits d.digits
  let point := digits.length + d.exponent
  if style.least < point && point ≤ style.most then
    if digits.length ≤ point then
      ⟨negative, digits ++ List.replicate d.exponent.toNat '0', some ['0'], none⟩
    else if 0 < point then
      ⟨negative, digits.take point.toNat, some (digits.drop point.toNat), none⟩
    else ⟨negative, ['0'], some (List.replicate (-point).toNat '0' ++ digits), none⟩
  else
    let e := point - 1
    ⟨negative, digits.take 1, if digits.length = 1 then none else some (digits.drop 1),
      some (e < 0, toDigits e.natAbs)⟩

/-- A value as it is written in a style, if it is finite. -/
def ofBinary? {f : Format} (style : Style) : Binary f → Option JsonNumber
  | .finite s q _ =>
    some (if q = 0 then ⟨s, ['0'], some ['0'], none⟩
      else ofDecimal style s (Binary.shortest f .even q))
  | _ => none

end JsonNumber

namespace Json

def ofNat (n : Nat) : Json :=
  .number (.ofNat n)

/-- The document of a 64-bit value; what is not finite is null. -/
def ofBinary64 (x : Binary64) : Json :=
  (JsonNumber.ofBinary? .wide x).elim .null .number

/-- The document of a 32-bit value; what is not finite is null. -/
def ofBinary32 (x : Binary32) : Json :=
  (JsonNumber.ofBinary? .narrow x).elim .null .number

end Json

end Teleop
