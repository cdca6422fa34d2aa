import Teleop.Numeric.Decimal

/-!
# Numerals

The written forms of numbers. A real numeral has an optional sign, digits with at most one point, at
least one digit on either side of it, and an optional exponent; or it names an infinity or what is not
a number, in any case. A natural numeral has an optional plus sign and digits. Nothing may stand
before or behind a numeral.
-/

namespace Teleop.Numeric

def asciiLower (c : Char) : Char :=
  if 'A' ≤ c && c ≤ 'Z' then Char.ofNat (c.toNat + 32) else c

/-- The sign at the head of a numeral, true for minus, and what follows it. -/
def readSign : List Char → Bool × List Char
  | '-' :: rest => (true, rest)
  | '+' :: rest => (false, rest)
  | text => (false, text)

def readDigits? (text : List Char) : Option Nat :=
  if text.isEmpty || !text.all isAsciiDigit then none else some (ofDigits text)

/-- The value of an exponent, which is a row of digits with an optional sign. -/
def readExponent? (text : List Char) : Option Int :=
  let (negative, digits) := readSign text
  (readDigits? digits).map fun n => if negative then -n else n

/-- The decimal that an unsigned numeral denotes. -/
def readDecimal? (text : List Char) : Option Decimal :=
  let mantissa := text.takeWhile fun c => isAsciiDigit c || c == '.'
  let behind := text.drop mantissa.length
  let whole := mantissa.takeWhile (· != '.')
  let fraction := (mantissa.drop whole.length).drop 1
  if (whole ++ fraction).isEmpty || !fraction.all isAsciiDigit then none
  else
    let exponent? := match behind with
      | [] => some 0
      | c :: rest => if c == 'e' || c == 'E' then readExponent? rest else none
    exponent?.map fun e => ⟨ofDigits (whole ++ fraction), e - fraction.length⟩

def Binary.read? {f : Format} (text : List Char) : Option (Binary f) :=
  let (negative, unsigned) := readSign text
  match readDecimal? unsigned with
  | some d => some (ofDecimal negative d)
  | none =>
    let name := String.ofList (unsigned.map asciiLower)
    if name = "inf" || name = "infinity" then some (infinite negative)
    else if name = "nan" then some nan
    else none

/-- The natural number of 64 bits that a numeral denotes. -/
def readWord? (text : List Char) : Option Nat :=
  let digits := match text with
    | '+' :: rest => rest
    | _ => text
  (readDigits? digits).filter (· < UInt64.size)

end Teleop.Numeric
