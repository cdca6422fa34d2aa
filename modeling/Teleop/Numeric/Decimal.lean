import Teleop.Numeric.Arithmetic

/-!
# Decimal numbers and their digits

A decimal number is a natural number of units of a power of ten. Reading one into a binary format
rounds its exact value once. An exponent too large or too small for the format is decided without
building the power of ten.
-/

namespace Teleop.Numeric

/-- The number `digits · 10 ^ exponent`. -/
structure Decimal where
  digits : Nat
  exponent : Int
deriving DecidableEq, Repr

def isAsciiDigit (c : Char) : Bool :=
  '0' ≤ c && c ≤ '9'

def digitValue (c : Char) : Nat :=
  c.toNat - '0'.toNat

/-- The natural number that a row of ASCII digits denotes. -/
def ofDigits (digits : List Char) : Nat :=
  digits.foldl (fun n c => 10 * n + digitValue c) 0

/-- The ASCII digits of a natural number, without leading zeros. -/
def toDigits (n : Nat) : List Char :=
  Nat.toDigits 10 n

namespace Decimal

/-- The exact value as a quotient of naturals. -/
def ratio (d : Decimal) : Nat × Nat :=
  match d.exponent with
  | .ofNat e => (d.digits * 10 ^ e, 1)
  | .negSucc e => (d.digits, 10 ^ (e + 1))

/-- Positional notation: all digits, a point only where digits follow it, never an exponent. -/
def positional (d : Decimal) : List Char :=
  let ds := toDigits d.digits
  match d.exponent with
  | .ofNat e => if d.digits = 0 then ['0'] else ds ++ List.replicate e '0'
  | .negSucc e =>
    if e + 1 < ds.length then
      ds.take (ds.length - (e + 1)) ++ '.' :: ds.drop (ds.length - (e + 1))
    else '0' :: '.' :: List.replicate (e + 1 - ds.length) '0' ++ ds

end Decimal

namespace Binary

variable {f : Format}

/-- The value nearest to a decimal number with a sign. From the exponent `f.width` on every number but
zero is out of range, and a number with fewer bits than half a quantum needs is zero. -/
def ofDecimal (negative : Bool) (d : Decimal) : Binary f :=
  if d.digits = 0 then zero negative
  else match d.exponent with
    | .ofNat e =>
      if f.width ≤ e then infinite negative else ofRatio negative (d.digits * 10 ^ e) 1
    | .negSucc e =>
      if d.digits.log2 + f.unitShift + 2 ≤ 3 * (e + 1) then zero negative
      else ofRatio negative d.digits (10 ^ (e + 1))

end Binary

end Teleop.Numeric
