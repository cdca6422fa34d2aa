import Teleop.Numeric.Decimal

/-!
# JSON documents

A document is kept as it is written: a number by its digits, a string by the characters between its
quotes, the members of an object in order and with repetitions. What a number or a string means is
decided where it is needed, so that a member nobody asks for need not mean anything.
-/

namespace Teleop

open Numeric

/-- A number as it is written: a sign, the digits before the point, the digits behind it if there is
one, and the exponent with its sign if there is one. -/
structure JsonNumber where
  negative : Bool
  whole : List Char
  fraction : Option (List Char)
  exponent : Option (Bool × List Char)
deriving DecidableEq

inductive Json where
  | null
  | bool (value : Bool)
  | number (text : JsonNumber)
  | string (text : List Char)
  | array (elements : List Json)
  | object (members : List (List Char × Json))

end Teleop
