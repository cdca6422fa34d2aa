import Teleop.Json.Number
import Teleop.Json.Quoted

/-!
# Reading documents

A text is one document with blanks around its parts. The depth of nesting is not bounded here. The
reader takes at most two steps for a character, so the length of the text bounds their number.
-/

namespace Teleop.Json

open Numeric

/-- Whether a character may stand between the parts of a document. -/
def isGap (c : Char) : Bool :=
  c = ' ' || c = '\n' || c = '\t' || c = '\r'

def skipGap (text : List Char) : List Char :=
  text.dropWhile isGap

/-- The digits at the head of a text, if there are any, and what follows them. -/
def takeDigits? (text : List Char) : Option (List Char × List Char) :=
  let digits := text.takeWhile isAsciiDigit
  if digits.isEmpty then none else some (digits, text.drop digits.length)

def takeFraction? : List Char → Option (Option (List Char) × List Char)
  | [] => some (none, [])
  | c :: rest =>
    if c = '.' then (takeDigits? rest).map fun (digits, rest) => (some digits, rest)
    else some (none, c :: rest)

def takeExponent? : List Char → Option (Option (Bool × List Char) × List Char)
  | [] => some (none, [])
  | c :: rest =>
    if c = 'e' || c = 'E' then
      let (negative, unsigned) := readSign rest
      (takeDigits? unsigned).map fun (digits, rest) => (some (negative, digits), rest)
    else some (none, c :: rest)

/-- The number at the head of a text, and what follows it. Only a zero by itself may lead. -/
def takeNumber? (text : List Char) : Option (JsonNumber × List Char) := do
  let negative := text.head? = some '-'
  let (whole, rest) ← takeDigits? (if negative then text.drop 1 else text)
  guard (whole.head? ≠ some '0' ∨ whole.length = 1)
  let (fraction, rest) ← takeFraction? rest
  let (exponent, rest) ← takeExponent? rest
  return (⟨negative, whole, fraction, exponent⟩, rest)

def dropWord? (word : String) (text : List Char) : Option (List Char) :=
  if word.toList.isPrefixOf text then some (text.drop word.length) else none

mutual

/-- The document at the head of a text, and what follows it. -/
def takeValue? : Nat → List Char → Option (Json × List Char)
  | 0, _ => none
  | fuel + 1, text =>
    match skipGap text with
    | [] => none
    | c :: rest =>
      if c = '\x7b' then
        match skipGap rest with
        | '\x7d' :: rest => some (object [], rest)
        | rest => (takeMembers? fuel rest).map fun (members, rest) => (object members, rest)
      else if c = '[' then
        match skipGap rest with
        | ']' :: rest => some (array [], rest)
        | rest => (takeElements? fuel rest).map fun (elements, rest) => (array elements, rest)
      else if c = '"' then (takeQuoted? rest).map fun (text, rest) => (string text, rest)
      else if c = 'n' then (dropWord? "null" (c :: rest)).map (null, ·)
      else if c = 't' then (dropWord? "true" (c :: rest)).map (bool true, ·)
      else if c = 'f' then (dropWord? "false" (c :: rest)).map (bool false, ·)
      else (takeNumber? (c :: rest)).map fun (n, rest) => (number n, rest)

/-- The elements up to the closing bracket, of which there is at least one. -/
def takeElements? : Nat → List Char → Option (List Json × List Char)
  | 0, _ => none
  | fuel + 1, text => do
    let (element, rest) ← takeValue? fuel text
    match skipGap rest with
    | ',' :: rest => (takeElements? fuel rest).map fun (more, rest) => (element :: more, rest)
    | ']' :: rest => some ([element], rest)
    | _ => none

/-- The members up to the closing brace, of which there is at least one. -/
def takeMembers? : Nat → List Char → Option (List (List Char × Json) × List Char)
  | 0, _ => none
  | fuel + 1, text =>
    match skipGap text with
    | '"' :: rest => do
      let (name, rest) ← takeQuoted? rest
      match skipGap rest with
      | ':' :: rest =>
        let (value, rest) ← takeValue? fuel rest
        match skipGap rest with
        | ',' :: rest =>
          (takeMembers? fuel rest).map fun (more, rest) => ((name, value) :: more, rest)
        | '\x7d' :: rest => some ([(name, value)], rest)
        | _ => none
      | _ => none
    | _ => none

end

def read? (text : List Char) : Option Json :=
  match takeValue? (2 * text.length + 1) text with
  | some (value, rest) => if (skipGap rest).isEmpty then some value else none
  | none => none

def readString? (s : String) : Option Json :=
  read? s.toList

end Teleop.Json
