import Teleop.Json.Basic

/-!
# Quoted strings

The characters between the quotes of a string. A quote, a backslash and a control character are
written as escapes; reading also accepts the escape of a slash and escapes of code units by four
hexadecimal digits, where a character outside the first plane takes two. An escaped half of such a
pair that stands alone is well written and means nothing.
-/

namespace Teleop.Json

def hexDigits : List Char :=
  "0123456789abcdef".toList

/-- The value of a hexadecimal digit in either case. -/
def hexValue? (c : Char) : Option Nat :=
  hexDigits.idxOf? c <|> "0123456789ABCDEF".toList.idxOf? c

/-- The letters of the short escapes, with what they stand for. -/
def shortEscapes : List (Char × Char) :=
  [('"', '"'), ('\\', '\\'), ('b', '\x08'), ('f', '\x0c'), ('n', '\n'), ('r', '\r'), ('t', '\t')]

/-- A character as it is written between quotes. -/
def escapeChar (c : Char) : List Char :=
  match shortEscapes.find? (·.2 = c) with
  | some (letter, _) => ['\\', letter]
  | none =>
    if c.toNat < 0x20 then
      ['\\', 'u', '0', '0', hexDigits[c.toNat / 16]?.getD '0', hexDigits[c.toNat % 16]?.getD '0']
    else [c]

def escape (text : List Char) : List Char :=
  text.flatMap escapeChar

/-- What a letter stands for behind a backslash. -/
def shortEscape? (letter : Char) : Option Char :=
  if letter = '/' then some '/' else shortEscapes.lookup letter

/-- The code unit that four hexadecimal digits denote. -/
def codeUnit? (a b c d : Char) : Option Nat := do
  return ((← hexValue? a) * 16 + (← hexValue? b)) * 256 + (← hexValue? c) * 16 + (← hexValue? d)

/-- Takes the characters up to the closing quote, and what follows it. Each escape must be well
written, and control characters must be escaped. -/
def takeQuoted? : List Char → Option (List Char × List Char)
  | [] => none
  | c :: rest =>
    if c = '"' then some ([], rest)
    else if c = '\\' then
      match rest with
      | [] => none
      | letter :: rest =>
        if letter = 'u' then
          match rest with
          | h₁ :: h₂ :: h₃ :: h₄ :: rest =>
            if (codeUnit? h₁ h₂ h₃ h₄).isSome then
              (takeQuoted? rest).map fun (text, behind) =>
                (c :: letter :: h₁ :: h₂ :: h₃ :: h₄ :: text, behind)
            else none
          | _ => none
        else if (shortEscape? letter).isSome then
          (takeQuoted? rest).map fun (text, behind) => (c :: letter :: text, behind)
        else none
    else if c.toNat < 0x20 then none
    else (takeQuoted? rest).map fun (text, behind) => (c :: text, behind)

/-- The code units and code points that a quoted text denotes. -/
def codes? : List Char → Option (List Nat)
  | [] => some []
  | c :: rest =>
    if c = '\\' then
      match rest with
      | [] => none
      | letter :: rest =>
        if letter = 'u' then
          match rest with
          | h₁ :: h₂ :: h₃ :: h₄ :: rest => do
            let unit ← codeUnit? h₁ h₂ h₃ h₄
            return unit :: (← codes? rest)
          | _ => none
        else do
          let c ← shortEscape? letter
          return c.toNat :: (← codes? rest)
    else (codes? rest).map (c.toNat :: ·)

/-- Whether a code unit is the first half of a pair. -/
def isHighHalf (unit : Nat) : Bool :=
  0xD800 ≤ unit && unit < 0xDC00

def isLowHalf (unit : Nat) : Bool :=
  0xDC00 ≤ unit && unit < 0xE000

/-- The characters of some code units and code points, pairs joined; a half alone has no meaning. -/
def ofCodes? : List Nat → Option (List Char)
  | [] => some []
  | unit :: rest =>
    if isHighHalf unit then
      match rest with
      | [] => none
      | low :: rest =>
        if isLowHalf low then
          (ofCodes? rest).map (Char.ofNat (0x10000 + (unit - 0xD800) * 0x400 + (low - 0xDC00)) :: ·)
        else none
    else if isLowHalf unit then none
    else (ofCodes? rest).map (Char.ofNat unit :: ·)

def unescape? (text : List Char) : Option (List Char) :=
  (codes? text).bind ofCodes?

def ofChars (text : List Char) : Json :=
  .string (escape text)

def ofString (s : String) : Json :=
  ofChars s.toList

def ofMembers (members : List (String × Json)) : Json :=
  .object (members.map fun (name, value) => (escape name.toList, value))

/-- The object of some members, put in the order of their names. -/
def ofMembersByName (members : List (String × Json)) : Json :=
  ofMembers (members.mergeSort fun a b => a.1 ≤ b.1)

end Teleop.Json
