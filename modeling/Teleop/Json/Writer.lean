import Teleop.Json.Number
import Teleop.Json.Quoted

/-!
# Writing documents

The compact form has no blanks. The indented form puts each element and member on its own line, two
spaces deeper than its container; an empty container has no lines.
-/

namespace Teleop

def JsonNumber.chars (n : JsonNumber) : List Char :=
  (if n.negative then ['-'] else []) ++ n.whole ++
    (match n.fraction with
      | none => []
      | some digits => '.' :: digits) ++
    (match n.exponent with
      | none => []
      | some (negative, digits) => 'e' :: (if negative then '-' else '+') :: digits)

namespace Json

def quote (text : List Char) : List Char :=
  '"' :: text ++ ['"']

mutual

def compact : Json → List Char
  | null => "null".toList
  | bool b => (if b then "true" else "false").toList
  | number n => n.chars
  | string text => quote text
  | array elements => '[' :: compactElements elements ++ [']']
  | object members => '\x7b' :: compactMembers members ++ ['\x7d']

/-- The compact texts of elements with commas between them. -/
def compactElements : List Json → List Char
  | [] => []
  | [e] => compact e
  | e :: rest => compact e ++ ',' :: compactElements rest

def compactMembers : List (List Char × Json) → List Char
  | [] => []
  | [(name, value)] => quote name ++ ':' :: compact value
  | (name, value) :: rest => quote name ++ ':' :: compact value ++ ',' :: compactMembers rest

end

/-- A line break and the indentation of a depth. -/
def breakLine (depth : Nat) : List Char :=
  '\n' :: List.replicate (2 * depth) ' '

mutual

/-- The indented text of a document that stands at a depth. -/
def indentedAt (depth : Nat) : Json → List Char
  | array [] => "[]".toList
  | array (e :: rest) =>
    '[' :: indentedElements (depth + 1) (e :: rest) ++ breakLine depth ++ [']']
  | object [] => ['\x7b', '\x7d']
  | object (m :: rest) =>
    '\x7b' :: indentedMembers (depth + 1) (m :: rest) ++ breakLine depth ++ ['\x7d']
  | null => "null".toList
  | bool b => (if b then "true" else "false").toList
  | number n => n.chars
  | string text => quote text

/-- The indented texts of elements, each on its own line. -/
def indentedElements (depth : Nat) : List Json → List Char
  | [] => []
  | [e] => breakLine depth ++ indentedAt depth e
  | e :: rest => breakLine depth ++ indentedAt depth e ++ ',' :: indentedElements depth rest

def indentedMembers (depth : Nat) : List (List Char × Json) → List Char
  | [] => []
  | [(name, value)] => breakLine depth ++ quote name ++ ": ".toList ++ indentedAt depth value
  | (name, value) :: rest =>
    breakLine depth ++ quote name ++ ": ".toList ++ indentedAt depth value ++
      ',' :: indentedMembers depth rest

end

def compactString (j : Json) : String :=
  String.ofList j.compact

def indentedString (j : Json) : String :=
  String.ofList (j.indentedAt 0)

end Json

end Teleop
