import Teleop.Json.Quoted
import Teleop.Yaml.Scalar

/-!
# Names, tags and directives

An anchor gives a node a name and an alias stands for the node of a name. A tag gives a type by a handle
and a suffix, or as a whole between angle brackets. A directive, at the beginning of a line before a
document, tells the version of the format or declares a handle. What is read here is checked for its
form; of a tag only the handle is kept.
-/

namespace Teleop.Yaml

def isNameChar (c : Char) : Bool :=
  c.isAlphanum || c = '-' || c = '_'

/-- Whether a character, or the end of the text, may follow a name. -/
def endsName (c : Option Char) : Bool :=
  isGapOrEnd c || c.any "?:,]\x7d%@`".toList.contains

def isSuffixChar (inBrackets : Bool) (c : Char) : Bool :=
  isNameChar c || ";/?:@&=+$.!~*'()".toList.contains c ||
    (inBrackets && (c = ',' || c = '[' || c = ']'))

/-- The text behind the suffix of a tag, in which other characters are written by a percent sign and
two hexadecimal digits. -/
def dropSuffix? (inBrackets : Bool) : List Char → Option (List Char)
  | '%' :: c :: d :: rest =>
    if (Json.hexValue? c).isSome && (Json.hexValue? d).isSome then dropSuffix? inBrackets rest
    else none
  | '%' :: _ => none
  | c :: rest => if isSuffixChar inBrackets c then dropSuffix? inBrackets rest else some (c :: rest)
  | [] => some []

def takeName? (here : Cursor) : Option (List Char × Cursor) :=
  let name := here.rest.takeWhile isNameChar
  let behind := here.skip name.length
  if !name.isEmpty && endsName behind.rest.head? then some (name, behind) else none

/-- Reads a handle: an exclamation mark, and a name with another one if there is one. -/
def takeHandle? (here : Cursor) : Option (List Char × Cursor) :=
  match here.rest with
  | '!' :: rest =>
    let name := rest.takeWhile isNameChar
    match rest.drop name.length with
    | '!' :: _ => some ('!' :: name ++ ['!'], here.skip (name.length + 2))
    | _ => some (['!'], here.skip 1)
  | _ => none

def skipSuffix? (inBrackets : Bool) (here : Cursor) : Option Cursor := do
  let rest ← dropSuffix? inBrackets here.rest
  return here.skip (here.rest.length - rest.length)

/-- Reads a tag. The result has the handle, which is empty where the tag is between angle brackets. Only
behind the single exclamation mark may the suffix be empty. -/
def takeTag? (here : Cursor) : Option (List Char × Cursor) :=
  match here.rest with
  | '!' :: '<' :: _ => do
    let behind ← skipSuffix? true (here.skip 2)
    guard (here.column + 2 < behind.column && behind.rest.head? = some '>')
    return ([], behind.skip 1)
  | _ => do
    let (handle, suffix) ← takeHandle? here
    let behind ← skipSuffix? false suffix
    guard (handle = ['!'] || suffix.column < behind.column)
    return (handle, behind)

inductive Directive where
  | version
  | handle (name : List Char)
deriving DecidableEq, Repr

/-- Whether some text is a version that can be read, which is 1.1 or 1.2. -/
def isKnownVersion (text : List Char) : Bool :=
  let major := text.takeWhile Numeric.isAsciiDigit
  let minor := (text.drop (major.length + 1)).takeWhile Numeric.isAsciiDigit
  text = major ++ '.' :: minor && major.length ≤ 9 && minor.length ≤ 9 &&
    Numeric.ofDigits major = 1 && (Numeric.ofDigits minor = 1 || Numeric.ofDigits minor = 2)

/-- Whether some text is a handle with the text that it stands for. -/
def declaredHandle? (text : List Char) : Option (List Char) := do
  let (handle, behind) ← takeHandle? ⟨0, 0, text⟩
  let stands := behind.rest.dropWhile isSpace
  guard (isSpace (behind.rest.headD '!') && !stands.isEmpty)
  guard (← dropSuffix? true stands).isEmpty
  return handle

def directive? (line : List Char) : Option Directive := do
  let name := line.takeWhile (!isSpace ·)
  let behind := (line.drop name.length).dropWhile isSpace
  let content := behind.takeWhile (· ≠ '#')
  let arguments := (content.reverse.dropWhile isSpace).reverse
  match String.ofList name with
  | "YAML" => if isKnownVersion arguments then some .version else none
  | "TAG" => (declaredHandle? arguments).map .handle
  | _ => none

end Teleop.Yaml
