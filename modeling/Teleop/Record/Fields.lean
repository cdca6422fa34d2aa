import Teleop.Json.Number
import Teleop.Json.Quoted

/-!
# Fields of records

Records are read from documents. A record is an object, of which unknown members are ignored and known
ones may not be repeated, or an array of all its fields in order. A choice is the string of its name,
or an object that maps its name to nothing.
-/

namespace Teleop

namespace Json

open Numeric

def asBool? : Json → Option Bool
  | bool b => some b
  | _ => none

def asString? : Json → Option String
  | string text => (unescape? text).map String.ofList
  | _ => none

/-- The 64-bit natural number that a document is. -/
def asWord? : Json → Option UInt64
  | number n => n.toWord?
  | _ => none

def asBinary64? : Json → Option Binary64
  | number n => n.toBinary64?
  | _ => none

def asBinary32? : Json → Option Binary32
  | number n => n.toBinary32?
  | _ => none

/-- What a document is, where null stands for nothing. -/
def asOptional? {α : Type} (read : Json → Option α) : Json → Option (Option α)
  | null => some none
  | j => (read j).map some

def asList? {α : Type} (read : Json → Option α) : Json → Option (List α)
  | array elements => elements.mapM read
  | _ => none

def isNull : Json → Bool
  | null => true
  | _ => false

def isEmptyObject : Json → Bool
  | object [] => true
  | _ => false

/-- A name with the document it is mapped to, if the document is a name or a mapping of one name. -/
def asTagged? : Json → Option (String × Option Json)
  | string text => (unescape? text).map fun name => (String.ofList name, none)
  | object [(text, value)] => (unescape? text).map fun name => (String.ofList name, some value)
  | _ => none

/-- The choice that a document names; `isNothing` tells what its name may be mapped to. -/
def asChoice? {α : Type} (isNothing : Json → Bool) (choices : List α) (name : α → String)
    (j : Json) : Option α := do
  let (tag, value) ← asTagged? j
  guard (value.all isNothing)
  choices.find? (name · = tag)

/-- The members of an object with their names as strings. -/
def members? : Json → Option (List (String × Json))
  | object members =>
    members.mapM fun (text, value) => (unescape? text).map fun name => (String.ofList name, value)
  | _ => none

end Json

/-- The fields of a record, as far as they are given. In positional form every field must be given. -/
structure Fields where
  given : List (String × Json)
  positional : Bool

namespace Fields

/-- Whether none of some names is given twice. -/
def isUnique (names : List String) (given : List (String × Json)) : Bool :=
  names.all fun name => (given.filter (·.1 = name)).length ≤ 1

def ofMembers? (names : List String) (given : List (String × Json)) : Option Fields :=
  if isUnique names given then some ⟨given, false⟩ else none

def ofJson? (names : List String) : Json → Option Fields
  | .array elements =>
    if elements.length ≤ names.length then some ⟨names.zip elements, true⟩ else none
  | j => j.members?.bind (ofMembers? names)

/-- A field that must be given. -/
def required? {α : Type} (f : Fields) (name : String) (read : Json → Option α) : Option α :=
  (f.given.lookup name).bind read

/-- A field that may be null, and may be left out unless the form is positional. -/
def optional? {α : Type} (f : Fields) (name : String) (read : Json → Option α) :
    Option (Option α) :=
  match f.given.lookup name with
  | some value => Json.asOptional? read value
  | none => if f.positional then none else some none

/-- A field that may be left out, with what it is then. -/
def withDefault? {α : Type} (f : Fields) (name : String) (default : α) (read : Json → Option α) :
    Option α :=
  (f.given.lookup name).elim (some default) read

end Fields

end Teleop
