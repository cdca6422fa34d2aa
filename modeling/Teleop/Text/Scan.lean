import Teleop.Text.CaseFold
import Teleop.Text.WordChar

/-!
# Scanning a text for occurrences

A recogniser looks at one place of a text, given the character before the place and the text from it,
and says how many characters it takes there. A scan walks from left to right, takes the first
occurrence it meets, and goes on behind it. Its pieces put together again are the text.
-/

namespace Teleop.Text

/-- What is recognised at a place: a value and the number of characters taken, which is not zero. -/
abbrev Recogniser (α : Type) := Option Char → List Char → Option (α × Nat)

inductive Piece (α : Type) where
  | plain (c : Char)
  | found (value : α) (text : List Char)

namespace Piece

def chars {α : Type} : Piece α → List Char
  | plain c => [c]
  | found _ text => text

def value? {α : Type} : Piece α → Option α
  | plain _ => none
  | found value _ => some value

end Piece

/-- The pieces of a text behind the character `before`, of which `skip` characters still belong to the
occurrence that was found last. A recogniser that takes nothing has found nothing. -/
def scanFrom {α : Type} (recognise : Recogniser α) : Nat → Option Char → List Char → List (Piece α)
  | _, _, [] => []
  | skip + 1, _, c :: rest => scanFrom recognise skip (some c) rest
  | 0, before, c :: rest =>
    match recognise before (c :: rest) with
    | some (value, taken + 1) =>
      .found value (c :: rest.take taken) :: scanFrom recognise taken (some c) rest
    | _ => .plain c :: scanFrom recognise 0 (some c) rest

def scan {α : Type} (recognise : Recogniser α) (text : List Char) : List (Piece α) :=
  scanFrom recognise 0 none text

/-- The stretches of a scanned text between its occurrences, empty ones included. -/
def stretches {α : Type} : List (Piece α) → List (List Char)
  | [] => [[]]
  | .plain c :: rest => (stretches rest).modifyHead (c :: ·)
  | .found _ _ :: rest => [] :: stretches rest

/-- Whether a text begins with some letters, in any case. -/
def startsWithLetters : List Char → List Char → Bool
  | [], _ => true
  | _ :: _, [] => false
  | a :: letters, c :: text => sameLetter a c && startsWithLetters letters text

/-- Whether a boundary between words lies behind the first `taken` characters of a text. -/
def boundaryBehind (text : List Char) (taken : Nat) : Bool :=
  isBoundary text[taken - 1]? text[taken]?

/-- Whether some letters stand at a place with a boundary on each side. -/
def isWordAt (before : Option Char) (text letters : List Char) : Bool :=
  isBoundary before text.head? && startsWithLetters letters text &&
    boundaryBehind text letters.length

end Teleop.Text
