import Teleop.Text.Strings
import Teleop.Token.Basic

/-!
# Listings of tokens

A listing has one token a line. Blanks around a token are dropped, and lines that are blank or begin
with a number sign are no tokens. The first line that is neither is reported.
-/

namespace Teleop.Token

open Text

/-- The trimmed lines of a listing that ought to be tokens. -/
def listingLines (text : String) : List (List Char) :=
  ((text.toList.splitOnP (· = '\n')).map trim).filter fun line =>
    !line.isEmpty && line.head? ≠ some '#'

/-- The tokens of some lines, or the first line that is no token. -/
def ofLines : List (List Char) → Except String (List Token)
  | [] => .ok []
  | line :: rest =>
    match ofChars? line with
    | none => .error (String.ofList line)
    | some t => (ofLines rest).map (t :: ·)

/-- The tokens of a listing, or its first line that is no token. -/
def ofListing (text : String) : Except String (List Token) :=
  ofLines (listingLines text)

end Teleop.Token
