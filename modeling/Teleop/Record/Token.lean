import Teleop.Record.Fields
import Teleop.Token.Basic

/-!
# Tokens as records

A token is the string of its wire text.
-/

namespace Teleop.Token

def toJson (t : Token) : Json :=
  .ofChars t.chars

def ofJson? : Json → Option Token
  | .string text => (Json.unescape? text).bind ofChars?
  | _ => none

end Teleop.Token
