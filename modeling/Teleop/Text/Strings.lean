import Teleop.Text.Words

/-!
# Texts held as strings

Records of the library hold their texts as strings; the rules work on the characters. These are the
rules that records use, taken over to strings.
-/

namespace Teleop.Text

/-- The collapsed form of a string: its words in lower case with one space between each two. -/
def collapseString (s : String) : String :=
  String.ofList (collapse s.toList)

def trimString (s : String) : String :=
  String.ofList (trim s.toList)

end Teleop.Text
