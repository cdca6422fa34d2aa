import Teleop.Text.Spans

/-!
# Blank characters

The characters with the property `White_Space`: the control characters from tab to carriage return,
the space, the next line character, and the spaces of other scripts. Zero-width spaces and joiners
are not blank.
-/

namespace Teleop.Text

/-- The code points with the property `White_Space`. -/
def blankSpans : Spans :=
  [(0x9, 0xD), (0x20, 0x20), (0x85, 0x85), (0xA0, 0xA0), (0x1680, 0x1680), (0x2000, 0x200A),
   (0x2028, 0x2029), (0x202F, 0x202F), (0x205F, 0x205F), (0x3000, 0x3000)]

def isBlank (c : Char) : Bool :=
  blankSpans.has c.toNat

end Teleop.Text
