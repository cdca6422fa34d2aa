/-!
# Sets of code points given by spans

A character property is a list of spans of code points in ascending order. Membership stops at the
first span that begins behind the code point, so a small code point is decided at the head of the
list.
-/

namespace Teleop.Text

/-- Spans `(first, last)` of code points, both ends included, in ascending order. -/
abbrev Spans := List (Nat × Nat)

namespace Spans

def has : Spans → Nat → Bool
  | [], _ => false
  | (first, last) :: rest, n => first ≤ n && (n ≤ last || has rest n)

/-- Each span is not empty and ends before the next begins. -/
def ascending : Spans → Bool
  | [] => true
  | [(first, last)] => first ≤ last
  | (first, last) :: (next, last') :: rest =>
    first ≤ last && last < next && ascending ((next, last') :: rest)

end Spans

end Teleop.Text
