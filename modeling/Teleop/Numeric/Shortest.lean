import Teleop.Numeric.Decimal

/-!
# The shortest decimal that reads back

The decimals with a given number of digits that lie around a magnitude form a grid. The shortest
decimal of a magnitude is taken from the coarsest grid that has a point which reads back as the
magnitude; only the two points next to the magnitude can be nearest, and of two that read back the
nearer one is taken. Which of two equally near points is taken is the choice of the format that writes
the number.
-/

namespace Teleop.Numeric

/-- Which of two equally near decimals is taken. -/
inductive Tie where
  | up
  | even
deriving DecidableEq, Repr

/-- The point of the grid with `exponent` that is next to `num / den` and satisfies `readsBack`; of two
such points the nearer one. -/
def gridPoint? (tie : Tie) (readsBack : Decimal → Bool) (num den : Nat) (exponent : Int) :
    Option Decimal :=
  let (n, d) := match exponent with
    | .ofNat e => (num, den * 10 ^ e)
    | .negSucc e => (num * 10 ^ (e + 1), den)
  let below : Decimal := ⟨n / d, exponent⟩
  let above : Decimal := ⟨n / d + 1, exponent⟩
  let rest := n % d
  match readsBack below, readsBack above with
  | true, true =>
    if 2 * rest < d then some below
    else if d < 2 * rest then some above
    else match tie with
      | .up => some above
      | .even => if n / d % 2 = 0 then some below else some above
  | true, false => some below
  | false, true => some above
  | false, false => none

/-- The exponent of the next power of ten above a quotient, or of a power of ten that the quotient
itself is. -/
def exponentAbove (num den : Nat) : Int :=
  if den ≤ num then (toDigits (num / den)).length
  else 1 - (toDigits (den / num)).length

/-- The grids to try: the one that has the power of ten above the magnitude, and those of one to
seventeen digits, which are enough for the interchange formats. -/
def gridCount : Nat := 18

namespace Binary

variable {f : Format}

/-- Whether a decimal reads as a magnitude of the format. -/
def readsAs (f : Format) (quanta : Nat) (d : Decimal) : Bool :=
  let (num, den) := d.ratio
  f.nearest (num * 2 ^ f.unitShift) den = quanta

/-- The shortest decimal of a magnitude. The exact expansion stands behind the grids, so there is
always an answer and every answer reads back. -/
def shortest (f : Format) (tie : Tie) (quanta : Nat) : Decimal :=
  let top := exponentAbove quanta (2 ^ f.unitShift)
  let grids := (List.range gridCount).findSome? fun (n : Nat) =>
    gridPoint? tie (readsAs f quanta) quanta (2 ^ f.unitShift) (top - n)
  grids.getD ⟨quanta * 5 ^ f.unitShift, -f.unitShift⟩

/-- The plain text of a value: the shortest decimal that reads back, in positional notation. A tie
goes up. -/
def plain : Binary f → List Char
  | nan => ['N', 'a', 'N']
  | infinite s => if s then ['-', 'i', 'n', 'f'] else ['i', 'n', 'f']
  | finite s q _ =>
    let digits := if q = 0 then ['0'] else (shortest f .up q).positional
    if s then '-' :: digits else digits

def plainString (a : Binary f) : String :=
  String.ofList a.plain

end Binary

end Teleop.Numeric
