import Teleop.Numeric.Binary

/-!
# Arithmetic of binary formats

Each operation takes the exact result of its operands and rounds once. A value that is not a number
makes every result one and satisfies no comparison; the two zeros are equal and keep their signs
through products.
-/

namespace Teleop.Numeric.Binary

variable {f : Format}

def isNaN : Binary f → Bool
  | nan => true
  | _ => false

/-- Whether a value is neither infinite nor not a number. -/
def isFinite : Binary f → Bool
  | finite _ _ _ => true
  | _ => false

def neg : Binary f → Binary f
  | nan => nan
  | infinite s => infinite (!s)
  | finite s q h => finite (!s) q h

/-- A number of quanta with its sign. -/
def signed (negative : Bool) (quanta : Nat) : Int :=
  if negative then -quanta else quanta

/-- The sum. Operands that cancel give the positive zero. -/
def add : Binary f → Binary f → Binary f
  | nan, _ | _, nan => nan
  | infinite s, infinite t => if s = t then infinite s else nan
  | infinite s, finite _ _ _ => infinite s
  | finite _ _ _, infinite t => infinite t
  | finite s q _, finite t r _ =>
    let sum := signed s q + signed t r
    if sum = 0 then zero (s && t) else ofQuanta (sum < 0) sum.natAbs 1

def mul : Binary f → Binary f → Binary f
  | nan, _ | _, nan => nan
  | infinite s, infinite t => infinite (s != t)
  | infinite s, finite t q _ | finite t q _, infinite s =>
    if q = 0 then nan else infinite (s != t)
  | finite s q _, finite t r _ => ofQuanta (s != t) (q * r) (2 ^ f.unitShift)

def div : Binary f → Binary f → Binary f
  | nan, _ | _, nan => nan
  | infinite _, infinite _ => nan
  | infinite s, finite t _ _ => infinite (s != t)
  | finite s _ _, infinite t => zero (s != t)
  | finite s q _, finite t r _ =>
    if r = 0 then if q = 0 then nan else infinite (s != t)
    else ofQuanta (s != t) (q * 2 ^ f.unitShift) r

instance : Neg (Binary f) := ⟨neg⟩
instance : Add (Binary f) := ⟨add⟩
instance : Mul (Binary f) := ⟨mul⟩
instance : Div (Binary f) := ⟨div⟩

/-- Whether the first value is a number at most the second. -/
def le : Binary f → Binary f → Bool
  | nan, _ | _, nan => false
  | infinite s, infinite t => s || !t
  | infinite s, finite _ _ _ => s
  | finite _ _ _, infinite t => !t
  | finite s q _, finite t r _ => signed s q ≤ signed t r

def lt (a b : Binary f) : Bool :=
  le a b && !le b a

/-- Whether two values are numbers of one size. -/
def equals (a b : Binary f) : Bool :=
  le a b && le b a

/-- A value brought between two bounds; what is not a number stays so. -/
def clamp (a low high : Binary f) : Binary f :=
  let a := if lt a low then low else a
  if lt high a then high else a

def convert {g : Format} : Binary f → Binary g
  | nan => nan
  | infinite s => infinite s
  | finite s q _ => ofQuanta s (q * 2 ^ g.unitShift) (2 ^ f.unitShift)

def toInt? : Binary f → Option Int
  | finite s q _ =>
    if q % 2 ^ f.unitShift = 0 then some (signed s (q / 2 ^ f.unitShift)) else none
  | _ => none

/-- The natural number nearest to a value, a half going up, kept between zero and `bound`. What is
not a number counts as zero. -/
def toNatWithin (bound : Nat) : Binary f → Nat
  | nan => 0
  | infinite s => if s then 0 else bound
  | finite s q _ => if s then 0 else min bound ((2 * q + 2 ^ f.unitShift) / (2 * 2 ^ f.unitShift))

end Teleop.Numeric.Binary
