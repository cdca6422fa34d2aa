/-!
# Binary floating-point formats

A finite magnitude of a binary format is a whole number of quanta, the quantum being the smallest
positive magnitude. A number of quanta is representable when it is a multiple of the spacing of its
binade and below the bound of the format. So each value has one form, sums are exact before they are
rounded, and one rounding function serves all operations: a quotient of naturals goes to the nearest
representable magnitude, a tie to the even multiple of the spacing.

Main statement: a rounded quotient is representable unless it has left the range
(`Format.isMultiple_nearest`).
-/

namespace Teleop.Numeric

-- Powers of naturals are those of the core library, also where algebra has others.
attribute [scoped instance (high)] instPowNat

/-- A binary format: `precision` significant bits, one as `2 ^ unitShift` quanta, and all finite
magnitudes below `2 ^ width` quanta. -/
structure Format where
  precision : Nat
  unitShift : Nat
  width : Nat
  precision_pos : 0 < precision := by decide
deriving DecidableEq

def binary64 : Format where
  precision := 53
  unitShift := 1074
  width := 2098

def binary32 : Format where
  precision := 24
  unitShift := 149
  width := 277

/-- The natural number nearest to a quotient, the even one of two equally near. -/
def nearestEven (num den : Nat) : Nat :=
  let below := num / den
  let rest := num % den
  if 2 * rest < den then below
  else if den < 2 * rest then below + 1
  else below + below % 2

theorem div_le_nearestEven (num den : Nat) : num / den ≤ nearestEven num den := by
  grind [nearestEven]

theorem nearestEven_le (num den : Nat) : nearestEven num den ≤ num / den + 1 := by
  grind [nearestEven]

namespace Format

/-- The binary exponent of the spacing of representable magnitudes around `quanta`. -/
def spacing (f : Format) (quanta : Nat) : Nat :=
  quanta.log2 + 1 - f.precision

/-- Whether a magnitude needs no more significant bits than the format has. -/
def IsMultiple (f : Format) (quanta : Nat) : Prop :=
  quanta % 2 ^ f.spacing quanta = 0

/-- Whether a magnitude is a finite magnitude of the format. -/
def Representable (f : Format) (quanta : Nat) : Prop :=
  f.IsMultiple quanta ∧ quanta < 2 ^ f.width

instance (f : Format) (quanta : Nat) : Decidable (f.IsMultiple quanta) :=
  inferInstanceAs (Decidable (_ = _))

instance (f : Format) (quanta : Nat) : Decidable (f.Representable quanta) :=
  inferInstanceAs (Decidable (_ ∧ _))

/-- The magnitude of the format, without regard to its range, that is nearest to a quotient. -/
def nearest (f : Format) (num den : Nat) : Nat :=
  let s := f.spacing (num / den)
  nearestEven num (den * 2 ^ s) * 2 ^ s

theorem isMultiple_of_lt (f : Format) {m : Nat} (h : m < 2 ^ f.precision) : f.IsMultiple m := by
  have hs : f.spacing m = 0 := by
    have : m.log2 < f.precision := by
      by_cases hm : m = 0
      · simpa [hm] using f.precision_pos
      · exact (Nat.log2_lt hm).2 h
    simp only [spacing]
    omega
  simp [IsMultiple, hs, Nat.mod_one]

theorem isMultiple_mul_pow (f : Format) {m s : Nat} (h : m ≤ 2 ^ f.precision) :
    f.IsMultiple (m * 2 ^ s) := by
  have hp := f.precision_pos
  by_cases h0 : m = 0
  · simp [IsMultiple, h0]
  have hpos : m * 2 ^ s ≠ 0 := Nat.mul_ne_zero h0 (Nat.ne_of_gt (Nat.two_pow_pos s))
  rcases Nat.lt_or_eq_of_le h with hlt | heq
  · have hle : (m * 2 ^ s).log2 < f.precision + s := by
      rw [Nat.log2_lt hpos, Nat.pow_add]
      exact Nat.mul_lt_mul_of_pos_right hlt (Nat.two_pow_pos s)
    have hs : f.spacing (m * 2 ^ s) ≤ s := by
      simp only [spacing]
      omega
    exact Nat.mod_eq_zero_of_dvd (Nat.dvd_trans (Nat.pow_dvd_pow 2 hs) (Nat.dvd_mul_left _ _))
  · subst heq
    rw [IsMultiple, ← Nat.pow_add]
    have hs : f.spacing (2 ^ (f.precision + s)) ≤ f.precision + s := by
      simp only [spacing, Nat.log2_two_pow]
      omega
    exact Nat.mod_eq_zero_of_dvd (Nat.pow_dvd_pow 2 hs)

theorem isMultiple_nearest (f : Format) (num den : Nat) : f.IsMultiple (f.nearest num den) := by
  apply isMultiple_mul_pow
  have hup := nearestEven_le num (den * 2 ^ f.spacing (num / den))
  have hq : num / (den * 2 ^ f.spacing (num / den)) < 2 ^ f.precision := by
    rw [← Nat.div_div_eq_div_mul]
    have hb : num / den < 2 ^ (f.precision + f.spacing (num / den)) := by
      refine Nat.lt_of_lt_of_le Nat.lt_log2_self (Nat.pow_le_pow_right (by decide) ?_)
      simp only [spacing]
      omega
    rw [Nat.pow_add] at hb
    exact Nat.div_lt_of_lt_mul (by rwa [Nat.mul_comm] at hb)
  omega

end Format

/-- A value of a binary format: not a number, an infinity, or a signed number of quanta. -/
inductive Binary (f : Format) where
  | nan
  | infinite (negative : Bool)
  | finite (negative : Bool) (quanta : Nat) (representable : f.Representable quanta)
deriving DecidableEq

namespace Binary

variable {f : Format}

def zero (negative : Bool) : Binary f :=
  .finite negative 0 ⟨f.isMultiple_of_lt (Nat.two_pow_pos _), Nat.two_pow_pos _⟩

/-- The value nearest to a quotient of quanta; a magnitude that has left the range is infinite. -/
def ofQuanta (negative : Bool) (num den : Nat) : Binary f :=
  if h : f.nearest num den < 2 ^ f.width then
    .finite negative (f.nearest num den) ⟨f.isMultiple_nearest num den, h⟩
  else .infinite negative

def ofRatio (negative : Bool) (num den : Nat) : Binary f :=
  ofQuanta negative (num * 2 ^ f.unitShift) den

def ofInt (n : Int) : Binary f :=
  ofRatio (n < 0) n.natAbs 1

instance (n : Nat) : OfNat (Binary f) n := ⟨ofInt n⟩

end Binary

abbrev Binary64 := Binary binary64

abbrev Binary32 := Binary binary32

end Teleop.Numeric
