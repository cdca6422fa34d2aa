import Teleop.Numeric.Decimal

/-!
# Rounding what is exact, too large or too small

A quotient that is a magnitude of the format is rounded to itself (`ofQuanta_eq_finite`), so the naturals
of up to `precision` bits are exact (`exists_ofInt_eq`). Reading a decimal decides exponents far outside
the range without building their powers of ten; that changes nothing (`ofDecimal_eq`), so the value of a
decimal depends on its exact quotient alone.
-/

namespace Teleop.Numeric

theorem nearestEven_mul {m k : Nat} (hk : 0 < k) : nearestEven (m * k) k = m := by
  simp [nearestEven, Nat.mul_div_cancel m hk, hk]

namespace Format

variable {f : Format} {num den m k : Nat}

theorem nearest_of_isMultiple (h : f.IsMultiple m) (hk : 0 < k) : f.nearest (m * k) k = m := by
  obtain ⟨n, hn⟩ := Nat.dvd_of_mod_eq_zero h
  have hscale : 0 < k * 2 ^ f.spacing m := Nat.mul_pos hk (Nat.two_pow_pos _)
  have hnum : m * k = n * (k * 2 ^ f.spacing m) := by
    conv => lhs; rw [hn]
    ac_rfl
  simp only [nearest, Nat.mul_div_cancel m hk]
  rw [hnum, nearestEven_mul hscale, Nat.mul_comm, ← hn]

/-- Less than half a quantum is rounded to nothing. -/
theorem nearest_of_small (h : 2 * num < den) : f.nearest num den = 0 := by
  have hdiv : num / den = 0 := Nat.div_eq_of_lt (by omega)
  have hspacing : f.spacing 0 = 0 := by
    have := f.precision_pos
    simp only [spacing, Nat.log2_zero]
    omega
  have hmod : num % den = num := Nat.mod_eq_of_lt (by omega)
  simp [nearest, hdiv, hspacing, nearestEven, hmod, h]

/-- What lies beyond a power of two is not rounded below it. -/
theorem two_pow_le_nearest (h : 2 ^ k ≤ num / den) : 2 ^ k ≤ f.nearest num den := by
  have hne : num / den ≠ 0 := fun hzero => by
    have := Nat.two_pow_pos k
    omega
  have hlog : 2 ^ k ≤ 2 ^ (num / den).log2 := by
    refine Nat.pow_le_pow_right (by decide) ?_
    exact (Nat.le_log2 hne).mpr h
  have hspacing : f.spacing (num / den) ≤ (num / den).log2 := by
    have := f.precision_pos
    simp only [spacing]
    omega
  have hsplit : 2 ^ (num / den).log2 =
      2 ^ ((num / den).log2 - f.spacing (num / den)) * 2 ^ f.spacing (num / den) := by
    rw [← Nat.pow_add, Nat.sub_add_cancel hspacing]
  calc 2 ^ k
      ≤ 2 ^ ((num / den).log2 - f.spacing (num / den)) * 2 ^ f.spacing (num / den) :=
        hsplit ▸ hlog
    _ ≤ (num / (den * 2 ^ f.spacing (num / den))) * 2 ^ f.spacing (num / den) := by
        refine Nat.mul_le_mul_right _ ?_
        rw [← Nat.div_div_eq_div_mul, Nat.le_div_iff_mul_le (Nat.two_pow_pos _), ← hsplit]
        exact Nat.log2_self_le hne
    _ ≤ f.nearest num den := Nat.mul_le_mul_right _ (div_le_nearestEven _ _)

/-- What lies below a power of two of no fewer bits than the format has is not rounded beyond it. -/
theorem nearest_le_two_pow (h : num / den < 2 ^ k) (hk : f.precision ≤ k) :
    f.nearest num den ≤ 2 ^ k := by
  have hspacing : f.spacing (num / den) ≤ k := by
    have hp := f.precision_pos
    have hlog : (num / den).log2 ≤ k := by
      by_cases hzero : num / den = 0
      · simp [hzero]
      · exact Nat.le_of_lt ((Nat.log2_lt hzero).mpr h)
    simp only [spacing]
    omega
  have hsplit : 2 ^ k = 2 ^ (k - f.spacing (num / den)) * 2 ^ f.spacing (num / den) := by
    rw [← Nat.pow_add, Nat.sub_add_cancel hspacing]
  have hbelow : num / (den * 2 ^ f.spacing (num / den)) < 2 ^ (k - f.spacing (num / den)) := by
    rw [← Nat.div_div_eq_div_mul]
    refine Nat.div_lt_of_lt_mul ?_
    rwa [Nat.mul_comm, ← hsplit]
  calc f.nearest num den
      ≤ (num / (den * 2 ^ f.spacing (num / den)) + 1) * 2 ^ f.spacing (num / den) :=
        Nat.mul_le_mul_right _ (nearestEven_le _ _)
    _ ≤ 2 ^ (k - f.spacing (num / den)) * 2 ^ f.spacing (num / den) :=
        Nat.mul_le_mul_right _ hbelow
    _ = 2 ^ k := hsplit.symm

end Format

theorem Decimal.ratio_zero (e : Int) : (ratio ⟨0, e⟩).1 = 0 := by
  cases e <;> simp [ratio]

theorem Decimal.ratio_pos (d : Decimal) : 0 < d.ratio.2 := by
  obtain ⟨n, e⟩ := d
  cases e with
  | ofNat e => exact Nat.one_pos
  | negSucc e => exact Nat.pow_pos (by decide)

namespace Binary

variable {f : Format} {negative : Bool} {num den m k : Nat}

/-- A quotient with a representable rounding is that magnitude. -/
theorem ofQuanta_of_nearest (h : f.nearest num den = m) (hm : f.Representable m) :
    (ofQuanta negative num den : Binary f) = finite negative m hm := by
  subst h
  rw [ofQuanta, dif_pos hm.2]

theorem ofQuanta_eq_finite (hm : f.Representable m) (hk : 0 < k) :
    (ofQuanta negative (m * k) k : Binary f) = finite negative m hm :=
  ofQuanta_of_nearest (f.nearest_of_isMultiple hm.1 hk) hm

theorem ofQuanta_small (h : 2 * num < den) : (ofQuanta negative num den : Binary f) = zero negative :=
  ofQuanta_of_nearest (Format.nearest_of_small h) _

theorem ofQuanta_large (h : 2 ^ f.width ≤ num / den) :
    (ofQuanta negative num den : Binary f) = infinite negative := by
  rw [ofQuanta, dif_neg (Nat.not_lt.mpr (Format.two_pow_le_nearest h))]

theorem ofInt_natCast (n : Nat) : (ofInt n : Binary f) = ofRatio false n 1 := by
  have hsign : decide ((n : Int) < 0) = false := by simp
  rw [ofInt, hsign, Int.natAbs_natCast]

/-- A natural number that is a magnitude of the format is exact. -/
theorem ofInt_eq_finite (hm : f.Representable (m * 2 ^ f.unitShift)) :
    (ofInt m : Binary f) = finite false (m * 2 ^ f.unitShift) hm := by
  have hexact : (ofQuanta false (m * 2 ^ f.unitShift * 1) 1 : Binary f) = finite false _ hm :=
    ofQuanta_eq_finite hm Nat.one_pos
  rw [Nat.mul_one] at hexact
  rw [ofInt_natCast, ofRatio, hexact]

/-- A natural number of no more bits than the format has is exact. -/
theorem exists_ofInt_eq {n : Nat} (hn : n < 2 ^ f.precision)
    (hroom : f.precision + f.unitShift ≤ f.width) :
    ∃ hr, (ofInt n : Binary f) = finite false (n * 2 ^ f.unitShift) hr := by
  have hr : f.Representable (n * 2 ^ f.unitShift) := by
    refine ⟨f.isMultiple_mul_pow (Nat.le_of_lt hn), ?_⟩
    calc n * 2 ^ f.unitShift
        < 2 ^ f.precision * 2 ^ f.unitShift :=
          Nat.mul_lt_mul_of_pos_right hn (Nat.two_pow_pos _)
      _ = 2 ^ (f.precision + f.unitShift) := (Nat.pow_add ..).symm
      _ ≤ 2 ^ f.width := Nat.pow_le_pow_right (by decide) hroom
  exact ⟨hr, ofInt_eq_finite hr⟩

/-- A natural number beyond the range of the format is infinite. -/
theorem ofInt_large {n : Nat} (hn : 2 ^ (f.width - f.unitShift) ≤ n) :
    (ofInt n : Binary f) = infinite false := by
  rw [ofInt_natCast, ofRatio, ofQuanta_large]
  calc 2 ^ f.width
      ≤ 2 ^ (f.width - f.unitShift + f.unitShift) := Nat.pow_le_pow_right (by decide) (by omega)
    _ = 2 ^ (f.width - f.unitShift) * 2 ^ f.unitShift := Nat.pow_add ..
    _ ≤ n * 2 ^ f.unitShift := Nat.mul_le_mul_right _ hn
    _ = n * 2 ^ f.unitShift / 1 := (Nat.div_one _).symm

/-- Less than half of the smallest magnitude, however the decimal is written. -/
theorem two_mul_lt_of_log2 {n us e : Nat} (h : n.log2 + us + 2 ≤ 3 * e) :
    2 * (n * 2 ^ us) < 10 ^ e := by
  calc 2 * (n * 2 ^ us)
      < 2 * (2 ^ (n.log2 + 1) * 2 ^ us) := by
        refine Nat.mul_lt_mul_of_pos_left ?_ (by decide)
        exact Nat.mul_lt_mul_of_pos_right Nat.lt_log2_self (Nat.two_pow_pos _)
    _ = 2 ^ (n.log2 + us + 2) := by
        rw [← Nat.pow_add, ← Nat.pow_succ']
        congr 1
        omega
    _ ≤ 2 ^ (3 * e) := Nat.pow_le_pow_right (by decide) h
    _ = (2 ^ 3) ^ e := Nat.pow_mul ..
    _ ≤ 10 ^ e := Nat.pow_le_pow_left (by decide) e

/-- The value of a decimal is its exact quotient, rounded. -/
theorem ofDecimal_eq (negative : Bool) (d : Decimal) :
    (ofDecimal negative d : Binary f) = ofRatio negative d.ratio.1 d.ratio.2 := by
  obtain ⟨n, e⟩ := d
  by_cases hn : n = 0
  · subst hn
    have hpos := Decimal.ratio_pos ⟨0, e⟩
    rw [ofDecimal, if_pos rfl, ofRatio, Decimal.ratio_zero, Nat.zero_mul,
      ofQuanta_small (by simpa using hpos)]
  cases e with
  | ofNat e =>
    simp only [ofDecimal, if_neg hn, Decimal.ratio]
    split
    · rename_i hlarge
      rw [ofRatio, ofQuanta_large]
      calc 2 ^ f.width
          ≤ 2 ^ e := Nat.pow_le_pow_right (by decide) hlarge
        _ ≤ 10 ^ e := Nat.pow_le_pow_left (by decide) e
        _ ≤ n * 10 ^ e := Nat.le_mul_of_pos_left _ (Nat.pos_of_ne_zero hn)
        _ ≤ n * 10 ^ e * 2 ^ f.unitShift := Nat.le_mul_of_pos_right _ (Nat.two_pow_pos _)
        _ = n * 10 ^ e * 2 ^ f.unitShift / 1 := (Nat.div_one _).symm
    · rfl
  | negSucc e =>
    simp only [ofDecimal, if_neg hn, Decimal.ratio]
    split
    · rename_i hsmall
      rw [ofRatio, ofQuanta_small (two_mul_lt_of_log2 hsmall)]
    · rfl

end Binary

end Teleop.Numeric
