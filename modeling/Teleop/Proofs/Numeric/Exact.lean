import Teleop.Proofs.Numeric.Order

/-!
# Arithmetic of whole numbers

A natural number of no more bits than the format has is a value of the format. Products of such numbers are
not rounded as long as they stay so small (`ofInt_mul_ofInt`), and they are read back as they are
(`toNatWithin_ofInt`, `toInt?_ofInt`). A larger number is rounded, but not past a small one, so bounds that
are small are kept for every number (`clamp_ofInt`), nor past a power of two, so it is finite unless it comes
near the end of the range (`exists_ofInt_finite`).
-/

namespace Teleop.Numeric.Binary

variable {f : Format} {m n : Nat}

/-- Products that are small enough are exact. -/
theorem ofInt_mul_ofInt (hm : m < 2 ^ f.precision) (hn : n < 2 ^ f.precision)
    (hprod : m * n < 2 ^ f.precision) (hroom : f.precision + f.unitShift ≤ f.width) :
    (ofInt m * ofInt n : Binary f) = ofInt (m * n : Nat) := by
  obtain ⟨hm', hleft⟩ := exists_ofInt_eq (f := f) hm hroom
  obtain ⟨hn', hright⟩ := exists_ofInt_eq (f := f) hn hroom
  obtain ⟨hmn, hwhole⟩ := exists_ofInt_eq (f := f) hprod hroom
  have hquanta : m * 2 ^ f.unitShift * (n * 2 ^ f.unitShift) =
      m * n * 2 ^ f.unitShift * 2 ^ f.unitShift := by
    rw [Nat.mul_mul_mul_comm, Nat.mul_assoc (m * n)]
  rw [hleft, hright, hwhole]
  change ofQuanta (false != false) (m * 2 ^ f.unitShift * (n * 2 ^ f.unitShift)) (2 ^ f.unitShift) = _
  rw [hquanta]
  exact ofQuanta_eq_finite hmn (Nat.two_pow_pos _)

/-- A finite value times one. -/
theorem finite_mul_one {negative : Bool} {q : Nat} {hq : f.Representable q}
    (hone : 1 < 2 ^ f.precision) (hroom : f.precision + f.unitShift ≤ f.width) :
    (finite negative q hq * ofInt (1 : Nat) : Binary f) = finite negative q hq := by
  obtain ⟨hone', hexact⟩ := exists_ofInt_eq (f := f) hone hroom
  have hsign : (negative != false) = negative := by cases negative <;> rfl
  rw [hexact]
  change ofQuanta (negative != false) (q * (1 * 2 ^ f.unitShift)) (2 ^ f.unitShift) = _
  rw [hsign, Nat.one_mul]
  exact ofQuanta_eq_finite hq (Nat.two_pow_pos _)

/-- A small number is the natural number nearest to it. -/
theorem toNatWithin_ofInt {bound : Nat} (hm : m < 2 ^ f.precision)
    (hroom : f.precision + f.unitShift ≤ f.width) (hbound : m ≤ bound) :
    (ofInt m : Binary f).toNatWithin bound = m := by
  obtain ⟨hm', hexact⟩ := exists_ofInt_eq (f := f) hm hroom
  have hunit := Nat.two_pow_pos f.unitShift
  have hdiv : (2 * (m * 2 ^ f.unitShift) + 2 ^ f.unitShift) / (2 * 2 ^ f.unitShift) = m := by
    have hsplit : 2 * (m * 2 ^ f.unitShift) + 2 ^ f.unitShift =
        2 ^ f.unitShift + m * (2 * 2 ^ f.unitShift) := by
      rw [Nat.mul_left_comm, Nat.add_comm]
    rw [hsplit, Nat.add_mul_div_right _ _ (by omega), Nat.div_eq_of_lt (by omega), Nat.zero_add]
  rw [hexact, toNatWithin, hdiv]
  exact Nat.min_eq_right hbound

/-- A small number is the integer that it denotes. -/
theorem toInt?_ofInt (hm : m < 2 ^ f.precision) (hroom : f.precision + f.unitShift ≤ f.width) :
    (ofInt m : Binary f).toInt? = some (m : Int) := by
  obtain ⟨hm', hexact⟩ := exists_ofInt_eq (f := f) hm hroom
  rw [hexact, toInt?, Nat.mul_mod_left, if_pos rfl, Nat.mul_div_cancel _ (Nat.two_pow_pos _)]
  rfl

/-! ## Bounds of large numbers -/

/-- A natural number of fewer bits than the range has is finite. -/
theorem exists_ofInt_finite {k : Nat} (hn : n < 2 ^ k) (hprecision : f.precision ≤ k + f.unitShift)
    (hroom : k + f.unitShift < f.width) : ∃ q hq, (ofInt n : Binary f) = finite false q hq := by
  have hbelow : n * 2 ^ f.unitShift / 1 < 2 ^ (k + f.unitShift) := by
    rw [Nat.div_one, Nat.pow_add]
    exact Nat.mul_lt_mul_of_pos_right hn (Nat.two_pow_pos _)
  have hfinite : f.nearest (n * 2 ^ f.unitShift) 1 < 2 ^ f.width :=
    Nat.lt_of_le_of_lt (Format.nearest_le_two_pow hbelow hprecision)
      (Nat.pow_lt_pow_right (by decide) hroom)
  rw [ofInt_natCast, ofRatio, ofQuanta, dif_pos hfinite]
  exact ⟨_, _, rfl⟩

/-- A number with more bits than the format has is rounded, but not below what fits into it. -/
theorem exists_ofInt_large (hn : 2 ^ f.precision ≤ n) : (ofInt n : Binary f) = infinite false ∨
    ∃ q hq, (ofInt n : Binary f) = finite false q hq ∧ 2 ^ f.precision * 2 ^ f.unitShift ≤ q := by
  have hlarge : 2 ^ f.precision * 2 ^ f.unitShift ≤ f.nearest (n * 2 ^ f.unitShift) 1 := by
    rw [← Nat.pow_add]
    refine Format.two_pow_le_nearest ?_
    rw [Nat.div_one, Nat.pow_add]
    exact Nat.mul_le_mul_right _ hn
  rw [ofInt_natCast, ofRatio, ofQuanta]
  split
  · rename_i hwidth
    exact Or.inr ⟨_, ⟨f.isMultiple_nearest _ _, hwidth⟩, rfl, hlarge⟩
  · exact Or.inl rfl

/-- Every natural number is on its side of a small one. -/
theorem le_of_exact (hm : m < 2 ^ f.precision) (hroom : f.precision + f.unitShift ≤ f.width) (n : Nat) :
    (ofInt m : Binary f).le (ofInt n) = decide (m ≤ n) ∧
      (ofInt n : Binary f).le (ofInt m) = decide (n ≤ m) := by
  by_cases hn : n < 2 ^ f.precision
  · exact ⟨ofInt_le_ofInt hm hn hroom, ofInt_le_ofInt hn hm hroom⟩
  · have hle : m ≤ n := by omega
    have hnot : ¬ n ≤ m := by omega
    obtain ⟨hm', hexact⟩ := exists_ofInt_eq (f := f) hm hroom
    have hunit := Nat.mul_lt_mul_of_pos_right hm (Nat.two_pow_pos f.unitShift)
    rw [decide_eq_true hle, decide_eq_false hnot, hexact]
    rcases exists_ofInt_large (f := f) (Nat.le_of_not_lt hn) with hinfinite | ⟨q, hq, hfinite, hlarge⟩
    · rw [hinfinite]
      exact ⟨rfl, rfl⟩
    · rw [hfinite, le, le]
      constructor
      · rw [decide_eq_true_eq]
        exact Int.ofNat_le.mpr (by omega)
      · rw [decide_eq_false_iff_not]
        exact fun h => absurd (Int.ofNat_le.mp h) (by omega)

/-- A natural number, however large, is brought between small bounds as it is. -/
theorem clamp_ofInt {low high : Nat} (hbounds : low ≤ high) (hhigh : high < 2 ^ f.precision)
    (hroom : f.precision + f.unitShift ≤ f.width) (n : Nat) :
    (ofInt n : Binary f).clamp (ofInt low) (ofInt high) = ofInt (min (max n low) high : Nat) := by
  have hlt {k : Nat} (hk : k < 2 ^ f.precision) (n : Nat) :
      (ofInt k : Binary f).lt (ofInt n) = decide (k < n) ∧
        (ofInt n : Binary f).lt (ofInt k) = decide (n < k) := by
    obtain ⟨hbelow, habove⟩ := le_of_exact hk hroom n
    rw [lt, lt, hbelow, habove, ← decide_not, ← decide_not, ← Bool.decide_and, ← Bool.decide_and]
    exact ⟨decide_eq_decide.mpr (by omega), decide_eq_decide.mpr (by omega)⟩
  have hraised : (if (ofInt n : Binary f).lt (ofInt low) then ofInt low else ofInt n : Binary f) =
      ofInt (max n low : Nat) := by
    rw [(hlt (Nat.lt_of_le_of_lt hbounds hhigh) n).2]
    by_cases hn : n < low
    · rw [if_pos (decide_eq_true hn), Nat.max_eq_right (by omega)]
    · rw [if_neg (by simpa using hn), Nat.max_eq_left (by omega)]
  rw [clamp_eq, hraised, (hlt hhigh _).1]
  by_cases hn : high < max n low
  · rw [if_pos (decide_eq_true hn), Nat.min_eq_right (by omega)]
  · rw [if_neg (by simpa using hn), Nat.min_eq_left (by omega)]

end Teleop.Numeric.Binary
