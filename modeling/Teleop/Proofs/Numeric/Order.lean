import Teleop.Proofs.Numeric.Rounding

/-!
# Order and sign of numbers

The order of a binary format is total on the values that are numbers, so a number is brought between
two bounds and stays there (`isWithin_clamp`); between finite bounds it is finite. A magnitude is a number
without a minus sign, an infinity included; rounding an unsigned quotient and dividing magnitudes give
magnitudes.
-/

namespace Teleop.Numeric.Binary

variable {f : Format} {a b low high : Binary f}

/-- Whether a value lies between two bounds, so that it is a number. -/
def IsWithin (a low high : Binary f) : Prop :=
  low.le a = true ∧ a.le high = true

def isSigned : Binary f → Bool
  | nan => false
  | infinite negative => negative
  | finite negative _ _ => negative

structure IsMagnitude (a : Binary f) : Prop where
  number : a.isNaN = false
  unsigned : a.isSigned = false

/-! ## Order -/

theorem isNaN_eq_false_of_le (h : a.le b = true) : a.isNaN = false ∧ b.isNaN = false := by
  cases a <;> cases b <;> first | exact ⟨rfl, rfl⟩ | exact Bool.noConfusion h

theorem le_refl (h : a.isNaN = false) : a.le a = true := by
  cases a with
  | nan => exact Bool.noConfusion h
  | infinite s => cases s <;> rfl
  | finite s q hq => simp [le]

theorem le_total (ha : a.isNaN = false) (hb : b.isNaN = false) :
    a.le b = true ∨ b.le a = true := by
  cases a with
  | nan => exact Bool.noConfusion ha
  | infinite s =>
    cases b with
    | nan => exact Bool.noConfusion hb
    | infinite t => cases s <;> cases t <;> simp [le]
    | finite t r hr => cases s <;> simp [le]
  | finite s q hq =>
    cases b with
    | nan => exact Bool.noConfusion hb
    | infinite t => cases t <;> simp [le]
    | finite t r hr =>
      simp only [le, decide_eq_true_eq]
      exact Int.le_total _ _

theorem le_of_lt_eq_false (ha : a.isNaN = false) (hb : b.isNaN = false) (h : a.lt b = false) :
    b.le a = true := by
  rcases le_total ha hb with hab | hba
  · simpa [lt, hab] using h
  · exact hba

theorem clamp_eq (a low high : Binary f) :
    a.clamp low high = if high.lt (if a.lt low then low else a) then high
      else if a.lt low then low else a := rfl

theorem isWithin_clamp (ha : a.isNaN = false) (hbounds : low.le high = true) :
    (a.clamp low high).IsWithin low high := by
  obtain ⟨hlow, hhigh⟩ := isNaN_eq_false_of_le hbounds
  rw [clamp_eq]
  cases hbelow : a.lt low with
  | true =>
    have hinside : high.lt low = false := by simp [lt, hbounds]
    simp only [if_true, hinside, Bool.false_eq_true, if_false]
    exact ⟨le_refl hlow, hbounds⟩
  | false =>
    simp only [Bool.false_eq_true, if_false]
    cases habove : high.lt a with
    | true =>
      simp only [if_true]
      exact ⟨hbounds, le_refl hhigh⟩
    | false =>
      simp only [Bool.false_eq_true, if_false]
      exact ⟨le_of_lt_eq_false ha hlow hbelow, le_of_lt_eq_false hhigh ha habove⟩

/-! ## Finite values -/

theorem isFinite_of_isWithin (h : a.IsWithin low high) (hlow : low.isFinite = true)
    (hhigh : high.isFinite = true) : a.isFinite = true := by
  obtain ⟨hbelow, habove⟩ := h
  cases a with
  | nan => simp [le] at habove
  | finite s q hq => rfl
  | infinite s =>
    cases s with
    | true =>
      cases low with
      | finite => simp [le] at hbelow
      | _ => simp [isFinite] at hlow
    | false =>
      cases high with
      | finite => simp [le] at habove
      | _ => simp [isFinite] at hhigh

/-- A sum is finite only if both of its parts are. -/
theorem isFinite_of_add (h : (a + b).isFinite = true) : a.isFinite = true ∧ b.isFinite = true := by
  cases a with
  | nan => cases b <;> exact Bool.noConfusion h
  | finite s q hq =>
    cases b with
    | finite t r hr => exact ⟨rfl, rfl⟩
    | nan => exact Bool.noConfusion h
    | infinite t => exact Bool.noConfusion h
  | infinite s =>
    cases b with
    | nan => exact Bool.noConfusion h
    | finite t r hr => exact Bool.noConfusion h
    | infinite t =>
      change (if s = t then infinite s else nan).isFinite = true at h
      split at h <;> exact Bool.noConfusion h

theorem isFinite_ofNat {n : Nat} (hn : n < 2 ^ f.precision)
    (hroom : f.precision + f.unitShift ≤ f.width) : (OfNat.ofNat n : Binary f).isFinite = true := by
  change (ofInt n : Binary f).isFinite = true
  obtain ⟨h, heq⟩ := exists_ofInt_eq (f := f) hn hroom
  rw [heq]
  rfl

/-- Small whole numbers are added exactly. -/
theorem ofInt_add_ofInt {m n : Nat} (hsum : m + n < 2 ^ f.precision)
    (hroom : f.precision + f.unitShift ≤ f.width) :
    (ofInt m + ofInt n : Binary f) = ofInt (m + n : Nat) := by
  obtain ⟨hm, hleft⟩ := exists_ofInt_eq (f := f) (Nat.lt_of_le_of_lt (Nat.le_add_right m n) hsum) hroom
  obtain ⟨hn, hright⟩ := exists_ofInt_eq (f := f) (Nat.lt_of_le_of_lt (Nat.le_add_left n m) hsum) hroom
  obtain ⟨hmn, hwhole⟩ := exists_ofInt_eq (f := f) hsum hroom
  have hquanta : signed false (m * 2 ^ f.unitShift) + signed false (n * 2 ^ f.unitShift) =
      ((m + n) * 2 ^ f.unitShift : Nat) := by
    rw [Nat.add_mul]
    rfl
  rw [hleft, hright, hwhole]
  change add _ _ = _
  simp only [add, hquanta, Int.natAbs_natCast]
  split
  · rename_i hzero
    simp only [Int.natCast_eq_zero.mp hzero]
    rfl
  · have hsign : decide ((((m + n) * 2 ^ f.unitShift : Nat) : Int) < 0) = false := by
      simp only [decide_eq_false_iff_not]
      omega
    have hexact : (ofQuanta false ((m + n) * 2 ^ f.unitShift * 1) 1 : Binary f) = finite false _ hmn :=
      ofQuanta_eq_finite hmn Nat.one_pos
    rw [hsign]
    rwa [Nat.mul_one] at hexact

/-! ## Magnitudes -/

theorem IsMagnitude.cases (h : a.IsMagnitude) :
    a = infinite false ∨ ∃ q hq, a = finite false q hq := by
  obtain ⟨hnumber, hunsigned⟩ := h
  cases a with
  | nan => exact Bool.noConfusion hnumber
  | infinite s =>
    obtain rfl : s = false := hunsigned
    exact Or.inl rfl
  | finite s q hq =>
    obtain rfl : s = false := hunsigned
    exact Or.inr ⟨q, hq, rfl⟩

/-- A magnitude is not below zero. -/
theorem IsMagnitude.zero_le (h : a.IsMagnitude) : (zero false : Binary f).le a = true := by
  rcases h.cases with rfl | ⟨q, hq, rfl⟩
  · rfl
  · simp [zero, le, signed]

theorem isMagnitude_ofQuanta (num den : Nat) : (ofQuanta false num den : Binary f).IsMagnitude := by
  unfold ofQuanta
  split <;> exact ⟨rfl, rfl⟩

theorem isMagnitude_ofInt (n : Nat) : (ofInt n : Binary f).IsMagnitude := by
  have hsign : decide ((n : Int) < 0) = false := by simp
  rw [ofInt, hsign]
  exact isMagnitude_ofQuanta _ _

theorem isMagnitude_ofNat (n : Nat) : (OfNat.ofNat n : Binary f).IsMagnitude :=
  isMagnitude_ofInt n

theorem ofNat_eq_ofInt (n : Nat) : (OfNat.ofNat n : Binary f) = ofInt n := rfl

/-- Naturals that are exact are ordered as they are. -/
theorem ofInt_le_ofInt {m n : Nat} (hm : m < 2 ^ f.precision) (hn : n < 2 ^ f.precision)
    (hroom : f.precision + f.unitShift ≤ f.width) :
    (ofInt m : Binary f).le (ofInt n) = decide (m ≤ n) := by
  obtain ⟨hm', hm⟩ := exists_ofInt_eq (f := f) hm hroom
  obtain ⟨hn', hn⟩ := exists_ofInt_eq hn hroom
  rw [hm, hn, le]
  refine decide_eq_decide.mpr (Int.ofNat_le.trans ?_)
  exact Nat.mul_le_mul_right_iff (Nat.two_pow_pos _)

theorem ofNat_le_ofNat {m n : Nat} (hmn : m ≤ n) (hn : n < 2 ^ f.precision)
    (hroom : f.precision + f.unitShift ≤ f.width) :
    (OfNat.ofNat m : Binary f).le (OfNat.ofNat n) = true := by
  rw [ofNat_eq_ofInt, ofNat_eq_ofInt, ofInt_le_ofInt (Nat.lt_of_le_of_lt hmn hn) hn hroom, decide_eq_true hmn]

theorem isMagnitude_ofDecimal (d : Decimal) : (ofDecimal false d : Binary f).IsMagnitude := by
  rw [ofDecimal_eq]
  exact isMagnitude_ofQuanta _ _

theorem IsMagnitude.clamp (ha : a.IsMagnitude) (hlow : low.IsMagnitude) (hhigh : high.IsMagnitude) :
    (a.clamp low high).IsMagnitude := by
  have hraised : (if a.lt low then low else a).IsMagnitude := by
    split <;> assumption
  rw [clamp_eq]
  generalize (if a.lt low then low else a) = raised at hraised ⊢
  split <;> assumption

/-- A magnitude divided by a natural number that is exact. -/
theorem IsMagnitude.div_ofNat {n : Nat} (ha : a.IsMagnitude) (hpos : 0 < n)
    (hn : n < 2 ^ f.precision) (hroom : f.precision + f.unitShift ≤ f.width) :
    (a / OfNat.ofNat n).IsMagnitude := by
  obtain ⟨hr, hexact⟩ := exists_ofInt_eq hn hroom
  have hne : n * 2 ^ f.unitShift ≠ 0 :=
    Nat.mul_ne_zero (Nat.ne_of_gt hpos) (Nat.ne_of_gt (Nat.two_pow_pos _))
  change (div a (ofInt n)).IsMagnitude
  rw [hexact]
  rcases ha.cases with rfl | ⟨q, hq, rfl⟩
  · exact ⟨rfl, rfl⟩
  · rw [div, if_neg hne]
    exact isMagnitude_ofQuanta _ _

end Teleop.Numeric.Binary
