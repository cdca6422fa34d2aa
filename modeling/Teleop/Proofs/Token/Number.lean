import Teleop.Proofs.Numeric.Exact
import Teleop.Proofs.Numeric.Plain
import Teleop.Token.Basic

/-!
# Numbers on the wire

The text of a number in a token reads back as the number, except that the negative zero is written like
the other one. Numbers that are equal in size are exactly those that differ at most in the sign of a
zero, so a number and what is read back are equal unless it is none.
-/

namespace Teleop

open Numeric

namespace Numeric.Binary

variable {f : Format} {x y : Binary f}

/-- The value, where a zero loses its sign. -/
def plainZero : Binary f → Binary f
  | finite s q h => if q = 0 then zero false else finite s q h
  | x => x

theorem plainZero_finite_of_ne {s : Bool} {q : Nat} (hq : q ≠ 0) (h : f.Representable q) :
    (finite s q h).plainZero = finite s q h := by
  rw [plainZero, if_neg hq]

theorem plainZero_plainZero (x : Binary f) : x.plainZero.plainZero = x.plainZero := by
  cases x with
  | finite s q h =>
    by_cases hq : q = 0
    · simp [plainZero, hq, zero]
    · rw [plainZero_finite_of_ne hq, plainZero_finite_of_ne hq]
  | _ => rfl

theorem natAbs_signed (s : Bool) (q : Nat) : (signed s q).natAbs = q := by
  cases s <;> simp [signed]

theorem decide_signed_neg (s : Bool) {q : Nat} (hq : q ≠ 0) : decide (signed s q < 0) = s := by
  cases s with
  | false => simp [signed]
  | true =>
    simp only [signed, if_true, decide_eq_true_eq]
    omega

theorem signed_eq_iff {s t : Bool} {q r : Nat} :
    signed s q = signed t r ↔ q = r ∧ (s = t ∨ q = 0) := by
  cases s <;> cases t <;> simp [signed] <;> omega

/-- Values are equal in size exactly if they are numbers that differ at most in the sign of a zero. -/
theorem equals_iff : x.equals y = true ↔ x.isNaN = false ∧ x.plainZero = y.plainZero := by
  cases x with
  | nan => simp [equals, le, isNaN]
  | infinite s =>
    cases y with
    | nan => simp [equals, le, plainZero]
    | infinite t => cases s <;> cases t <;> simp [equals, le, isNaN, plainZero]
    | finite t r hr =>
      have hne : (infinite s : Binary f) ≠ plainZero (finite t r hr) := by
        rw [plainZero]
        split <;> simp [zero]
      cases s <;> simpa [equals, le, isNaN, plainZero] using hne
  | finite s q hq =>
    cases y with
    | nan =>
      have hne : plainZero (finite s q hq) ≠ nan := by
        rw [plainZero]
        split <;> simp [zero]
      simpa [equals, le, isNaN, plainZero] using hne
    | infinite t =>
      have hne : plainZero (finite s q hq) ≠ infinite t := by
        rw [plainZero]
        split <;> simp [zero]
      cases t <;> simpa [equals, le, isNaN, plainZero] using hne
    | finite t r hr =>
      have hle : (finite s q hq).equals (finite t r hr) = true ↔ signed s q = signed t r := by
        simp only [equals, le, Bool.and_eq_true, decide_eq_true_eq]
        omega
      rw [hle, signed_eq_iff]
      by_cases hzero : q = 0 <;> by_cases hzero' : r = 0 <;>
        simp [isNaN, plainZero, hzero, hzero', zero] <;> grind

theorem toInt?_zero (s : Bool) (h : f.Representable 0) : (finite s 0 h).toInt? = some 0 := by
  cases s <;> simp [toInt?, signed]

theorem plainZero_of_toInt? (h : x.toInt? ≠ some 0) : x.plainZero = x := by
  cases x with
  | finite s q hq =>
    refine plainZero_finite_of_ne (fun hzero => h ?_) hq
    subst hzero
    exact toInt?_zero s hq
  | _ => rfl

/-- A whole number is a number of units with a sign. -/
theorem exists_of_toInt? {n : Int} (h : x.toInt? = some n) :
    ∃ s m hr, x = finite s (m * 2 ^ f.unitShift) hr ∧ n = signed s m := by
  cases x with
  | finite s q hq =>
    simp only [toInt?, Option.ite_none_right_eq_some, Option.some.injEq] at h
    obtain ⟨hwhole, rfl⟩ := h
    obtain ⟨m, hm⟩ := Nat.dvd_of_mod_eq_zero hwhole
    rw [Nat.mul_comm] at hm
    subst hm
    exact ⟨s, m, hq, rfl, by rw [Nat.mul_div_cancel m (Nat.two_pow_pos _)]⟩
  | nan => simp [toInt?] at h
  | infinite s => simp [toInt?] at h

/-- The digits of a whole number read back as it, with a plain zero. -/
theorem read?_integer {n : Int} (h : x.toInt? = some n) :
    read? ((if n < 0 then ['-'] else []) ++ toDigits n.natAbs) = some x.plainZero := by
  obtain ⟨s, m, hr, rfl, rfl⟩ := exists_of_toInt? h
  rw [natAbs_signed]
  have hdigits : toDigits m = Decimal.positional ⟨m, 0⟩ := by
    by_cases hm : m = 0
    · subst hm
      rfl
    · simp [Decimal.positional, hm]
  have hread := read?_positional (readsAs_natural hr.1) (decide (signed s m < 0)) hr
  simp only [decide_eq_true_eq] at hread
  rw [hdigits, hread]
  by_cases hm : m = 0
  · subst hm
    cases s <;> simp [plainZero, signed, zero]
  · have hne : m * 2 ^ f.unitShift ≠ 0 :=
      Nat.mul_ne_zero hm (Nat.ne_of_gt (Nat.two_pow_pos _))
    rw [decide_signed_neg s hm, plainZero_finite_of_ne hne]

end Numeric.Binary

namespace Token

open Binary

variable {x : Binary64}

theorem numberText_of_small {n : Nat} (h : x.toInt? = some (n : Int)) (hn : n < 1000000000000000) :
    numberText x = toDigits n := by
  have hsign : ¬ (n : Int) < 0 := by omega
  rw [numberText, h]
  dsimp only
  rw [Int.natAbs_natCast, if_pos hn, if_neg hsign, List.nil_append]

/-- A natural number of at most fifteen digits is written with its digits. -/
theorem numberText_ofInt {n : Nat} (hn : n < 10 ^ (15 : Nat)) : numberText (ofInt n) = toDigits n := by
  have hexact : n < 2 ^ binary64.precision := Nat.lt_trans hn (by decide)
  have hsmall : n < 1000000000000000 := Nat.lt_of_lt_of_eq hn (by decide)
  exact numberText_of_small (toInt?_ofInt hexact (by decide)) hsmall

theorem numberText_of_zero (h : x.toInt? = some 0) : numberText x = ['0'] := by
  simp only [numberText, h]
  rfl

/-- The two zeros are written alike. -/
theorem numberText_plainZero (x : Binary64) : numberText x.plainZero = numberText x := by
  by_cases h : x.toInt? = some 0
  · have hzero : x.plainZero.toInt? = some 0 := by
      cases x with
      | finite s q hq =>
        by_cases hq0 : q = 0
        · rw [plainZero, if_pos hq0]
          exact toInt?_zero false _
        · rwa [plainZero_finite_of_ne hq0]
      | _ => exact h
    rw [numberText_of_zero h, numberText_of_zero hzero]
  · rw [plainZero_of_toInt? h]

/-- What is written for a number reads back as it, with a plain zero. -/
theorem read?_numberText (x : Binary64) : read? (numberText x) = some x.plainZero := by
  have hplain (h : x.toInt? ≠ some 0) : read? x.plain = some x.plainZero := by
    rw [plainZero_of_toInt? h, read?_plain]
  cases hx : x.toInt? with
  | none =>
    rw [numberText, hx]
    exact hplain (by simp [hx])
  | some n =>
    simp only [numberText, hx]
    split
    · exact read?_integer hx
    · rename_i hlarge
      refine hplain fun hzero => hlarge ?_
      rw [hx, Option.some.injEq] at hzero
      subst hzero
      decide

end Token

end Teleop
