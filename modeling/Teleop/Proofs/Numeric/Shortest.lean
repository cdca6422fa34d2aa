import Teleop.Proofs.Numeric.Whole

/-!
# Seventeen digits are enough

A quotient that differs from a magnitude by less than its `2 ^ (precision + 1)`-th part is rounded to the
magnitude (`Format.nearest_of_close`): this is less than half the gap to the next magnitude on either side,
also below a power of two, where the gap is halved. On the grid of seventeen digits the next point is closer
than that in the interchange formats (`gridPoint?_seventeen`), so the shortest decimal of a magnitude is
always the point of one of the grids, and that of a whole number has no digits behind the point
(`exists_shortest_whole`). In plain notation a whole number is written with digits alone
(`exists_plain_whole`).
-/

namespace Teleop.Numeric

/-! ## Rounding what is close -/

/-- What is nearer to a natural number than a half is rounded to it. -/
theorem nearestEven_of_close {num den m : Nat} (hlow : 2 * (m * den) < 2 * num + den)
    (hhigh : 2 * num < 2 * (m * den) + den) : nearestEven num den = m := by
  have hden : 0 < den := by omega
  have hsplit := Nat.div_add_mod num den
  have hrest := Nat.mod_lt num hden
  rw [Nat.mul_comm] at hsplit
  have hle : num / den ≤ m := by
    refine Nat.lt_succ_iff.mp (Nat.div_lt_of_lt_mul ?_)
    rw [Nat.mul_succ, Nat.mul_comm den]
    omega
  have hge : m ≤ num / den + 1 := by
    refine Nat.lt_succ_iff.mp (Nat.lt_of_mul_lt_mul_right (a := den) ?_)
    rw [Nat.succ_mul, Nat.succ_mul]
    omega
  unfold nearestEven
  rcases Nat.lt_or_eq_of_le hle with hlt | heq
  · obtain rfl : m = num / den + 1 := by omega
    have hstep : (num / den + 1) * den = num / den * den + den := Nat.succ_mul ..
    rw [if_neg (by omega), if_pos (by omega)]
  · rw [heq] at hsplit ⊢
    rw [if_pos (by omega)]

namespace Format

variable {f : Format} {num den q : Nat}

/-- A magnitude is below the power of two that ends its binade. -/
theorem lt_two_pow_spacing (f : Format) (q : Nat) : q < 2 ^ (f.precision + f.spacing q) := by
  refine Nat.lt_of_lt_of_le Nat.lt_log2_self (Nat.pow_le_pow_right (by decide) ?_)
  simp only [spacing]
  omega

/-- A magnitude that needs a spacing has as many bits as the format allows. -/
theorem two_pow_spacing_le {t : Nat} (ht : f.spacing q = t + 1) : 2 ^ (f.precision + t) ≤ q := by
  have hq : q ≠ 0 := by
    rintro rfl
    have hp := f.precision_pos
    simp only [spacing, Nat.log2_zero] at ht
    omega
  refine Nat.le_trans (Nat.pow_le_pow_right (by decide) ?_) (Nat.log2_self_le hq)
  simp only [spacing] at ht
  omega

/-- Two multiples of a gap are a gap apart. -/
theorem add_le_of_dvd {gap a b : Nat} (ha : gap ∣ a) (hb : gap ∣ b) (hlt : a < b) : a + gap ≤ b := by
  have hle := Nat.le_of_dvd (Nat.sub_pos_of_lt hlt) (Nat.dvd_sub hb ha)
  omega

/-- A quotient that differs from a magnitude by less than its `2 ^ (precision + 1)`-th part. -/
structure IsClose (f : Format) (num den q : Nat) : Prop where
  above : q * den * (2 * 2 ^ f.precision) < num * (2 * 2 ^ f.precision) + q * den
  below : num * (2 * 2 ^ f.precision) < q * den * (2 * 2 ^ f.precision) + q * den

namespace IsClose

theorem den_pos (h : f.IsClose num den q) : 0 < den := by
  refine Nat.pos_of_ne_zero fun hzero => ?_
  have habove := h.above
  have hbelow := h.below
  rw [hzero, Nat.mul_zero] at habove hbelow
  omega

/-- What is close to a magnitude is nearer to it than half of a gap that is wide enough for it. -/
theorem within {gap : Nat} (h : f.IsClose num den q) (hq : q ≤ 2 ^ f.precision * gap) :
    2 * (q * den) < 2 * num + gap * den ∧ 2 * num < 2 * (q * den) + gap * den := by
  have hpart : q * den ≤ 2 ^ f.precision * (gap * den) := by
    rw [← Nat.mul_assoc]
    exact Nat.mul_le_mul_right den hq
  have hscale (a b : Nat) (hab : a * (2 * 2 ^ f.precision) < b * (2 * 2 ^ f.precision) + q * den) :
      2 * a < 2 * b + gap * den := by
    refine Nat.lt_of_mul_lt_mul_left (a := 2 ^ f.precision) ?_
    calc 2 ^ f.precision * (2 * a)
        = a * (2 * 2 ^ f.precision) := by ac_rfl
      _ < b * (2 * 2 ^ f.precision) + q * den := hab
      _ ≤ b * (2 * 2 ^ f.precision) + 2 ^ f.precision * (gap * den) := Nat.add_le_add_left hpart _
      _ = 2 ^ f.precision * (2 * b + gap * den) := by
        rw [Nat.mul_add]
        ac_rfl
  exact ⟨hscale _ _ h.above, hscale _ _ h.below⟩

/-- What is close to a magnitude is nearer to it than half of its own gap. -/
theorem within_spacing (h : f.IsClose num den q) :
    2 * (q * den) < 2 * num + 2 ^ f.spacing q * den ∧
      2 * num < 2 * (q * den) + 2 ^ f.spacing q * den := by
  refine h.within ?_
  rw [← Nat.pow_add]
  exact Nat.le_of_lt (f.lt_two_pow_spacing q)

/-- What is close to a magnitude has no wider spacing than the magnitude. -/
theorem spacing_le (h : f.IsClose num den q) (hq : f.IsMultiple q) :
    f.spacing (num / den) ≤ f.spacing q := by
  refine Nat.le_of_not_lt fun hlt => ?_
  obtain ⟨t, ht⟩ : ∃ t, f.spacing (num / den) = t + 1 := ⟨f.spacing (num / den) - 1, by omega⟩
  have hlarge : 2 ^ (f.precision + t) * den ≤ num :=
    (Nat.le_div_iff_mul_le h.den_pos).mp (two_pow_spacing_le ht)
  -- The magnitude ends a whole gap below its binade, and the quotient lies above that.
  have hbinade : q + 2 ^ f.spacing q ≤ 2 ^ (f.precision + f.spacing q) :=
    add_le_of_dvd (Nat.dvd_of_mod_eq_zero hq) (Nat.pow_dvd_pow 2 (Nat.le_add_left _ _))
      (f.lt_two_pow_spacing q)
  have hbelow : 2 ^ (f.precision + f.spacing q) ≤ 2 ^ (f.precision + t) :=
    Nat.pow_le_pow_right (by decide) (by omega)
  have hscaled : q * den + 2 ^ f.spacing q * den ≤ 2 ^ (f.precision + t) * den := by
    rw [← Nat.add_mul]
    exact Nat.mul_le_mul_right den (Nat.le_trans hbinade hbelow)
  have hwithin := h.within_spacing.2
  omega

/-- A magnitude has no more bits than what is close to it, unless it begins the next binade. -/
theorem le_two_pow (h : f.IsClose num den q) (hq : f.IsMultiple q) :
    q ≤ 2 ^ (f.precision + f.spacing (num / den)) := by
  refine Nat.le_of_not_lt fun hlt => ?_
  have hsmall : num < 2 ^ (f.precision + f.spacing (num / den)) * den :=
    (Nat.div_lt_iff_lt_mul h.den_pos).mp (f.lt_two_pow_spacing _)
  have hwithin := h.within_spacing.1
  have hp := f.precision_pos
  have hwide : f.spacing (num / den) < f.spacing q := by
    have hbits := Nat.lt_trans hlt (f.lt_two_pow_spacing q)
    have := (Nat.pow_lt_pow_iff_right (by decide)).mp hbits
    omega
  obtain ⟨t, ht⟩ : ∃ t, f.spacing q = t + 1 := ⟨f.spacing q - 1, by omega⟩
  rw [ht] at hwithin
  by_cases hnext : f.spacing (num / den) = t
  · -- The magnitude lies a gap behind the beginning of its binade, and the quotient before it.
    have hbehind : 2 ^ (f.precision + f.spacing (num / den)) + 2 ^ (t + 1) ≤ q := by
      refine add_le_of_dvd (Nat.pow_dvd_pow 2 (by omega)) ?_ hlt
      rw [← ht]
      exact Nat.dvd_of_mod_eq_zero hq
    have hscaled := Nat.mul_le_mul_right den hbehind
    rw [Nat.add_mul] at hscaled
    omega
  · -- The quotient has at most half of the magnitude.
    have hbegin := two_pow_spacing_le ht
    have hhalf : 2 * 2 ^ (f.precision + f.spacing (num / den)) ≤ 2 ^ (f.precision + t) := by
      rw [← Nat.pow_succ']
      exact Nat.pow_le_pow_right (by decide) (by omega)
    have hgap : 2 ^ (t + 1) ≤ 2 ^ (f.precision + t) := Nat.pow_le_pow_right (by decide) (by omega)
    have hscaled := Nat.mul_le_mul_right den (Nat.le_trans hhalf hbegin)
    have hscaled' := Nat.mul_le_mul_right den (Nat.le_trans hgap hbegin)
    rw [Nat.mul_assoc] at hscaled
    omega

end IsClose

/-- What is close to a magnitude is rounded to it. -/
theorem nearest_of_close (h : f.IsClose num den q) (hq : f.IsMultiple q) : f.nearest num den = q := by
  have hle := h.le_two_pow hq
  obtain ⟨m, hm⟩ : 2 ^ f.spacing (num / den) ∣ q :=
    Nat.dvd_trans (Nat.pow_dvd_pow 2 (h.spacing_le hq)) (Nat.dvd_of_mod_eq_zero hq)
  rw [Nat.pow_add] at hle
  obtain ⟨hlow, hhigh⟩ := h.within hle
  have hgrid : q * den = m * (den * 2 ^ f.spacing (num / den)) := by
    conv => lhs; rw [hm]
    ac_rfl
  rw [hgrid, Nat.mul_comm _ den] at hlow hhigh
  simp only [nearest]
  rw [nearestEven_of_close hlow hhigh, Nat.mul_comm, ← hm]

/-- A quotient that differs from a magnitude by at most half of a small gap is close to it. -/
theorem isClose_of_gap (gap : Nat) (hlow : 2 * (q * den) ≤ 2 * num + gap)
    (hhigh : 2 * num ≤ 2 * (q * den) + gap) (hgap : gap * 2 ^ f.precision < q * den) :
    f.IsClose num den q := by
  have hscale (a b : Nat) (hab : 2 * a ≤ 2 * b + gap) :
      a * (2 * 2 ^ f.precision) < b * (2 * 2 ^ f.precision) + q * den := by
    have hscaled := Nat.mul_le_mul_right (2 ^ f.precision) hab
    rw [Nat.add_mul, Nat.mul_right_comm, Nat.mul_right_comm 2 b, Nat.mul_comm _ a, Nat.mul_comm _ b]
      at hscaled
    omega
  exact ⟨hscale _ _ hlow, hscale _ _ hhigh⟩

end Format

/-! ## Grids that are fine enough -/

/-- A quotient in units of a power of ten. -/
def gridQuotient (num den : Nat) : Int → Nat × Nat
  | .ofNat e => (num, den * 10 ^ e)
  | .negSucc e => (num * 10 ^ (e + 1), den)

/-- A quotient is compared in units of a power of ten as the two powers of the exponent say. -/
theorem gridQuotient_le_iff {num den a b scale : Nat} :
    (gridQuotient num den ((a : Int) - b)).2 * scale ≤ (gridQuotient num den ((a : Int) - b)).1 ↔
      den * 10 ^ a * scale ≤ num * 10 ^ b := by
  rcases Nat.lt_or_ge a b with hlt | hle
  · obtain ⟨e, rfl⟩ := Nat.exists_eq_add_of_lt hlt
    have hexponent : (a : Int) - (a + e + 1 : Nat) = .negSucc e := by
      rw [Int.negSucc_eq]
      omega
    have hpower : num * 10 ^ (a + e + 1) = num * 10 ^ (e + 1) * 10 ^ a := by
      rw [Nat.add_assoc, Nat.pow_add]
      ac_rfl
    rw [hexponent, hpower, Nat.mul_right_comm]
    exact (Nat.mul_le_mul_right_iff (Nat.pow_pos (by decide))).symm
  · obtain ⟨e, rfl⟩ := Nat.exists_eq_add_of_le hle
    have hexponent : ((b + e : Nat) : Int) - b = .ofNat e := by
      rw [Int.ofNat_eq_natCast]
      omega
    have hpower : den * 10 ^ (b + e) * scale = den * 10 ^ e * scale * 10 ^ b := by
      rw [Nat.pow_add]
      ac_rfl
    rw [hexponent, hpower]
    exact (Nat.mul_le_mul_right_iff (Nat.pow_pos (by decide))).symm

theorem gridQuotient_pos (num den : Nat) (hden : 0 < den) (exponent : Int) :
    0 < (gridQuotient num den exponent).2 := by
  cases exponent with
  | ofNat e => exact Nat.mul_pos hden (Nat.pow_pos (by decide))
  | negSucc e => exact hden

/-- A grid with a point next to the quotient that reads back has a point. -/
theorem gridPoint?_ne_none {tie : Tie} {readsBack : Decimal → Bool} {num den : Nat} {exponent : Int}
    (h : readsBack ⟨(gridQuotient num den exponent).1 / (gridQuotient num den exponent).2, exponent⟩ = true ∨
      readsBack ⟨(gridQuotient num den exponent).1 / (gridQuotient num den exponent).2 + 1, exponent⟩ =
        true) :
    gridPoint? tie readsBack num den exponent ≠ none := by
  unfold gridPoint?
  cases exponent with
  | ofNat e => grind [gridQuotient]
  | negSucc e => grind [gridQuotient]

/-- A positive number has its leading digit at the place that their count says. -/
theorem ten_pow_length_le {n : Nat} (hn : 0 < n) : 10 ^ (toDigits n).length ≤ 10 * n := by
  have hpos : 0 < (toDigits n).length := Nat.length_toDigits_pos
  obtain ⟨k, hk⟩ : ∃ k, (toDigits n).length = k + 1 := ⟨(toDigits n).length - 1, by omega⟩
  have hle : 10 ^ k ≤ n := by
    refine Nat.le_of_not_lt fun hlt => ?_
    by_cases hzero : k = 0
    · rw [hzero, Nat.pow_zero] at hlt
      omega
    · have hshort : (toDigits n).length ≤ k :=
        (Nat.length_toDigits_le_iff (by decide) (by omega)).mpr hlt
      omega
  rw [hk, Nat.pow_succ']
  exact Nat.mul_le_mul_left 10 hle

/-- A quotient has at least as many units of a grid as the power of ten by which the grid lies behind the
first digit. -/
theorem gridQuotient_exponentAbove {num den : Nat} (hnum : 0 < num) (hden : 0 < den) (places : Nat) :
    (gridQuotient num den (exponentAbove num den - (places + 1 : Nat))).2 * 10 ^ places ≤
      (gridQuotient num den (exponentAbove num den - (places + 1 : Nat))).1 := by
  unfold exponentAbove
  split
  · rename_i hle
    have hquotient : 0 < num / den := Nat.div_pos hle hden
    rw [gridQuotient_le_iff]
    calc den * 10 ^ (toDigits (num / den)).length * 10 ^ places
        ≤ den * (10 * (num / den)) * 10 ^ places := by
          refine Nat.mul_le_mul_right _ (Nat.mul_le_mul_left den ?_)
          exact ten_pow_length_le hquotient
      _ = den * (num / den) * 10 ^ (places + 1) := by
          rw [Nat.pow_succ]
          ac_rfl
      _ ≤ num * 10 ^ (places + 1) := Nat.mul_le_mul_right _ (Nat.mul_div_le num den)
  · have hlt : den / num < 10 ^ (toDigits (den / num)).length :=
      (Nat.length_toDigits_le_iff (by decide) Nat.length_toDigits_pos).mp (Nat.le_refl _)
    have hexponent : (1 - ((toDigits (den / num)).length : Int)) - (places + 1 : Nat) =
        ((0 : Nat) : Int) - ((toDigits (den / num)).length + places : Nat) := by
      omega
    rw [hexponent, gridQuotient_le_iff, Nat.pow_zero, Nat.mul_one, Nat.pow_add, ← Nat.mul_assoc]
    refine Nat.mul_le_mul_right _ (Nat.le_of_lt ?_)
    rw [Nat.mul_comm]
    exact (Nat.div_lt_iff_lt_mul hnum).mp hlt

namespace Binary

variable {f : Format} {q : Nat} {tie : Tie} {exponent : Int}

/-- A point of a grid reads as a magnitude that it is close to. -/
theorem readsAs_of_isClose {k : Nat} (hq : f.IsMultiple q)
    (h : ∀ den, q * den = (gridQuotient q (2 ^ f.unitShift) exponent).1 →
      f.IsClose (k * (gridQuotient q (2 ^ f.unitShift) exponent).2) den q) :
    readsAs f q ⟨k, exponent⟩ = true := by
  refine decide_eq_true ?_
  cases exponent with
  | ofNat e =>
    have hclose := h 1 (Nat.mul_one q)
    have hpoint : k * (2 ^ f.unitShift * 10 ^ e) = k * 10 ^ e * 2 ^ f.unitShift := by ac_rfl
    rw [gridQuotient, hpoint] at hclose
    exact Format.nearest_of_close hclose hq
  | negSucc e => exact Format.nearest_of_close (h (10 ^ (e + 1)) rfl) hq

/-- A grid has a point that reads as a magnitude if its spacing is small beside the magnitude. -/
theorem gridPoint?_ne_none_of_fine (hq : f.IsMultiple q)
    (hfine : (gridQuotient q (2 ^ f.unitShift) exponent).2 * 2 ^ f.precision <
      (gridQuotient q (2 ^ f.unitShift) exponent).1) :
    gridPoint? tie (readsAs f q) q (2 ^ f.unitShift) exponent ≠ none := by
  have hpos := gridQuotient_pos q (2 ^ f.unitShift) (Nat.two_pow_pos _) exponent
  refine gridPoint?_ne_none ?_
  generalize hn : (gridQuotient q (2 ^ f.unitShift) exponent).1 = n at hfine ⊢
  generalize hd : (gridQuotient q (2 ^ f.unitShift) exponent).2 = d at hfine hpos ⊢
  have hsplit := Nat.div_add_mod n d
  have hrest := Nat.mod_lt n hpos
  rw [Nat.mul_comm] at hsplit
  -- The nearer one of the two points around the magnitude is at most half of the spacing away.
  rcases Nat.le_total (2 * (n % d)) d with hnear | hfar
  · refine Or.inl (readsAs_of_isClose hq fun den hden => ?_)
    rw [hn] at hden
    rw [hd]
    exact Format.isClose_of_gap d (by omega) (by omega) (by omega)
  · refine Or.inr (readsAs_of_isClose hq fun den hden => ?_)
    have hnext : (n / d + 1) * d = n / d * d + d := Nat.succ_mul ..
    rw [hn] at hden
    rw [hd]
    exact Format.isClose_of_gap d (by omega) (by omega) (by omega)

/-- The grid of seventeen digits has a point that reads as the magnitude. -/
theorem gridPoint?_seventeen (hq : f.IsMultiple q) (hpos : 0 < q)
    (hdigits : 2 ^ f.precision < 10 ^ (16 : Nat)) :
    gridPoint? tie (readsAs f q) q (2 ^ f.unitShift)
      (exponentAbove q (2 ^ f.unitShift) - (17 : Nat)) ≠ none := by
  refine gridPoint?_ne_none_of_fine hq ?_
  have hunit := Nat.two_pow_pos f.unitShift
  exact Nat.lt_of_lt_of_le (Nat.mul_lt_mul_of_pos_left hdigits (gridQuotient_pos _ _ hunit _))
    (gridQuotient_exponentAbove hpos hunit 16)

/-- The shortest decimal of a whole number has no digits behind the point, however large the number is. -/
theorem exists_shortest_whole {m : Nat} (tie : Tie) (hm : 0 < m) (hq : f.IsMultiple (m * 2 ^ f.unitShift))
    (hdigits : 2 ^ f.precision < 10 ^ (16 : Nat)) :
    ∃ n e, 0 < n ∧ shortest f tie (m * 2 ^ f.unitShift) = ⟨n, .ofNat e⟩ := by
  have hpos : 0 < m * 2 ^ f.unitShift := Nat.mul_pos hm (Nat.two_pow_pos _)
  have hfound : ∃ e ≤ (toDigits m).length, gridPoint? tie (readsAs f (m * 2 ^ f.unitShift))
      (m * 2 ^ f.unitShift) (2 ^ f.unitShift) (.ofNat e) =
        some (shortest f tie (m * 2 ^ f.unitShift)) := by
    rcases Nat.lt_or_ge 17 (toDigits m).length with hlong | hshort
    · refine exists_gridPoint?_whole hm (by decide) (Nat.le_of_lt hlong) ?_
      rw [← exponentAbove_whole (f := f) hm]
      exact gridPoint?_seventeen hq hpos hdigits
    · refine exists_gridPoint?_whole hm (Nat.lt_succ_of_le hshort) (Nat.le_refl _) ?_
      exact gridPoint?_length_ne_none tie hq
  obtain ⟨e, -, hpoint⟩ := hfound
  have hreads := readsBack_of_gridPoint? hpoint
  have hexponent := (digits_of_gridPoint? hpoint).1
  refine ⟨(shortest f tie (m * 2 ^ f.unitShift)).digits, e, Nat.pos_of_ne_zero fun hzero => ?_, ?_⟩
  · exact Nat.ne_of_gt hpos (eq_zero_of_readsAs hzero hreads)
  · rw [← hexponent]

/-- A whole number is written with the digits of a natural number that is rounded to it, and with its own
digits if it has at most fifteen. -/
theorem exists_plain_whole {m : Nat} (negative : Bool) (hm : 0 < m)
    (hr : f.Representable (m * 2 ^ f.unitShift)) (hdigits : 2 ^ f.precision < 10 ^ (16 : Nat))
    (hroom : 2 * 10 ^ (15 : Nat) ≤ 2 ^ f.precision) :
    ∃ k, (finite negative (m * 2 ^ f.unitShift) hr).plain =
        (if negative then ['-'] else []) ++ toDigits k ∧
      (ofInt k : Binary f) = ofInt m ∧
      (m < 10 ^ (15 : Nat) → k = m) := by
  obtain ⟨n, e, hn, hshortest⟩ := exists_shortest_whole .up hm hr.1 hdigits
  have hreads := readsAs_shortest .up hr.1
  rw [hshortest] at hreads
  have hpositional : Decimal.positional ⟨n, .ofNat e⟩ = toDigits (n * 10 ^ e) := by
    rw [toDigits_mul_ten_pow hn, Decimal.positional]
    simp [Nat.ne_of_gt hn]
  refine ⟨n * 10 ^ e, ?_, ?_, fun hsmall => ?_⟩
  · have hquanta : m * 2 ^ f.unitShift ≠ 0 :=
      Nat.mul_ne_zero (Nat.ne_of_gt hm) (Nat.ne_of_gt (Nat.two_pow_pos _))
    rw [plain, if_neg hquanta, hshortest, hpositional]
    cases negative <;> rfl
  · rw [ofInt_eq_finite hr, ofInt_natCast]
    exact ofQuanta_of_nearest (of_decide_eq_true hreads) hr
  · have hlength : (toDigits m).length ≤ 15 :=
      (Nat.length_toDigits_le_iff (by decide) (by decide)).mpr hsmall
    obtain ⟨n', e', hshortest', hexact⟩ := shortest_whole .up hm hlength hroom
    rw [hshortest, Decimal.mk.injEq, Int.ofNat.injEq] at hshortest'
    rw [hshortest'.1, hshortest'.2, hexact]

end Binary

end Teleop.Numeric
