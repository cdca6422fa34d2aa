import Teleop.Proofs.Numeric.Plain

/-!
# The digits of whole numbers

The shortest decimal of a whole number of at most fifteen digits is the number itself, without the zeros
at its end: a point of a grid of whole numbers is exact, so none but the number reads back as it.
-/

namespace Teleop.Numeric

theorem digits_of_gridPoint? {tie : Tie} {readsBack : Decimal → Bool} {num den e : Nat} {d : Decimal}
    (h : gridPoint? tie readsBack num den (.ofNat e) = some d) :
    d.exponent = .ofNat e ∧ d.digits ≤ num / (den * 10 ^ e) + 1 := by
  unfold gridPoint? at h
  grind

namespace Binary

variable {f : Format} {m : Nat}

/-- A decimal of moderate size on a grid of whole numbers reads as no whole number but itself. -/
theorem eq_of_readsAs_whole {n e : Nat} (hn : n * 10 ^ e ≤ 2 ^ f.precision)
    (h : readsAs f (m * 2 ^ f.unitShift) ⟨n, .ofNat e⟩ = true) : n * 10 ^ e = m := by
  have hexact := f.nearest_of_isMultiple (f.isMultiple_mul_pow (s := f.unitShift) hn) Nat.one_pos
  have hread : f.nearest (n * 10 ^ e * 2 ^ f.unitShift) 1 = m * 2 ^ f.unitShift :=
    of_decide_eq_true h
  rw [Nat.mul_one, hread] at hexact
  exact (Nat.mul_right_cancel (Nat.two_pow_pos _) hexact).symm

/-- The grid of all digits of a whole number has the number for a point. -/
theorem gridPoint?_length_ne_none (tie : Tie) (h : f.IsMultiple (m * 2 ^ f.unitShift)) :
    gridPoint? tie (readsAs f (m * 2 ^ f.unitShift)) (m * 2 ^ f.unitShift) (2 ^ f.unitShift)
      ((toDigits m).length - ((toDigits m).length : Nat)) ≠ none := by
  have hreads := readsAs_natural h
  have hdiv : m * 2 ^ f.unitShift / (2 ^ f.unitShift * 10 ^ 0) = m := by
    rw [Nat.pow_zero, Nat.mul_one, Nat.mul_div_cancel m (Nat.two_pow_pos _)]
  rw [Int.sub_self]
  change gridPoint? tie _ _ _ (.ofNat 0) ≠ none
  unfold gridPoint?
  grind

/-- The point of a grid of moderate spacing that reads as a whole number is the number. -/
theorem eq_of_gridPoint?_whole {tie : Tie} {e : Nat} {d : Decimal}
    (hroom : m + 10 ^ e ≤ 2 ^ f.precision)
    (h : gridPoint? tie (readsAs f (m * 2 ^ f.unitShift)) (m * 2 ^ f.unitShift) (2 ^ f.unitShift)
      (.ofNat e) = some d) :
    ∃ n, d = ⟨n, .ofNat e⟩ ∧ n * 10 ^ e = m := by
  obtain ⟨n, exponent⟩ := d
  obtain ⟨hexponent, hdigits⟩ := digits_of_gridPoint? h
  simp only at hexponent hdigits
  subst hexponent
  refine ⟨n, rfl, eq_of_readsAs_whole ?_ (readsBack_of_gridPoint? h)⟩
  rw [Nat.mul_comm m, Nat.mul_div_mul_left _ _ (Nat.two_pow_pos _)] at hdigits
  calc n * 10 ^ e
      ≤ (m / 10 ^ e + 1) * 10 ^ e := Nat.mul_le_mul_right _ hdigits
    _ ≤ m + 10 ^ e := by
        rw [Nat.add_mul, Nat.one_mul]
        exact Nat.add_le_add_right (Nat.div_mul_le_self _ _) _
    _ ≤ 2 ^ f.precision := hroom

/-- A search along the naturals that succeeds at some place succeeds there or before. -/
theorem exists_findSome?_range {α : Type} (g : Nat → Option α) {count n : Nat} (hn : n < count)
    (h : g n ≠ none) :
    ∃ k d, k ≤ n ∧ g k = some d ∧ (List.range count).findSome? g = some d := by
  have hmem : n ∈ List.range count := List.mem_range.mpr hn
  cases hsearch : (List.range count).findSome? g with
  | none => exact absurd (List.findSome?_eq_none_iff.mp hsearch n hmem) h
  | some d =>
    obtain ⟨tried, k, others, hrange, hfound, hnone⟩ := List.findSome?_eq_some_iff.mp hsearch
    refine ⟨k, d, Nat.le_of_not_lt fun hlt => ?_, hfound, rfl⟩
    have hsorted : (tried ++ k :: others).Pairwise (· < ·) := hrange ▸ List.pairwise_lt_range
    rw [hrange, List.mem_append, List.mem_cons] at hmem
    rcases hmem with htried | heq | hothers
    · exact h (hnone _ htried)
    · omega
    · have hlater := (List.pairwise_cons.mp (List.pairwise_append.mp hsorted).2.1).1 _ hothers
      omega

/-- Where some grid has a point that reads as a magnitude, the shortest decimal is a point of it or of a
coarser one. -/
theorem exists_gridPoint?_shortest {tie : Tie} {quanta n : Nat} (hn : n < gridCount)
    (h : gridPoint? tie (readsAs f quanta) quanta (2 ^ f.unitShift)
      (exponentAbove quanta (2 ^ f.unitShift) - n) ≠ none) :
    ∃ k ≤ n, gridPoint? tie (readsAs f quanta) quanta (2 ^ f.unitShift)
      (exponentAbove quanta (2 ^ f.unitShift) - k) = some (shortest f tie quanta) := by
  obtain ⟨k, d, hk, hpoint, hsearch⟩ := exists_findSome?_range (fun (n : Nat) =>
    gridPoint? tie (readsAs f quanta) quanta (2 ^ f.unitShift)
      (exponentAbove quanta (2 ^ f.unitShift) - n)) hn h
  refine ⟨k, hk, hpoint.trans ?_⟩
  rw [shortest]
  simp only [hsearch]
  rfl

theorem exponentAbove_whole (hm : 0 < m) :
    exponentAbove (m * 2 ^ f.unitShift) (2 ^ f.unitShift) = (toDigits m).length := by
  rw [exponentAbove, if_pos (Nat.le_mul_of_pos_left _ hm), Nat.mul_div_cancel m (Nat.two_pow_pos _)]

/-- The grids before the digits of a whole number are used up are grids of whole numbers. -/
theorem exists_gridPoint?_whole {tie : Tie} {n : Nat} (hm : 0 < m) (hn : n < gridCount)
    (hle : n ≤ (toDigits m).length)
    (h : gridPoint? tie (readsAs f (m * 2 ^ f.unitShift)) (m * 2 ^ f.unitShift) (2 ^ f.unitShift)
      ((toDigits m).length - n) ≠ none) :
    ∃ e ≤ (toDigits m).length, gridPoint? tie (readsAs f (m * 2 ^ f.unitShift)) (m * 2 ^ f.unitShift)
      (2 ^ f.unitShift) (.ofNat e) = some (shortest f tie (m * 2 ^ f.unitShift)) := by
  rw [← exponentAbove_whole (f := f) hm] at h
  obtain ⟨k, hk, hpoint⟩ := exists_gridPoint?_shortest hn h
  have hexponent : ((toDigits m).length : Int) - k = .ofNat ((toDigits m).length - k) := by
    rw [Int.ofNat_eq_natCast]
    omega
  rw [exponentAbove_whole hm, hexponent] at hpoint
  exact ⟨_, Nat.sub_le _ _, hpoint⟩

/-- The shortest decimal of a whole number of at most fifteen digits. -/
theorem shortest_whole (tie : Tie) (hm : 0 < m) (hlength : (toDigits m).length ≤ 15)
    (hroom : 2 * 10 ^ (15 : Nat) ≤ 2 ^ f.precision) :
    ∃ n e, shortest f tie (m * 2 ^ f.unitShift) = ⟨n, .ofNat e⟩ ∧ n * 10 ^ e = m := by
  have hlt : m < 10 ^ (toDigits m).length :=
    (Nat.length_toDigits_le_iff (by decide) Nat.length_toDigits_pos).mp (Nat.le_refl _)
  have hbound : 10 ^ (toDigits m).length ≤ 10 ^ 15 := Nat.pow_le_pow_right (by decide) hlength
  have hmultiple : f.IsMultiple (m * 2 ^ f.unitShift) := f.isMultiple_mul_pow (by omega)
  have hgrids : (toDigits m).length < gridCount := by
    rw [gridCount]
    omega
  obtain ⟨e, he, hpoint⟩ := exists_gridPoint?_whole hm hgrids (Nat.le_refl _)
    (gridPoint?_length_ne_none tie hmultiple)
  have hspacing : 10 ^ e ≤ 10 ^ 15 := Nat.pow_le_pow_right (by decide) (by omega)
  obtain ⟨n, hshortest, hn⟩ := eq_of_gridPoint?_whole (by omega) hpoint
  exact ⟨n, e, hshortest, hn⟩

/-- A tenth of ten times a whole number. -/
theorem ofInt_div_ten (hm : m * 10 < 2 ^ f.precision) (hten : 10 < 2 ^ f.precision)
    (hroom : f.precision + f.unitShift ≤ f.width) (h : f.Representable (m * 2 ^ f.unitShift)) :
    (ofInt (m * 10 : Nat) : Binary f) / ofInt (10 : Nat) = finite false (m * 2 ^ f.unitShift) h := by
  obtain ⟨hr, hnum⟩ := exists_ofInt_eq (f := f) hm hroom
  obtain ⟨hr', hden⟩ := exists_ofInt_eq (f := f) hten hroom
  have hpos : 0 < 10 * 2 ^ f.unitShift := Nat.mul_pos (by decide) (Nat.two_pow_pos _)
  have hquotient : m * 10 * 2 ^ f.unitShift * 2 ^ f.unitShift =
      m * 2 ^ f.unitShift * (10 * 2 ^ f.unitShift) := by
    ac_rfl
  rw [hnum, hden]
  change div _ _ = _
  rw [div, if_neg (Nat.ne_of_gt hpos), hquotient]
  exact ofQuanta_eq_finite h hpos

end Binary

end Teleop.Numeric
