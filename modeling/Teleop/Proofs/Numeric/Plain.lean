import Teleop.Numeric.Shortest
import Teleop.Proofs.Numeric.Digits
import Teleop.Proofs.Numeric.Rounding

/-!
# Plain notation reads back

The digits that are written for a number are those of a decimal that is rounded to it, whichever grid
they come from (`readsAs_shortest`). Positional notation writes out the decimal exactly, so the plain text
of every value of a format, of infinities and of what is not a number too, reads back as that value
(`Binary.read?_plain`).
-/

namespace Teleop.Numeric

/-! ## Positional notation -/

section Positional

variable {whole fraction : List Char}

/-- Digits with a point among them. -/
theorem readDecimal?_point (hwhole : IsDigits whole) (hfraction : IsDigits fraction) :
    readDecimal? (whole ++ '.' :: fraction) =
      some ⟨ofDigits (whole ++ fraction), -(fraction.length : Int)⟩ := by
  have hmantissa : (whole ++ '.' :: fraction).takeWhile (fun c => isAsciiDigit c || c == '.') =
      whole ++ '.' :: fraction := by
    have hall : ∀ c ∈ whole ++ '.' :: fraction, (isAsciiDigit c || c == '.') = true := by
      intro c hc
      rcases List.mem_append.mp hc with hc | hc
      · rw [hwhole.digits c hc, Bool.true_or]
      · rcases List.mem_cons.mp hc with rfl | hc
        · decide
        · rw [hfraction.digits c hc, Bool.true_or]
    exact takeWhile_all hall
  have hpoint : (whole ++ '.' :: fraction).takeWhile (· != '.') = whole := by
    refine takeWhile_stop (fun c hc => ?_) (by simp)
    simpa using ne_of_isAsciiDigit (hwhole.digits c hc) (by decide)
  have hdigits : (whole ++ fraction).isEmpty = false := by simp [hwhole.ne_nil]
  have hall : fraction.all isAsciiDigit = true := List.all_eq_true.mpr hfraction.digits
  simp only [readDecimal?, hmantissa, hpoint, List.drop_left, List.drop_one, List.tail_cons, hdigits,
    hall, List.drop_length]
  simp

/-- Digits by themselves. -/
theorem readDecimal?_digits (hwhole : IsDigits whole) :
    readDecimal? whole = some ⟨ofDigits whole, 0⟩ := by
  have hmantissa : whole.takeWhile (fun c => isAsciiDigit c || c == '.') = whole := by
    have hall : ∀ c ∈ whole, (isAsciiDigit c || c == '.') = true := by
      intro c hc
      rw [hwhole.digits c hc, Bool.true_or]
    exact takeWhile_all hall
  have hpoint : whole.takeWhile (· != '.') = whole := by
    have hall : ∀ c ∈ whole, (c != '.') = true := by
      intro c hc
      simpa using ne_of_isAsciiDigit (hwhole.digits c hc) (by decide)
    exact takeWhile_all hall
  have hdigits : whole.isEmpty = false := by simp [hwhole.ne_nil]
  simp only [readDecimal?, hmantissa, hpoint, List.drop_length, List.drop_nil, List.append_nil, hdigits]
  simp

end Positional

/-- Positional notation is a row of digits, or two with a point between them, that has the same exact
quotient. -/
inductive Decimal.IsWritten (d : Decimal) : List Char → Prop where
  | digits {whole : List Char} (hwhole : IsDigits whole) (hratio : ratio ⟨ofDigits whole, 0⟩ = d.ratio) :
      d.IsWritten whole
  | point {whole fraction : List Char} (hwhole : IsDigits whole) (hfraction : IsDigits fraction)
      (hdecimal : ⟨ofDigits (whole ++ fraction), -(fraction.length : Int)⟩ = d) :
      d.IsWritten (whole ++ '.' :: fraction)

namespace Decimal

variable {d : Decimal} {text : List Char}

theorem isWritten_positional (d : Decimal) : d.IsWritten d.positional := by
  obtain ⟨n, e⟩ := d
  have hdigits := isDigits_toDigits n
  cases e with
  | ofNat e =>
    simp only [positional]
    split
    · rename_i hzero
      subst hzero
      exact .digits isDigits_zero (by simp [ratio, ofDigits, digitValue])
    · refine .digits (hdigits.append_zeros e) ?_
      simp [ratio, ofDigits_append_zeros, ofDigits_toDigits]
  | negSucc e =>
    simp only [positional]
    split
    · rename_i hinside
      refine .point (hdigits.take (by omega)) (hdigits.drop (by omega)) ?_
      rw [List.take_append_drop, ofDigits_toDigits, List.length_drop, mk.injEq]
      refine ⟨rfl, ?_⟩
      omega
    · rename_i houtside
      have hvalue (k : Nat) : ofDigits (['0'] ++ (List.replicate k '0' ++ toDigits n)) = n := by
        change ofDigits (List.replicate 1 '0' ++ _) = n
        rw [ofDigits_zeros_append, ofDigits_zeros_append, ofDigits_toDigits]
      have hpoint : IsWritten ⟨n, .negSucc e⟩ (['0'] ++
          '.' :: (List.replicate (e + 1 - (toDigits n).length) '0' ++ toDigits n)) := by
        refine .point isDigits_zero (hdigits.zeros_append _) ?_
        rw [hvalue, List.length_append, List.length_replicate, mk.injEq]
        refine ⟨rfl, ?_⟩
        omega
      exact hpoint

theorem IsWritten.readDecimal? (h : d.IsWritten text) :
    ∃ d', readDecimal? text = some d' ∧ d'.ratio = d.ratio := by
  cases h with
  | digits hwhole hratio => exact ⟨_, readDecimal?_digits hwhole, hratio⟩
  | point hwhole hfraction hdecimal =>
    exact ⟨_, readDecimal?_point hwhole hfraction, by rw [hdecimal]⟩

theorem IsWritten.exists_head (h : d.IsWritten text) :
    ∃ c rest, text = c :: rest ∧ isAsciiDigit c = true := by
  cases h with
  | digits hwhole _ => exact hwhole.exists_head
  | point hwhole _ _ =>
    obtain ⟨c, rest, rfl, hdigit⟩ := hwhole.exists_head
    exact ⟨c, _, rfl, hdigit⟩

end Decimal

/-! ## The shortest decimal -/

theorem readsBack_of_gridPoint? {tie : Tie} {readsBack : Decimal → Bool} {num den : Nat}
    {exponent : Int} {d : Decimal} (h : gridPoint? tie readsBack num den exponent = some d) :
    readsBack d = true := by
  unfold gridPoint? at h
  grind

namespace Binary

variable {f : Format} {quanta : Nat}

/-- The exact expansion of a magnitude reads as it. -/
theorem readsAs_expansion (h : f.IsMultiple quanta) :
    readsAs f quanta ⟨quanta * 5 ^ f.unitShift, -f.unitShift⟩ = true := by
  have hratio : Decimal.ratio ⟨quanta * 5 ^ f.unitShift, -f.unitShift⟩ =
      (quanta * 5 ^ f.unitShift, 10 ^ f.unitShift) := by
    cases f.unitShift with
    | zero => simp [Decimal.ratio]
    | succ k => rfl
  have hexact : quanta * 5 ^ f.unitShift * 2 ^ f.unitShift = quanta * 10 ^ f.unitShift := by
    rw [Nat.mul_assoc, ← Nat.mul_pow]
  rw [readsAs, hratio]
  simp only [hexact, decide_eq_true_eq]
  exact f.nearest_of_isMultiple h (Nat.pow_pos (by decide))

/-- The shortest decimal of a magnitude reads as it. -/
theorem readsAs_shortest (tie : Tie) (h : f.IsMultiple quanta) :
    readsAs f quanta (shortest f tie quanta) = true := by
  rw [shortest]
  cases hgrids : (List.range gridCount).findSome? fun (n : Nat) =>
      gridPoint? tie (readsAs f quanta) quanta (2 ^ f.unitShift)
        (exponentAbove quanta (2 ^ f.unitShift) - n) with
  | some d =>
    obtain ⟨n, -, hpoint⟩ := List.exists_of_findSome?_eq_some hgrids
    exact readsBack_of_gridPoint? hpoint
  | none => exact readsAs_expansion h

theorem eq_zero_of_readsAs {d : Decimal} (hd : d.digits = 0) (h : readsAs f quanta d = true) :
    quanta = 0 := by
  obtain ⟨n, e⟩ := d
  obtain rfl : n = 0 := hd
  have hpos := Decimal.ratio_pos ⟨0, e⟩
  simp only [readsAs, Decimal.ratio_zero, Nat.zero_mul, decide_eq_true_eq] at h
  rw [← h, Format.nearest_of_small (by simpa using hpos)]

/-- A decimal that reads as a magnitude has that value. -/
theorem ofDecimal_of_readsAs {d : Decimal} (h : readsAs f quanta d = true) (negative : Bool)
    (hr : f.Representable quanta) : (ofDecimal negative d : Binary f) = finite negative quanta hr := by
  rw [ofDecimal_eq, ofRatio]
  refine ofQuanta_of_nearest ?_ hr
  simpa [readsAs] using h

/-- Positional notation behind a sign reads as the magnitude that its decimal reads as. -/
theorem read?_positional {d : Decimal} (h : readsAs f quanta d = true) (negative : Bool)
    (hr : f.Representable quanta) :
    read? ((if negative then ['-'] else []) ++ d.positional) = some (finite negative quanta hr) := by
  obtain ⟨c, rest, htext, hdigit⟩ := d.isWritten_positional.exists_head
  obtain ⟨d', hread, hratio⟩ := d.isWritten_positional.readDecimal?
  have hsign : readSign ((if negative then ['-'] else []) ++ d.positional) =
      (negative, d.positional) := by
    cases negative with
    | true => rfl
    | false =>
      rw [htext]
      exact readSign_of_ne (ne_of_isAsciiDigit hdigit (by decide))
        (ne_of_isAsciiDigit hdigit (by decide)) rest
  have hvalue : (ofDecimal negative d' : Binary f) = finite negative quanta hr := by
    refine ofDecimal_of_readsAs ?_ negative hr
    rwa [readsAs, hratio]
  simp only [read?, hsign, hread, hvalue]

theorem readsAs_natural {n : Nat} (h : f.IsMultiple (n * 2 ^ f.unitShift)) :
    readsAs f (n * 2 ^ f.unitShift) ⟨n, 0⟩ = true := by
  have hexact := f.nearest_of_isMultiple h Nat.one_pos
  simpa [readsAs, Decimal.ratio] using hexact

/-- A row of digits reads as the natural number that it denotes. -/
theorem read?_digits {digits : List Char} (h : IsDigits digits) :
    read? digits = some (ofInt (ofDigits digits) : Binary f) := by
  obtain ⟨c, rest, htext, hdigit⟩ := h.exists_head
  have hsign : readSign digits = (false, digits) := by
    rw [htext]
    exact readSign_of_ne (ne_of_isAsciiDigit hdigit (by decide))
      (ne_of_isAsciiDigit hdigit (by decide)) rest
  have hvalue : (ofDecimal false ⟨ofDigits digits, 0⟩ : Binary f) = ofInt (ofDigits digits) := by
    rw [ofDecimal_eq, ofInt_natCast]
    simp [Decimal.ratio]
  simp only [read?, hsign, readDecimal?_digits h, hvalue]

/-- The plain text of a value reads back as the value. -/
theorem read?_plain (x : Binary f) : read? x.plain = some x := by
  cases x with
  | nan => rfl
  | infinite s => cases s <;> rfl
  | finite s q hq =>
    by_cases hzero : q = 0
    · subst hzero
      have hplain : (finite s 0 hq).plain =
          (if s then ['-'] else []) ++ Decimal.positional ⟨0, 0⟩ := by
        cases s <;> rfl
      rw [hplain]
      refine read?_positional ?_ s hq
      simpa using readsAs_natural (f := f) (n := 0) (by simpa using hq.1)
    · have hplain : (finite s q hq).plain =
          (if s then ['-'] else []) ++ (shortest f .up q).positional := by
        cases s <;> simp [plain, hzero]
      rw [hplain]
      exact read?_positional (readsAs_shortest .up hq.1) s hq

end Binary

end Teleop.Numeric
