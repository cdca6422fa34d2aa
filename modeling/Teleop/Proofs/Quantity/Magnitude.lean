import Teleop.Proofs.Numeric.Digits
import Teleop.Proofs.Numeric.Order
import Teleop.Proofs.Text.Scan
import Teleop.Proofs.Text.Spans
import Teleop.Quantity.Extraction

/-!
# Quantities are magnitudes

No text holds a number with a minus sign or one that is none: a numeral in digits begins with a digit,
so it is neither signed nor a name, and number words add up to a natural number. A numeral too long for
the format is an infinite magnitude. What is derived from the number of a clause, a distance, an angle
or a percentage, is a magnitude as well.
-/

namespace Teleop

open Numeric Text

/-! ## Numerals -/

/-- A decimal digit is neither a sign nor an ASCII letter. -/
theorem decimalDigits_apart :
    decimalDigitSpans.apart [(0x2B, 0x2D), (0x41, 0x5A), (0x61, 0x7A)] = true := by
  decide

theorem code_of_isDecimalDigit {c : Char} (h : isDecimalDigit c = true) :
    ¬ (0x2B ≤ c.toNat ∧ c.toNat ≤ 0x2D) ∧ ¬ (0x41 ≤ c.toNat ∧ c.toNat ≤ 0x5A) ∧
      ¬ (0x61 ≤ c.toNat ∧ c.toNat ≤ 0x7A) := by
  have hnone := Spans.has_eq_false_of_apart decimalDigits_apart h
  simp only [Spans.has, Bool.and_eq_false_imp, Bool.or_eq_false_iff, decide_eq_true_eq,
    decide_eq_false_iff_not] at hnone
  omega

/-- A numeral that begins with a digit has no sign and is no name. -/
theorem Numeric.Binary.isMagnitude_of_read? {f : Format} {c : Char} {rest : List Char} {x : Binary f}
    (hdigit : isDecimalDigit c = true) (h : Binary.read? (c :: rest) = some x) :
    x.IsMagnitude := by
  obtain ⟨hsign, hupper, hlower⟩ := code_of_isDecimalDigit hdigit
  have hunsigned : readSign (c :: rest) = (false, c :: rest) := by
    refine readSign_of_ne ?_ ?_ rest
    · rintro rfl
      exact absurd (by decide) hsign
    · rintro rfl
      exact absurd (by decide) hsign
  have hhead : asciiLower c = c := by
    unfold asciiLower
    rw [if_neg]
    simp only [Bool.and_eq_true, decide_eq_true_eq]
    exact hupper
  have hname : String.ofList ((c :: rest).map asciiLower) ≠ "nan" := by
    intro heq
    have hlist := congrArg String.toList heq
    rw [String.toList_ofList, List.map_cons, hhead] at hlist
    obtain ⟨rfl, -⟩ := List.cons.inj hlist
    exact absurd (by decide) hlower
  rw [read?, hunsigned] at h
  simp only at h
  split at h
  · cases h
    exact isMagnitude_ofDecimal _
  · split at h
    · cases h
      exact ⟨rfl, rfl⟩
    · simp at h

namespace Mention

variable {before : Option Char} {text : List Char} {m : Mention} {n k : Nat}

theorem take_of_digits (h : (false, n) ∈ numeralsAt before text) :
    ∃ c rest, text.take n = c :: rest ∧ isDecimalDigit c = true := by
  have hdigits : n = digitsLength text ∧ digitsLength text ≠ 0 := by
    simp only [numeralsAt, List.mem_append, List.mem_map] at h
    rcases h with h | ⟨_, -, h⟩
    · split at h
      · simp at h
      · rename_i hpos
        simp only [List.mem_singleton, Prod.mk.injEq, true_and] at h
        exact ⟨h, hpos⟩
    · simp at h
  obtain ⟨rfl, hpos⟩ := hdigits
  cases text with
  | nil => simp [digitsLength] at hpos
  | cons c rest =>
    obtain ⟨taken, htaken⟩ := Nat.exists_eq_succ_of_ne_zero hpos
    refine ⟨c, rest.take taken, by rw [htaken, List.take_succ_cons], ?_⟩
    cases hc : isDecimalDigit c with
    | true => rfl
    | false => simp [digitsLength, hc] at hpos

theorem numeral_of_mention (h : mention before text = some (m, k)) :
    ∃ n, (m.isSpelled, n) ∈ numeralsAt before text ∧ m.numeral = text.take n := by
  obtain ⟨⟨spelled, n⟩, hhead, hm⟩ := Option.map_eq_some_iff.mp h
  refine ⟨n, ?_⟩
  simp only at hm
  split at hm <;> cases hm <;> exact ⟨List.mem_of_mem_head? hhead, rfl⟩

theorem numeral_of_percentMention (h : percentMention before text = some (m, k)) :
    ∃ n, (m.isSpelled, n) ∈ numeralsAt before text ∧ m.numeral = text.take n := by
  obtain ⟨⟨spelled, n⟩, hfind, hm⟩ := Option.map_eq_some_iff.mp h
  cases hm
  exact ⟨_, List.mem_of_find?_eq_some hfind, rfl⟩

/-- The value of a numeral that stands in a text. -/
theorem isMagnitude_value {x : Binary64}
    (hm : ∃ n, (m.isSpelled, n) ∈ numeralsAt before text ∧ m.numeral = text.take n)
    (h : m.value? = some x) : x.IsMagnitude := by
  obtain ⟨n, hmem, hnumeral⟩ := hm
  rw [value?] at h
  split at h
  · obtain ⟨total, htotal, rfl⟩ := Option.map_eq_some_iff.mp h
    obtain ⟨n, -, hn⟩ := Option.bind_eq_some_iff.mp htotal
    cases hn
    exact Binary.isMagnitude_ofInt n
  · rename_i hdigits
    rw [Bool.not_eq_true] at hdigits
    rw [hdigits] at hmem
    obtain ⟨c, rest, htake, hdigit⟩ := take_of_digits hmem
    rw [hnumeral, htake] at h
    exact Binary.isMagnitude_of_read? hdigit h

end Mention

/-! ## The quantity of a text -/

namespace Quantity

def IsMagnitude (q : Quantity) : Prop :=
  ∀ x, q.value = some x → x.IsMagnitude

variable {q : Quantity} {text : List Char} {x : Binary64}

/-- A percentage lies between nought and a hundred. -/
theorem isWithin_clampPercent (hx : x.isNaN = false) : (clampPercent x).IsWithin 0 100 :=
  Binary.isWithin_clamp hx (Binary.ofNat_le_ofNat (by decide) (by decide) (by decide))

theorem isMagnitude_clampPercent (hx : x.IsMagnitude) : (clampPercent x).IsMagnitude :=
  hx.clamp (Binary.isMagnitude_ofNat _) (Binary.isMagnitude_ofNat _)

theorem exists_of_percentage (h : percentage? text = some q) :
    ∃ x, q = ⟨some (clampPercent x), some .percent⟩ ∧ x.IsMagnitude := by
  obtain ⟨m, hm, hrest⟩ := Option.bind_eq_some_iff.mp h
  obtain ⟨value, hvalue, hq⟩ := Option.bind_eq_some_iff.mp hrest
  obtain ⟨piece, hpiece, hfound⟩ := List.exists_of_findSome?_eq_some hm
  obtain ⟨before, rest, n, hrec⟩ := exists_of_mem_scan hpiece hfound
  exact ⟨value, (Option.some.inj hq).symm,
    Mention.isMagnitude_value (Mention.numeral_of_percentMention hrec) hvalue⟩

theorem isMagnitude_percentage (h : percentage? text = some q) : q.IsMagnitude := by
  obtain ⟨value, rfl, hvalue⟩ := exists_of_percentage h
  intro x hx
  obtain rfl := Option.some.inj hx
  exact isMagnitude_clampPercent hvalue

theorem isMagnitude_of_mem_readings {m : Mention} (h : (m, x) ∈ readings text) : x.IsMagnitude := by
  obtain ⟨piece, hpiece, hread⟩ := List.mem_filterMap.mp h
  obtain ⟨m', hm', hrest⟩ := Option.bind_eq_some_iff.mp hread
  obtain ⟨value, hvalue, hpair⟩ := Option.bind_eq_some_iff.mp hrest
  cases hpair
  obtain ⟨before, rest, n, hrec⟩ := exists_of_mem_scan hpiece hm'
  exact Mention.isMagnitude_value (Mention.numeral_of_mention hrec) hvalue

/-- The number of every quantity that is found in a text is a magnitude. -/
theorem isMagnitude_extract (text : String) : (extract text).IsMagnitude := by
  have hbare : (bare (readings text.toList)).IsMagnitude := by
    intro x hx
    obtain ⟨⟨m, value⟩, hfind, rfl⟩ := Option.map_eq_some_iff.mp hx
    exact isMagnitude_of_mem_readings (List.mem_of_find?_eq_some hfind)
  have hmeasured : ∀ q, measured? (readings text.toList) = some q → q.IsMagnitude := by
    intro q hq x hx
    obtain ⟨⟨m, value⟩, hmem, hunit⟩ := List.exists_of_findSome?_eq_some hq
    obtain ⟨unit, -, rfl⟩ := Option.map_eq_some_iff.mp hunit
    cases hx
    exact isMagnitude_of_mem_readings hmem
  rw [extract]
  cases hpercent : percentage? text.toList with
  | some q => exact isMagnitude_percentage hpercent
  | none =>
    rw [Option.getD_none]
    cases hq : measured? (readings text.toList) with
    | some q => exact hmeasured q hq
    | none => exact hbare

/-! ## What is derived from a quantity -/

theorem IsMagnitude.asMeters (hq : q.IsMagnitude) (h : q.asMeters? = some x) : x.IsMagnitude := by
  obtain ⟨value, hvalue, hrest⟩ := Option.bind_eq_some_iff.mp h
  obtain ⟨unit, -, hmeters⟩ := Option.bind_eq_some_iff.mp hrest
  have hmagnitude := hq value hvalue
  cases unit with
  | meters =>
    cases hmeters
    exact hmagnitude
  | centimeters =>
    cases hmeters
    exact hmagnitude.div_ofNat (by decide) (by decide) (by decide)
  | _ => simp at hmeters

theorem IsMagnitude.asDegrees (hq : q.IsMagnitude) (h : q.asDegrees? = some x) :
    x.IsMagnitude := by
  simp only [asDegrees?, Option.ite_none_right_eq_some] at h
  exact hq x h.2

end Quantity

end Teleop
