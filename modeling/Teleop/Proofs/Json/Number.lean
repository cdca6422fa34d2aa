import Teleop.Proofs.Json.Document
import Teleop.Proofs.Numeric.Exact
import Teleop.Proofs.Numeric.Whole
import Teleop.Record.Fields

/-!
# Numbers are well written

Whatever the style and wherever the point falls, a decimal that is not zero is written with the digits
that a number must have, so the document of every value of a format is well written. Reading one back
gives the number as it was written; the value it then has is a matter of its own (`Json.rewritten?`). A
value that is not finite has none, and a whole number of at most fourteen digits has its own. A word of 64
bits is always read back, and also has a value, the one nearest to it (`JsonNumber.toBinary64?_ofNat`).
-/

namespace Teleop

open Numeric

namespace JsonNumber

/-- Rows of digits around a point, the first of which does not begin with an idle zero. -/
theorem isWellWritten_fraction {negative : Bool} {whole fraction : List Char} (hwhole : IsDigits whole)
    (hleading : whole.head? ≠ some '0' ∨ whole.length = 1) (hfraction : IsDigits fraction) :
    (⟨negative, whole, some fraction, none⟩ : JsonNumber).IsWellWritten where
  whole := hwhole
  leading := hleading
  fraction := by
    rintro digits ⟨⟩
    exact hfraction
  exponent := nofun

theorem head?_take {digits : List Char} {n : Nat} (hn : 0 < n) :
    (digits.take n).head? = digits.head? := by
  rw [List.head?_take, if_neg (by omega)]

/-- A decimal other than zero is well written in every style. -/
theorem isWellWritten_ofDecimal (style : Style) (negative : Bool) {d : Decimal} (hd : d.digits ≠ 0) :
    (ofDecimal style negative d).IsWellWritten := by
  have hdigits := isDigits_toDigits d.digits
  have hhead := head?_toDigits hd
  simp only [ofDecimal]
  generalize toDigits d.digits = digits at hdigits hhead ⊢
  split
  · split
    · refine isWellWritten_fraction (hdigits.append_zeros _) (Or.inl ?_) isDigits_zero
      obtain ⟨c, rest, rfl, -⟩ := hdigits.exists_head
      exact hhead
    · split
      · rename_i hinside hpos
        refine isWellWritten_fraction (hdigits.take (by omega)) (Or.inl ?_) (hdigits.drop (by omega))
        rwa [head?_take (by omega)]
      · exact isWellWritten_fraction isDigits_zero (Or.inr rfl) (hdigits.zeros_append _)
  · refine ⟨hdigits.take Nat.one_pos, Or.inl (by rwa [head?_take Nat.one_pos]), ?_, ?_⟩
    · intro fraction hfraction
      simp only [Option.ite_none_left_eq_some, Option.some.injEq] at hfraction
      obtain ⟨hlength, rfl⟩ := hfraction
      have hpos : 0 < digits.length := List.length_pos_iff.mpr hdigits.ne_nil
      exact hdigits.drop (by omega)
    · rintro negative exponent ⟨⟩
      exact isDigits_toDigits _

theorem isWellWritten_ofBinary {f : Format} {style : Style} {x : Binary f} {n : JsonNumber}
    (h : ofBinary? style x = some n) : n.IsWellWritten := by
  cases x with
  | finite s q hq =>
    simp only [ofBinary?, Option.some.injEq] at h
    subst h
    split
    · exact isWellWritten_fraction isDigits_zero (Or.inr rfl) isDigits_zero
    · rename_i hne
      refine isWellWritten_ofDecimal style s fun hzero => hne ?_
      exact Binary.eq_zero_of_readsAs hzero (Binary.readsAs_shortest .even hq.1)
  | _ => simp [ofBinary?] at h

end JsonNumber

/-! ## Whole numbers -/

namespace JsonNumber

theorem foldl_takeWhole {digits : List Char} {word : Nat}
    (h : Nat.ofDigitChars 10 digits word < UInt64.size) :
    digits.foldl Gathered.takeWhole ⟨word, 0⟩ = ⟨Nat.ofDigitChars 10 digits word, 0⟩ := by
  induction digits generalizing word with
  | nil => rfl
  | cons c rest ih =>
    rw [Nat.ofDigitChars_cons] at h ⊢
    have hnext : 10 * word + (c.toNat - '0'.toNat) < UInt64.size := by
      refine Nat.lt_of_le_of_lt ?_ h
      rw [Nat.ofDigitChars_eq_ofDigitChars_zero]
      exact Nat.le_add_right_of_le (Nat.le_mul_of_pos_left _ (Nat.pow_pos (by decide)))
    have htake : Gathered.takeWhole ⟨word, 0⟩ c = ⟨10 * word + (c.toNat - '0'.toNat), 0⟩ := by
      simpa [Gathered.takeWhole, digitValue, Nat.mul_comm word] using hnext
    rw [List.foldl_cons, htake, ih h]

/-- The word that a whole number with a point and a zero behind it amounts to. -/
theorem gather_whole {negative : Bool} {whole : List Char} (h : ofDigits whole * 10 < UInt64.size) :
    gather ⟨negative, whole, some ['0'], none⟩ = (ofDigits whole * 10, -1) := by
  have hwhole : whole.foldl Gathered.takeWhole ⟨0, 0⟩ = ⟨ofDigits whole, 0⟩ := by
    rw [ofDigits_eq] at h ⊢
    exact foldl_takeWhole (by omega)
  have hfraction : gatherFraction (ofDigits whole) 0 ['0'] = (ofDigits whole * 10, 1) := by
    simp [gatherFraction, digitValue, h]
  simp [gather, hwhole, hfraction]

/-- A whole number of at most fourteen digits is written with all of them. -/
theorem ofBinary?_whole {f : Format} {negative : Bool} {m : Nat}
    (hlength : (toDigits m).length ≤ 14) (hroom : 2 * 10 ^ (15 : Nat) ≤ 2 ^ f.precision)
    (h : f.Representable (m * 2 ^ f.unitShift)) :
    ofBinary? .wide (Binary.finite negative (m * 2 ^ f.unitShift) h) =
      some ⟨negative, toDigits m, some ['0'], none⟩ := by
  by_cases hm : m = 0
  · subst hm
    rw [ofBinary?, if_pos (Nat.zero_mul _)]
    rfl
  have hne : m * 2 ^ f.unitShift ≠ 0 := Nat.mul_ne_zero hm (Nat.ne_of_gt (Nat.two_pow_pos _))
  obtain ⟨n, e, hshortest, rfl⟩ :=
    Binary.shortest_whole .even (Nat.pos_of_ne_zero hm) (by omega) hroom
  have hn : 0 < n := Nat.pos_of_mul_pos_right (Nat.pos_of_ne_zero hm)
  have hpos : 0 < (toDigits n).length := List.length_pos_iff.mpr (isDigits_toDigits n).ne_nil
  rw [toDigits_mul_ten_pow hn, List.length_append, List.length_replicate] at hlength
  rw [ofBinary?, if_neg hne, hshortest, toDigits_mul_ten_pow hn]
  have hlow : Style.wide.least < (toDigits n).length + (e : Int) := by
    simp only [Style.wide]
    omega
  have hhigh : (toDigits n).length + (e : Int) ≤ Style.wide.most := by
    simp only [Style.wide]
    omega
  have hbehind : ((toDigits n).length : Int) ≤ (toDigits n).length + (e : Int) := by omega
  have hplain := Bool.and_eq_true_iff.mpr ⟨decide_eq_true hlow, decide_eq_true hhigh⟩
  change some (ofDecimal .wide negative ⟨n, (e : Int)⟩) = _
  rw [ofDecimal]
  dsimp only
  rw [if_pos hplain, if_pos hbehind, Int.toNat_natCast]

end JsonNumber

namespace Json

/-- The value that is read where a value was written. -/
def rewritten? (x : Binary64) : Option Binary64 :=
  (ofBinary64 x).asBinary64?

/-- Nothing is read where a value was written that is not finite. -/
theorem rewritten?_of_not_finite {x : Binary64} (h : x.isFinite = false) : rewritten? x = none := by
  cases x with
  | finite s q hq => exact Bool.noConfusion h
  | _ => rfl

theorem isFinite_of_rewritten? {x y : Binary64} (h : rewritten? x = some y) : x.isFinite = true := by
  cases x with
  | finite s q hq => rfl
  | _ => exact nomatch h

/-- Whether a value is read back where it was written, unless it is not finite. -/
def ReadsBack (x : Binary64) : Prop :=
  x.isFinite = true → rewritten? x = some x

/-- Whole numbers of at most fourteen digits read back. -/
theorem rewritten?_whole {negative : Bool} {m : Nat} (hlength : (toDigits m).length ≤ 14)
    (h : binary64.Representable (m * 2 ^ binary64.unitShift)) :
    rewritten? (.finite negative (m * 2 ^ binary64.unitShift) h) =
      some (.finite negative (m * 2 ^ binary64.unitShift) h) := by
  have hm : m < 10 ^ 14 := (Nat.length_toDigits_le_iff (by decide) (by decide)).mp hlength
  have hword : ofDigits (toDigits m) * 10 < UInt64.size := by
    rw [ofDigits_toDigits, UInt64.size]
    omega
  have hgather : JsonNumber.gather ⟨negative, toDigits m, some ['0'], none⟩ = (m * 10, -1) := by
    rw [JsonNumber.gather_whole hword, ofDigits_toDigits]
  have hten : JsonNumber.powerOfTen 1 = Binary.ofInt (10 : Nat) := by
    rw [JsonNumber.powerOfTen, Binary.ofDecimal_eq]
    rfl
  have hscale : JsonNumber.scale? (m * 10) (-1) =
      some (.finite false (m * 2 ^ binary64.unitShift) h) := by
    change JsonNumber.scale? (m * 10) (.negSucc 0) = _
    have hexact : m * 10 < 2 ^ binary64.precision := by
      have hroom : 10 ^ 14 * 10 < 2 ^ binary64.precision := by decide
      omega
    rw [JsonNumber.scale?, if_pos (by decide), hten,
      Binary.ofInt_div_ten hexact (by decide) (by decide) h]
  have hwritten : ofBinary64 (.finite negative (m * 2 ^ binary64.unitShift) h) =
      .number ⟨negative, toDigits m, some ['0'], none⟩ := by
    rw [ofBinary64, JsonNumber.ofBinary?_whole hlength (by decide)]
    rfl
  rw [rewritten?, hwritten]
  simp only [asBinary64?, JsonNumber.toBinary64?, JsonNumber.magnitude?, hgather, hscale]
  cases negative <;> rfl

theorem readsBack_ofNat {n : Nat} (hn : n < 10 ^ (14 : Nat)) : ReadsBack (OfNat.ofNat n) := by
  have hexact : n < 2 ^ binary64.precision := Nat.lt_trans hn (by decide)
  obtain ⟨h, heq⟩ := Binary.exists_ofInt_eq hexact (by decide)
  intro _
  change rewritten? (Binary.ofInt n) = some (Binary.ofInt n)
  rw [heq]
  exact rewritten?_whole ((Nat.length_toDigits_le_iff (by decide) (by decide)).mpr hn) h

end Json

namespace Json

theorem isWellWritten_ofBinary64 (x : Binary64) : (ofBinary64 x).IsWellWritten := by
  rw [ofBinary64]
  cases hx : JsonNumber.ofBinary? .wide x with
  | none => exact .null
  | some n => exact .number (JsonNumber.isWellWritten_ofBinary hx)

theorem isWellWritten_ofBinary32 (x : Binary32) : (ofBinary32 x).IsWellWritten := by
  rw [ofBinary32]
  cases hx : JsonNumber.ofBinary? .narrow x with
  | none => exact .null
  | some n => exact .number (JsonNumber.isWellWritten_ofBinary hx)

/-- The value that is read where a 32-bit value was written. -/
def rewrittenNarrow? (x : Binary32) : Option Binary32 :=
  (ofBinary32 x).asBinary32?

theorem isFinite_of_rewrittenNarrow? {x y : Binary32} (h : rewrittenNarrow? x = some y) :
    x.isFinite = true := by
  cases x with
  | finite s q hq => rfl
  | _ => exact nomatch h

def ReadsBackNarrow (x : Binary32) : Prop :=
  x.isFinite = true → rewrittenNarrow? x = some x

end Json

/-! ## Words -/

namespace JsonNumber

theorem isWellWritten_ofNat (n : Nat) : (ofNat n).IsWellWritten where
  whole := isDigits_toDigits n
  leading := by
    by_cases hn : n = 0
    · subst hn
      exact Or.inr rfl
    · exact Or.inl (head?_toDigits hn)
  fraction := nofun
  exponent := nofun

theorem toWord?_ofNat (word : UInt64) : (ofNat word.toNat).toWord? = some word := by
  simp [toWord?, ofNat, isInteger, ofDigits_toDigits, word.toNat_lt_size]

theorem gather_ofNat (word : UInt64) : (ofNat word.toNat).gather = (word.toNat, 0) := by
  have hdigits : Nat.ofDigitChars 10 (toDigits word.toNat) 0 = word.toNat := by
    rw [← ofDigits_eq, ofDigits_toDigits]
  have hwhole : (toDigits word.toNat).foldl Gathered.takeWhole ⟨0, 0⟩ = ⟨word.toNat, 0⟩ := by
    rw [foldl_takeWhole (by rw [hdigits]; exact word.toNat_lt_size), hdigits]
  simp [gather, ofNat, hwhole, gatherFraction]

/-- A word that is not scaled is the value nearest to it. -/
theorem scale?_word (word : UInt64) : scale? word.toNat 0 = some (.ofInt word.toNat) := by
  have hone : powerOfTen 0 = Binary.ofInt (1 : Nat) := by
    rw [powerOfTen, Binary.ofDecimal_eq]
    rfl
  have hlt : word.toNat < 2 ^ 64 := word.toNat_lt_size
  obtain ⟨q, hq, hvalue⟩ := Binary.exists_ofInt_finite (f := binary64) hlt (by decide) (by decide)
  have hproduct : (Binary.ofInt word.toNat : Binary64) * powerOfTen 0 = .finite false q hq := by
    rw [hone, hvalue]
    exact Binary.finite_mul_one (by decide) (by decide)
  have hscale : scale? word.toNat (.ofNat 0) =
      if ((Binary.ofInt word.toNat : Binary64) * powerOfTen 0).isFinite then
        some (Binary.ofInt word.toNat * powerOfTen 0) else none := by
    rw [scale?, if_pos (Nat.zero_le _)]
  rw [hproduct] at hscale
  rw [hvalue]
  exact hscale.trans (if_pos rfl)

theorem toBinary64?_ofNat (word : UInt64) :
    (ofNat word.toNat).toBinary64? = some (.ofInt word.toNat) := by
  have hmagnitude : (ofNat word.toNat).magnitude? = some (.ofInt word.toNat) := by
    rw [magnitude?, gather_ofNat]
    exact scale?_word word
  rw [toBinary64?, hmagnitude, Option.map_some]
  exact congrArg some (if_neg Bool.false_ne_true)

end JsonNumber

namespace Json

theorem isWellWritten_ofNat (n : Nat) : (ofNat n).IsWellWritten :=
  .number (JsonNumber.isWellWritten_ofNat n)

theorem asWord?_ofNat (word : UInt64) : (ofNat word.toNat).asWord? = some word :=
  JsonNumber.toWord?_ofNat word

end Json

end Teleop
