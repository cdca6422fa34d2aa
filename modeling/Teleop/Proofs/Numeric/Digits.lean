import Teleop.Numeric.Numeral

/-!
# Rows of digits

The digits of a natural number denote it, and zeros before a row of digits do not count. Every character
of a row of digits is a digit, so it is told from a point, a sign and a letter.
-/

namespace Teleop.Numeric

/-- The characters at the head of a text that have a property, where the next one has not. -/
theorem takeWhile_stop {α : Type} {p : α → Bool} {taken rest : List α}
    (htaken : ∀ a ∈ taken, p a = true) (hrest : ∀ a ∈ rest.head?, p a = false) :
    (taken ++ rest).takeWhile p = taken := by
  rw [List.takeWhile_append_of_pos htaken]
  cases rest with
  | nil => rw [List.takeWhile_nil, List.append_nil]
  | cons a rest =>
    rw [List.takeWhile_cons_of_neg (by simp [hrest a rfl]), List.append_nil]

theorem takeWhile_all {α : Type} {p : α → Bool} {l : List α} (h : ∀ a ∈ l, p a = true) :
    l.takeWhile p = l := by
  have hstop : (l ++ []).takeWhile p = l := takeWhile_stop h nofun
  rwa [List.append_nil] at hstop

theorem ofDigits_eq (digits : List Char) : ofDigits digits = Nat.ofDigitChars 10 digits 0 :=
  (Nat.ofDigitChars_eq_foldl).symm

theorem ofDigits_toDigits (n : Nat) : ofDigits (toDigits n) = n := by
  rw [ofDigits_eq, toDigits, Nat.ofDigitChars_ten_toDigits]

theorem ofDigits_zeros_append (n : Nat) (digits : List Char) :
    ofDigits (List.replicate n '0' ++ digits) = ofDigits digits := by
  rw [ofDigits_eq, Nat.ofDigitChars_append, Nat.ofDigitChars_replicate_zero, Nat.mul_zero,
    ofDigits_eq]

theorem ofDigits_append_zeros (digits : List Char) (n : Nat) :
    ofDigits (digits ++ List.replicate n '0') = ofDigits digits * 10 ^ n := by
  rw [ofDigits_eq, Nat.ofDigitChars_append, Nat.ofDigitChars_replicate_zero, ofDigits_eq,
    Nat.mul_comm]

/-- A one with enough zeros behind it. -/
theorem two_pow_le_ofDigits_one_zeros {k n : Nat} (hk : k ≤ 3 * n) :
    2 ^ k ≤ ofDigits ('1' :: List.replicate n '0') := by
  have hdigits : ofDigits ('1' :: List.replicate n '0') = 1 * 10 ^ n := ofDigits_append_zeros ['1'] n
  calc 2 ^ k
      ≤ 2 ^ (3 * n) := Nat.pow_le_pow_right (by decide) hk
    _ = (2 ^ 3) ^ n := Nat.pow_mul ..
    _ ≤ 10 ^ n := Nat.pow_le_pow_left (by decide) n
    _ = ofDigits ('1' :: List.replicate n '0') := by rw [hdigits, Nat.one_mul]

/-! ## Digits among characters -/

theorem isAsciiDigit_iff {c : Char} : isAsciiDigit c = true ↔ 0x30 ≤ c.toNat ∧ c.toNat ≤ 0x39 := by
  simp only [isAsciiDigit, Bool.and_eq_true, decide_eq_true_eq]
  exact Iff.rfl

/-- A digit is not one of the characters that stand between digits. -/
theorem ne_of_isAsciiDigit {c mark : Char} (hc : isAsciiDigit c = true)
    (hmark : isAsciiDigit mark = false) : c ≠ mark := by
  rintro rfl
  rw [hc] at hmark
  exact Bool.noConfusion hmark

theorem readSign_of_ne {c : Char} (hminus : c ≠ '-') (hplus : c ≠ '+') (rest : List Char) :
    readSign (c :: rest) = (false, c :: rest) := by
  unfold readSign
  split
  · rename_i heq
    exact absurd (List.cons.inj heq).1 hminus
  · rename_i heq
    exact absurd (List.cons.inj heq).1 hplus
  · rfl

/-! ## Rows of digits -/

structure IsDigits (text : List Char) : Prop where
  ne_nil : text ≠ []
  digits : ∀ c ∈ text, isAsciiDigit c = true

theorem isDigits_iff {text : List Char} :
    (!text.isEmpty && text.all isAsciiDigit) = true ↔ IsDigits text := by
  rw [Bool.and_eq_true, Bool.not_eq_true', List.isEmpty_eq_false_iff, List.all_eq_true]
  exact ⟨fun h => ⟨h.1, h.2⟩, fun h => ⟨h.ne_nil, h.digits⟩⟩

instance (text : List Char) : Decidable (IsDigits text) :=
  decidable_of_iff _ isDigits_iff

theorem isDigits_toDigits (n : Nat) : IsDigits (toDigits n) where
  ne_nil := Nat.toDigits_ne_nil
  digits := by
    intro c hc
    have hdigit := Nat.isDigit_of_mem_toDigits (by decide) (by decide) hc
    simp only [Char.isDigit, ge_iff_le, Bool.and_eq_true, decide_eq_true_eq] at hdigit
    exact isAsciiDigit_iff.mpr hdigit

/-- A power of ten adds zeros behind the digits of a positive number. -/
theorem toDigits_mul_ten_pow {n : Nat} (hn : 0 < n) (e : Nat) :
    toDigits (n * 10 ^ e) = toDigits n ++ List.replicate e '0' := by
  induction e with
  | zero => rw [Nat.pow_zero, Nat.mul_one, List.replicate_zero, List.append_nil]
  | succ e ih =>
    have hpos : 0 < n * 10 ^ e := Nat.mul_pos hn (Nat.pow_pos (by decide))
    have happend := Nat.toDigits_append_toDigits (b := 10) (d := 0) (by decide) hpos (by decide)
    rw [Nat.toDigits_zero, Nat.add_zero] at happend
    rw [toDigits, Nat.pow_succ, ← Nat.mul_assoc, Nat.mul_comm _ 10, ← happend, ← toDigits, ih,
      List.append_assoc, List.replicate_succ']

theorem isDigits_zero : IsDigits ['0'] := ⟨by simp, by simp [isAsciiDigit_iff]⟩

namespace IsDigits

variable {text : List Char}

theorem exists_head (h : IsDigits text) : ∃ c rest, text = c :: rest ∧ isAsciiDigit c = true := by
  obtain ⟨c, rest, rfl⟩ := List.exists_cons_of_ne_nil h.ne_nil
  exact ⟨c, rest, rfl, h.digits c List.mem_cons_self⟩

theorem append_zeros (h : IsDigits text) (n : Nat) : IsDigits (text ++ List.replicate n '0') := by
  refine ⟨by simp [h.ne_nil], fun c hc => ?_⟩
  rcases List.mem_append.mp hc with hc | hc
  · exact h.digits c hc
  · rw [List.eq_of_mem_replicate hc]
    decide

theorem zeros_append (h : IsDigits text) (n : Nat) : IsDigits (List.replicate n '0' ++ text) := by
  refine ⟨by simp [h.ne_nil], fun c hc => ?_⟩
  rcases List.mem_append.mp hc with hc | hc
  · rw [List.eq_of_mem_replicate hc]
    decide
  · exact h.digits c hc

theorem take (h : IsDigits text) {n : Nat} (hn : 0 < n) : IsDigits (text.take n) := by
  refine ⟨?_, fun c hc => h.digits c (List.mem_of_mem_take hc)⟩
  rw [ne_eq, List.take_eq_nil_iff]
  simp only [h.ne_nil, or_false]
  omega

theorem drop (h : IsDigits text) {n : Nat} (hn : n < text.length) : IsDigits (text.drop n) := by
  refine ⟨?_, fun c hc => h.digits c (List.mem_of_mem_drop hc)⟩
  rw [ne_eq, List.drop_eq_nil_iff]
  omega

theorem readDigits? (h : IsDigits text) : readDigits? text = some (ofDigits text) := by
  have hempty : text.isEmpty = false := by simp [h.ne_nil]
  have hall : text.all isAsciiDigit = true := List.all_eq_true.mpr h.digits
  simp [Numeric.readDigits?, hempty, hall]

end IsDigits

/-- The digits of a 64-bit natural number read back. -/
theorem readWord?_toDigits {n : Nat} (hn : n < UInt64.size) : readWord? (toDigits n) = some n := by
  have hread := (isDigits_toDigits n).readDigits?
  rw [ofDigits_toDigits] at hread
  obtain ⟨c, rest, hdigits, hdigit⟩ := (isDigits_toDigits n).exists_head
  rw [hdigits] at hread ⊢
  have hplus : c ≠ '+' := ne_of_isAsciiDigit hdigit (by decide)
  unfold readWord?
  split
  · rename_i heq
    exact absurd (List.cons.inj heq).1 hplus
  · simp [hread, hn]

/-- The first digit of a positive number is not zero. -/
theorem head?_toDigits {n : Nat} (hn : n ≠ 0) : (toDigits n).head? ≠ some '0' := by
  induction n using Nat.strongRecOn with
  | _ n ih =>
    rw [toDigits, Nat.toDigits_eq_if (by decide)]
    split
    · rw [List.head?_cons, ne_eq, Option.some.injEq, Nat.digitChar_eq_zero]
      exact hn
    · rename_i hlarge
      have hhead := ih (n / 10) (by omega) (by omega)
      obtain ⟨c, rest, hdigits, -⟩ := (isDigits_toDigits (n / 10)).exists_head
      rw [hdigits] at hhead
      rw [toDigits] at hdigits
      rwa [hdigits]

end Teleop.Numeric
