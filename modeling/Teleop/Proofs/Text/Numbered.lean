import Teleop.Proofs.Numeric.Digits
import Teleop.Proofs.Text.Scan
import Teleop.Proofs.Text.Spacing
import Teleop.Proofs.Text.Standing

/-!
# Numbers among words

A digit is part of a word, but no letter of a word stands for it, so a word without digits begins at no
number (`startsWithLetters_digit`). Behind a number only counts that it is part of a word
(`isWordAt_behind`).
-/

namespace Teleop.Text

open Numeric

/-! ## Digits among characters -/

section Digits

variable {d : Char}

theorem isDecimalDigit_of_isAsciiDigit (h : isAsciiDigit d = true) : isDecimalDigit d = true := by
  obtain ⟨hlow, hhigh⟩ := isAsciiDigit_iff.mp h
  simp only [isDecimalDigit, decimalDigitSpans, Spans.has, hlow, hhigh, decide_true, Bool.true_or,
    Bool.and_self]

theorem isWordChar_of_isAsciiDigit (h : isAsciiDigit d = true) : isWordChar d = true := by
  simp only [isWordChar, isDecimalDigit_of_isAsciiDigit h, Bool.or_true, Bool.true_or]

theorem isAlphanumeric_of_isAsciiDigit (h : isAsciiDigit d = true) : isAlphanumeric d = true := by
  simp only [isAlphanumeric, isDecimalDigit_of_isAsciiDigit h, Bool.or_true, Bool.true_or]

theorem isBlank_of_isAsciiDigit (h : isAsciiDigit d = true) : isBlank d = false := by
  obtain ⟨hlow, hhigh⟩ := isAsciiDigit_iff.mp h
  apply Spans.has_eq_false
  have hends : ∀ s ∈ blankSpans, s.2 < 0x30 ∨ 0x39 < s.1 := by decide
  intro s hs
  have := hends s hs
  omega

theorem simpleLower_digit (h : isAsciiDigit d = true) : simpleLower d = d := by
  have hbelow : d.toNat < 0x41 := by
    have := (isAsciiDigit_iff.mp h).2
    omega
  have hself : shiftInRuns lowercaseRuns d.toNat = d.toNat := by
    rw [lowercaseRuns, shiftInRuns, if_pos hbelow]
  rw [simpleLower, hself, Char.ofNat_toNat]

theorem isSettled_of_isAsciiDigit (h : isAsciiDigit d = true) : IsSettled d where
  fixed := simpleLower_digit h
  ne_sigma := ne_of_isAsciiDigit h (by decide)
  ne_dotted := ne_of_isAsciiDigit h (by decide)

theorem fold_digit (h : isAsciiDigit d = true) : fold d = d := by
  have hvariants : ∀ p ∈ letterVariants, isAsciiDigit p.1 = false := by decide
  rcases fold_cases d with hfold | hvariant
  · rw [hfold, simpleLower_digit h]
  · have hout := hvariants _ hvariant
    rw [simpleLower_digit h, h] at hout
    exact Bool.noConfusion hout

/-- Only a digit stands for a digit. -/
theorem sameLetter_digit {c : Char} (hc : isAsciiDigit c = false) (h : isAsciiDigit d = true) :
    sameLetter c d = false := by
  cases hsame : sameLetter c d with
  | false => rfl
  | true =>
    have heq : c = d := by
      rcases sameLetter_iff.mp hsame with heq | hfold
      · exact heq
      · have hsmall : d.toNat < 0x61 := by
          have := (isAsciiDigit_iff.mp h).2
          omega
        exact eq_of_fold_small hsmall (hfold.trans (fold_digit h))
    rw [heq, h] at hc
    exact Bool.noConfusion hc

end Digits

/-! ## Words at a number and behind it -/

section Words

variable {w x : List Char} {d e : Char}

def IsDigitless (w : List Char) : Prop :=
  ∀ c ∈ w, isAsciiDigit c = false

theorem isDigitless_of_all {words : List String}
    (h : words.all (fun w => w.toList.all (!isAsciiDigit ·)) = true) :
    ∀ w ∈ words, IsDigitless w.toList := by
  intro w hw c hc
  simpa using List.all_eq_true.mp (List.all_eq_true.mp h w hw) c hc

theorem startsWithLetters_digit (hw : IsDigitless w) (hne : w ≠ [])
    (hd : isAsciiDigit d = true) : startsWithLetters w (d :: x) = false := by
  obtain ⟨c, w, rfl⟩ := List.exists_cons_of_ne_nil hne
  rw [startsWithLetters, sameLetter_digit (hw c List.mem_cons_self) hd, Bool.false_and]

/-- Behind a digit only counts that it is part of a word. -/
theorem isWordAt_behind (hd : isAsciiDigit d = true) (he : isAsciiDigit e = true)
    (text w : List Char) : isWordAt (some d) text w = isWordAt (some e) text w := by
  have hkind : isWordChar d = isWordChar e := by
    rw [isWordChar_of_isAsciiDigit hd, isWordChar_of_isAsciiDigit he]
  rw [isWordAt, isWordAt, isBoundary, isBoundary, Option.any_some, Option.any_some, hkind]

end Words

end Teleop.Text
