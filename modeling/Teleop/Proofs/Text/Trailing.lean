import Teleop.Proofs.Text.Standing
import Teleop.Proofs.Text.Words

/-!
# Spaces and full stops behind a text

No pattern that ends in another character reaches into spaces and full stops behind a text, and they bound
the last word as the edge of the text does. So a pattern stands in the text as it stands with them behind it.
-/

namespace Teleop.Text

def IsTrailing (z : List Char) : Prop :=
  ∀ c ∈ z, c = ' ' ∨ c = '.'

variable {w v z : List Char} {c l : Char} {before : Option Char} {n : Nat}

theorem IsTrailing.suffix {a : List Char} (h : IsTrailing (a ++ z)) : IsTrailing z :=
  fun c hc => h c (List.mem_append_right _ hc)

theorem IsTrailing.drop (h : IsTrailing z) (k : Nat) : IsTrailing (z.drop k) :=
  fun c hc => h c (List.mem_of_mem_drop hc)

theorem trailing_char (h : c = ' ' ∨ c = '.') : isWordChar c = false ∧ isDecimalDigit c = false ∧
    fold c = c ∧ c.toNat < 0x61 := by
  rcases h with rfl | rfl
  · exact ⟨isWordChar_of_isBlank (by decide), by decide, by decide, by decide⟩
  · exact ⟨by decide, by decide, by decide, by decide⟩

/-- Only a space or a full stop stands for itself. -/
theorem eq_of_sameLetter_trailing (h : c = ' ' ∨ c = '.') (hsame : sameLetter l c = true) : l = c := by
  obtain ⟨-, -, hfold, hsmall⟩ := trailing_char h
  rcases sameLetter_iff.mp hsame with heq | heq
  · exact heq
  · exact eq_of_fold_small hsmall (heq.trans hfold)

/-- A pattern whose last character is neither a space nor a full stop. -/
def EndsInside (w : List Char) : Prop :=
  ∀ l ∈ w.getLast?, l ≠ ' ' ∧ l ≠ '.'

theorem EndsInside.tail (h : EndsInside (l :: w)) : EndsInside w := by
  intro l' hl'
  refine h l' ?_
  rw [List.getLast?_cons, hl']
  rfl

theorem startsWithLetters_of_trailing (hz : IsTrailing z) (hw : EndsInside w) (hne : w ≠ []) :
    startsWithLetters w z = false := by
  induction w generalizing z with
  | nil => exact absurd rfl hne
  | cons l w ih =>
    cases z with
    | nil => rfl
    | cons c z =>
      rw [startsWithLetters]
      by_cases hnil : w = []
      · subst hnil
        have hl := hw l rfl
        have hc := hz c List.mem_cons_self
        cases hsame : sameLetter l c with
        | false => rfl
        | true =>
          rw [eq_of_sameLetter_trailing hc hsame] at hl
          exact absurd hc (not_or.mpr hl)
      · rw [ih (IsTrailing.suffix (a := [c]) hz) hw.tail hnil, Bool.and_false]

/-- A pattern does not reach into what trails a text. -/
theorem startsWithLetters_trailing (hz : IsTrailing z) (hw : EndsInside w) :
    startsWithLetters w (v ++ z) = startsWithLetters w v := by
  induction v generalizing w with
  | nil =>
    cases w with
    | nil => rfl
    | cons l w =>
      rw [List.nil_append, startsWithLetters_of_trailing hz hw (List.cons_ne_nil _ _)]
      rfl
  | cons c v ih =>
    cases w with
    | nil => rfl
    | cons l w => rw [List.cons_append, startsWithLetters, startsWithLetters, ih hw.tail]

theorem any_isWordChar_trailing (hz : IsTrailing z) (hn : n ≤ v.length) :
    (v ++ z)[n]?.any isWordChar = v[n]?.any isWordChar := by
  rcases Nat.lt_or_eq_of_le hn with hlt | rfl
  · rw [List.getElem?_append_left hlt]
  · rw [List.getElem?_append_right (Nat.le_refl _), List.getElem?_eq_none (Nat.le_refl _), Nat.sub_self]
    cases z with
    | nil => rfl
    | cons c z => exact (trailing_char (hz c List.mem_cons_self)).1

theorem boundaryBehind_trailing (hz : IsTrailing z) (hn : n ≤ v.length) :
    boundaryBehind (v ++ z) n = boundaryBehind v n := by
  rw [boundaryBehind, boundaryBehind, isBoundary, isBoundary, any_isWordChar_trailing hz hn,
    any_isWordChar_trailing hz (Nat.le_trans (Nat.sub_le n 1) hn)]

theorem isBoundary_trailing (hz : IsTrailing z) :
    isBoundary before (v ++ z).head? = isBoundary before v.head? := by
  rw [isBoundary, isBoundary, List.head?_eq_getElem?, List.head?_eq_getElem?,
    any_isWordChar_trailing hz (Nat.zero_le _)]

theorem isWordAt_trailing (hz : IsTrailing z) (hw : EndsInside w) (before : Option Char) :
    isWordAt before (v ++ z) w = isWordAt before v w := by
  rw [isWordAt, isWordAt, startsWithLetters_trailing hz hw, isBoundary_trailing hz]
  cases h : startsWithLetters w v with
  | false => rw [Bool.and_false, Bool.false_and, Bool.false_and]
  | true => rw [boundaryBehind_trailing hz (startsWithLetters_length_le h)]

theorem takeWhile_trailing {p : Char → Bool} (hz : ∀ c ∈ z, p c = false) :
    (v ++ z).takeWhile p = v.takeWhile p := by
  have hnone : z.takeWhile p = [] := by
    cases z with
    | nil => rfl
    | cons c z => exact List.takeWhile_cons_of_neg (by simp [hz c List.mem_cons_self])
  rw [List.takeWhile_append]
  split
  · rename_i hall
    rw [hnone, List.append_nil, List.IsPrefix.eq_of_length (List.takeWhile_prefix p) hall]
  · rfl

end Teleop.Text
