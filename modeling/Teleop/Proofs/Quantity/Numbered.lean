import Teleop.Proofs.Numeric.Plain
import Teleop.Proofs.Quantity.NumberWord
import Teleop.Proofs.Quantity.Whole
import Teleop.Proofs.Text.Numbered
import Teleop.Proofs.Text.Opening

/-!
# The quantity of a text with a number in it

No number word has a digit in it, so a number is the only numeral at its place, and it is taken with the
word behind it (`mention_number`). A text whose only numeral is a number with a unit has the value of its
digits as its quantity (`extract_measured`); with a percent sign or word behind it, it is a percentage
(`extract_percentage`).
-/

namespace Teleop

open Numeric Text

namespace Mention

variable {before : Option Char} {a b x digits : List Char} {c d e : Char}

/-! ## Spelled numerals -/

theorem isDigitless_spellings : ∀ w ∈ NumberWord.spellings, IsDigitless w.toList :=
  isDigitless_of_all (by decide)

theorem wordLengths_eq_nil {table : List (String × Nat)} {text : List Char}
    (ht : table ∈ [NumberWord.ones, NumberWord.tens, NumberWord.urduByLength])
    (h : ∀ w ∈ NumberWord.spellings, startsWithLetters w.toList text = false) :
    wordLengths table text = [] := by
  refine List.filterMap_eq_nil_iff.mpr fun word hword => ?_
  have hnot := h _ (NumberWord.mem_spellings_of_mem ht hword)
  obtain ⟨w, n⟩ := word
  dsimp only at hnot ⊢
  rw [hnot]
  rfl

/-- Where no number word begins there is no spelled numeral. -/
theorem spelledLengths_eq_nil {text : List Char}
    (h : ∀ w ∈ NumberWord.spellings, startsWithLetters w.toList text = false) :
    spelledLengths before text = [] := by
  rw [spelledLengths, compoundLengths_eq, wordLengths_eq_nil (by simp) h, wordLengths_eq_nil (by simp) h,
    wordLengths_eq_nil (by simp) h]
  split <;> rfl

theorem isJoint_digit (hd : isAsciiDigit d = true) : isJoint d = false := by
  have hdash : d ≠ '-' := ne_of_isAsciiDigit hd (by decide)
  simp [isJoint, isBlank_of_isAsciiDigit hd, hdash]

theorem spelledLengths_digit (hd : isAsciiDigit d = true) : spelledLengths before (d :: x) = [] :=
  spelledLengths_eq_nil fun w hw => startsWithLetters_digit (isDigitless_spellings w hw)
    (NumberWord.toList_ne_nil_of_mem_spellings hw) hd

/-! ## Numerals -/

theorem digitsLength_of_head (hc : isDecimalDigit c = false) (text : List Char) :
    digitsLength (c :: text) = 0 := by
  rw [digitsLength, List.takeWhile_cons_of_neg (by simp [hc])]
  rfl

/-- What stands behind a number and is no part of it. -/
def EndsNumber (b : List Char) : Prop :=
  ∀ c ∈ b.head?, isDecimalDigit c = false ∧ c ≠ '.'

theorem digitsLength_number (hdigits : IsDigits digits) (hb : EndsNumber b) :
    digitsLength (digits ++ b) = digits.length := by
  have hwhole : (digits ++ b).takeWhile isDecimalDigit = digits :=
    takeWhile_stop (fun c hc => isDecimalDigit_of_isAsciiDigit (hdigits.digits c hc))
      fun c hc => (hb c hc).1
  have hne : digits.length ≠ 0 := by simpa using hdigits.ne_nil
  rw [digitsLength, hwhole, if_neg hne, List.drop_left]
  split
  · exact absurd rfl (hb '.' rfl).2
  · rfl

/-- A number is the only numeral at its place. -/
theorem numeralsAt_number (hdigits : IsDigits digits) (hb : EndsNumber b) :
    numeralsAt before (digits ++ b) = [(false, digits.length)] := by
  have hne : digits.length ≠ 0 := by simpa using hdigits.ne_nil
  have hlength := digitsLength_number hdigits hb
  obtain ⟨d, rest, rfl, hd⟩ := hdigits.exists_head
  have hspelled : spelledLengths before (d :: rest ++ b) = [] := spelledLengths_digit hd
  rw [numeralsAt_eq, hlength, if_neg hne, hspelled]
  rfl

theorem isUnitChar_digit (hd : isAsciiDigit d = true) : isUnitChar d = false := by
  simp [isUnitChar, isDecimalDigit_of_isAsciiDigit hd]

/-! ## Percentages -/

theorem isPercentAt_behind (hd : isAsciiDigit d = true) (he : isAsciiDigit e = true)
    (text : List Char) : isPercentAt (some d) text = isPercentAt (some e) text := by
  have hfun : isWordAt (some d) text = isWordAt (some e) text := funext (isWordAt_behind hd he text)
  rw [isPercentAt_eq, isPercentAt_eq, hfun]

theorem isPercentBehind_digit (hd : isAsciiDigit d = true) (he : isAsciiDigit e = true)
    (b : List Char) : isPercentBehind (some d) b = isPercentBehind (some e) b := by
  simp only [isPercentBehind]
  cases (b.takeWhile isBlank).getLast? with
  | none => rw [Option.none_or, Option.none_or, isPercentAt_behind hd he]
  | some c => rfl

/-! ## Spoken texts with one number -/

/-- The number in a text of words that no number word begins: what stands around it has no digits, and no
decimal part follows it. -/
structure IsNumberIn (ws : List (List Char)) (a digits b : List Char) : Prop where
  spoken : IsSpoken ws
  misses : ∀ w ∈ NumberWord.spellings, ∀ u ∈ ws, Misses w.toList u
  number : IsDigits digits
  text_eq : unwords ws = a ++ (digits ++ b)
  front : ∀ c ∈ a, isDecimalDigit c = false
  behind : ∀ c ∈ b, isDecimalDigit c = false
  point : b.head? ≠ some '.'

section NumberIn

variable {ws : List (List Char)} {p s : List Char}

theorem IsNumberIn.endsNumber (h : IsNumberIn ws a digits b) : EndsNumber b := by
  intro c hc
  refine ⟨h.behind c (List.mem_of_head? hc), ?_⟩
  rintro rfl
  exact h.point hc

/-- There is no numeral where no digit stands. -/
theorem IsNumberIn.numeralsAt_eq_nil (h : IsNumberIn ws a digits b) (hsplit : unwords ws = p ++ c :: s)
    (hc : isDecimalDigit c = false) : numeralsAt p.getLast? (c :: s) = [] := by
  have hspelled : spelledLengths p.getLast? (c :: s) = [] := by
    cases hopen : isBoundary p.getLast? (c :: s).head? with
    | false =>
      rw [spelledLengths, hopen]
      rfl
    | true =>
      refine spelledLengths_eq_nil fun w hw => ?_
      refine startsWithLetters_of_misses h.spoken.opening ?_ (h.misses w hw) hsplit hopen
      obtain ⟨l, rest, hcons⟩ := List.exists_cons_of_ne_nil (NumberWord.toList_ne_nil_of_mem_spellings hw)
      rw [hcons, List.head?_cons, Option.any_some]
      exact NumberWord.isTableLetter_of_mem_spellings hw l (by simp [hcons])
  rw [numeralsAt_eq, digitsLength_of_head hc, hspelled]
  rfl

theorem IsNumberIn.numeralsAt_front (h : IsNumberIn ws a digits b) (hsplit : a = p ++ c :: s) :
    numeralsAt p.getLast? (c :: (s ++ (digits ++ b))) = [] := by
  refine h.numeralsAt_eq_nil ?_ (h.front c (by simp [hsplit]))
  rw [h.text_eq, hsplit, List.append_assoc, List.cons_append]

theorem IsNumberIn.numeralsAt_behind (h : IsNumberIn ws a digits b) (hsplit : b = p ++ c :: s) :
    numeralsAt (a ++ (digits ++ p)).getLast? (c :: s) = [] := by
  refine h.numeralsAt_eq_nil ?_ (h.behind c (by simp [hsplit]))
  rw [h.text_eq, hsplit, List.append_assoc, List.append_assoc]

theorem mention_eq_none {text : List Char} (h : numeralsAt before text = []) :
    mention before text = none := by
  rw [mention_eq, h]
  rfl

theorem percentMention_eq_none {text : List Char} (h : numeralsAt before text = []) :
    percentMention before text = none := by
  rw [percentMention_eq, h]
  rfl

/-- A number is taken as a numeral with the word behind it. -/
theorem mention_number (hdigits : IsDigits digits) (hb : EndsNumber b) :
    mention before (digits ++ b) =
      some (⟨digits, false, (wordBehind b).1⟩, digits.length + (wordBehind b).2) := by
  rw [mention_eq, numeralsAt_number hdigits hb, List.head?_cons, Option.map_some]
  dsimp only
  rw [List.take_left, List.drop_left]

/-- A number is a percentage if a percent sign or word stands behind it. -/
theorem percentMention_number (hdigits : IsDigits digits) (hb : EndsNumber b) :
    percentMention before (digits ++ b) =
      if isPercentBehind (some '0') b then some (⟨digits, false, none⟩, digits.length) else none := by
  have hlt : digits.length - 1 < digits.length := by
    have := List.length_pos_iff.mpr hdigits.ne_nil
    omega
  have hlast : (digits ++ b)[digits.length - 1]? = some digits[digits.length - 1] := by
    rw [List.getElem?_append_left hlt, List.getElem?_eq_getElem hlt]
  have hdigit := hdigits.digits _ (List.getElem_mem hlt)
  rw [percentMention_eq, numeralsAt_number hdigits hb, List.find?_singleton]
  dsimp only
  rw [hlast, List.drop_left, isPercentBehind_digit hdigit (e := '0') (by decide)]
  cases isPercentBehind (some '0') b with
  | false => rfl
  | true =>
    rw [if_pos rfl, if_pos rfl, Option.map_some]
    dsimp only
    rw [List.take_left]

/-- The number is the only numeral. -/
theorem IsNumberIn.values_mention (h : IsNumberIn ws a digits b) :
    (scan mention (a ++ (digits ++ b))).filterMap Piece.value? =
      [⟨digits, false, (wordBehind b).1⟩] := by
  have hparts : b.take (wordBehind b).2 ++ b.drop (wordBehind b).2 = b := List.take_append_drop _ _
  have hlength : (digits ++ b.take (wordBehind b).2).length = digits.length + (wordBehind b).2 := by
    rw [List.length_append, List.length_take, Nat.min_eq_left (wordBehind_le_length b)]
  have htaken : mention a.getLast? (digits ++ b) = some (⟨digits, false, (wordBehind b).1⟩, _) :=
    mention_number h.number h.endsNumber
  rw [← hlength] at htaken
  have hscan := scan_eq_found (a := a) (m := digits ++ b.take (wordBehind b).2)
    (b := b.drop (wordBehind b).2) isBounded_mention (by simp [h.number.ne_nil])
    (fun p c s hsplit => by
      rw [List.append_assoc, hparts]
      exact mention_eq_none (h.numeralsAt_front hsplit))
    (by rwa [List.append_assoc, hparts])
    (fun p c s hsplit => by
      have hbehind : b = (b.take (wordBehind b).2 ++ p) ++ c :: s := by
        rw [List.append_assoc, ← hsplit, hparts]
      rw [List.append_assoc]
      exact mention_eq_none (h.numeralsAt_behind hbehind))
  rw [List.append_assoc, hparts] at hscan
  rw [hscan, List.filterMap_append, values_plains, List.nil_append]
  exact congrArg (List.cons _) (values_plains _)

/-- From a digit on there stands the rest of the number. -/
theorem IsNumberIn.exists_digits (h : IsNumberIn ws a digits b) (hsplit : unwords ws = p ++ c :: s)
    (hc : isDecimalDigit c = true) : ∃ rest, IsDigits rest ∧ c :: s = rest ++ b := by
  have hnot {x : List Char} (hx : ∀ d ∈ x, isDecimalDigit d = false) : c ∉ x := by
    intro hmem
    rw [hx c hmem] at hc
    exact Bool.noConfusion hc
  rw [h.text_eq] at hsplit
  rcases Nat.lt_or_ge p.length a.length with hfront | hfront
  · obtain ⟨x, rfl, hrest⟩ := exists_append_of_length_le hsplit.symm (Nat.le_of_lt hfront)
    cases x with
    | nil => simp at hfront
    | cons d x =>
      obtain ⟨rfl, -⟩ := List.cons.inj hrest
      exact absurd (by simp) (hnot h.front)
  · obtain ⟨x, rfl, hrest⟩ := exists_append_of_length_le hsplit hfront
    rcases Nat.lt_or_ge x.length digits.length with hwithin | hbehind
    · obtain ⟨rest, rfl, htext⟩ := exists_append_of_length_le hrest.symm (Nat.le_of_lt hwithin)
      refine ⟨rest, ⟨?_, fun d hd => h.number.digits d (List.mem_append_right x hd)⟩, htext⟩
      rintro rfl
      simp at hwithin
    · obtain ⟨y, -, htext⟩ := exists_append_of_length_le hrest hbehind
      exact absurd (by simp [htext]) (hnot h.behind)

/-- Without a percent sign or word behind it there is no percentage. -/
theorem IsNumberIn.values_percentMention_of_not (h : IsNumberIn ws a digits b)
    (hbehind : isPercentBehind (some '0') b = false) :
    (scan percentMention (a ++ (digits ++ b))).filterMap Piece.value? = [] := by
  have hscan : scan percentMention (a ++ (digits ++ b)) = (a ++ (digits ++ b)).map .plain := by
    refine scan_eq_plains isBounded_percentMention fun p c s hsplit => ?_
    cases hc : isDecimalDigit c with
    | false => exact percentMention_eq_none (h.numeralsAt_eq_nil (h.text_eq.trans hsplit) hc)
    | true =>
      obtain ⟨rest, hrest, htext⟩ := h.exists_digits (h.text_eq.trans hsplit) hc
      rw [htext, percentMention_number hrest h.endsNumber, hbehind]
      rfl
  rw [hscan, values_plains]

/-- With one behind it, the number is the only percentage. -/
theorem IsNumberIn.values_percentMention (h : IsNumberIn ws a digits b)
    (hbehind : isPercentBehind (some '0') b = true) :
    (scan percentMention (a ++ (digits ++ b))).filterMap Piece.value? = [⟨digits, false, none⟩] := by
  have htaken : percentMention a.getLast? (digits ++ b) = _ := percentMention_number h.number h.endsNumber
  rw [hbehind, if_pos rfl] at htaken
  have hscan := scan_eq_found isBounded_percentMention h.number.ne_nil
    (fun p c s hsplit => percentMention_eq_none (h.numeralsAt_front hsplit)) htaken
    (fun p c s hsplit => percentMention_eq_none (h.numeralsAt_behind hsplit))
  rw [hscan, List.filterMap_append, values_plains, List.nil_append]
  exact congrArg (List.cons _) (values_plains _)

end NumberIn

end Mention

namespace Quantity

variable {a b digits : List Char}

/-- The number of a text with its unit. -/
theorem extract_measured {ws : List (List Char)} {u : Measure} (h : Mention.IsNumberIn ws a digits b)
    (hunit : (Mention.wordBehind b).1.bind Measure.ofText? = some u)
    (hbehind : Mention.isPercentBehind (some '0') b = false) :
    extract (String.ofList (unwords ws)) = ⟨some (Binary.ofInt (ofDigits digits)), some u⟩ := by
  have hvalue : (⟨digits, false, (Mention.wordBehind b).1⟩ : Mention).value? =
      some (Binary.ofInt (ofDigits digits)) := Binary.read?_digits h.number
  have hreadings : readings (a ++ (digits ++ b)) =
      [(⟨digits, false, (Mention.wordBehind b).1⟩, Binary.ofInt (ofDigits digits))] := by
    rw [readings_eq, h.values_mention, List.filterMap_cons, reading?, hvalue]
    rfl
  have hmeasured : measured? (readings (a ++ (digits ++ b))) =
      some ⟨some (Binary.ofInt (ofDigits digits)), some u⟩ := by
    have hu : (⟨digits, false, (Mention.wordBehind b).1⟩ : Mention).unit? = some u := hunit
    rw [hreadings, measured?, List.findSome?_cons]
    dsimp only
    rw [hu]
    rfl
  rw [extract, String.toList_ofList, h.text_eq,
    percentage?_of_values (h.values_percentMention_of_not hbehind), hmeasured]
  rfl

/-- The number of a text as a percentage. -/
theorem extract_percentage {ws : List (List Char)} (h : Mention.IsNumberIn ws a digits b)
    (hbehind : Mention.isPercentBehind (some '0') b = true) :
    extract (String.ofList (unwords ws)) =
      ⟨some (Binary.ofInt (min (ofDigits digits) 100 : Nat)), some .percent⟩ := by
  have hvalue : (⟨digits, false, .none⟩ : Mention).value? =
      some (Binary.ofInt (ofDigits digits)) := Binary.read?_digits h.number
  have hpercentage : percentage? (a ++ (digits ++ b)) =
      some ⟨some (clampPercent (Binary.ofInt (ofDigits digits))), some .percent⟩ := by
    rw [percentage?, ← List.head?_filterMap, h.values_percentMention hbehind, List.head?_cons]
    change (Mention.value? _ >>= _) = _
    rw [hvalue]
    rfl
  rw [extract, String.toList_ofList, h.text_eq, hpercentage, clampPercent_ofInt]
  rfl

end Quantity

end Teleop
