import Teleop.Proofs.Numeric.Plain
import Teleop.Proofs.Quantity.Magnitude
import Teleop.Proofs.Quantity.Unit
import Teleop.Proofs.Text.Place

/-!
# Percentages and their range

A percentage is looked for by its own pattern first, and what that finds is brought between nought and a
hundred. Numerals with a unit come second, and their numbers are kept as they are. So a percentage is out of
range only if its spelling names the unit and does not fit the pattern: it is the short form, it is joined to
the numeral, or it goes on as a longer word (`IsPassedOver`). One more case is a text whose first percentage
is a numeral without a value.
-/

namespace Teleop

open Numeric Text

namespace Mention

variable {gap word behind : List Char} {before last : Option Char}

/-- A percent word behind a numeral that names the unit and does not fit the pattern of percentages. -/
def IsPassedOver (gap word behind : List Char) : Prop :=
  lower (Measure.stem word) = "pct".toList ∨
    ∃ p ∈ ["percent", "fisad"], startsWithLetters p.toList word = true ∧
      (gap = [] ∨ (word ++ behind)[p.length]?.any isWordChar = true)

theorem isPercentBehind_gap (hgap : ∀ c ∈ gap, isBlank c = true) (hne : word ≠ [])
    (hword : ∀ c ∈ word, isUnitChar c = true) : isPercentBehind last (gap ++ (word ++ behind)) =
      isPercentAt (gap.getLast?.or last) (word ++ behind) := by
  obtain ⟨c, rest, rfl⟩ := List.exists_cons_of_ne_nil hne
  have hc : isBlank c = false := isBlank_of_isUnitChar (hword c List.mem_cons_self)
  rw [List.cons_append]
  simp only [isPercentBehind, takeWhile_isBlank _ hgap hc, List.drop_left]

/-- The beginnings of words that name percentages are words of the pattern. -/
theorem percentSpellings_checked : ∀ p ∈ (Measure.spellings .percent).1,
    p ∈ percentWords ∧ p ∈ ["percent", "fisad"] ∧ p.toList ≠ [] ∧ p.toList.getLast? ≠ some 'i' ∧
      p.toList.all Lexicon.isTableLetter = true := by
  decide

theorem isPercentAt_sign (before : Option Char) (rest : List Char) :
    isPercentAt before ('%' :: rest) = true := by
  rw [isPercentAt_eq, List.head?_cons, decide_eq_true rfl, Bool.true_or, Bool.true_or]

/-- A percent word that the pattern does not take is spelled in one of the ways it passes over. -/
theorem isPassedOver_of_ofText? (hgap : ∀ c ∈ gap, isBlank c = true)
    (hword : ∀ c ∈ word, isUnitChar c = true) (h : Measure.ofText? word = some .percent)
    (hmissed : isPercentAt (gap.getLast?.or last) (word ++ behind) = false) :
    IsPassedOver gap word behind := by
  have hsolid : ∀ c ∈ word, isBlank c = false := fun c hc => isBlank_of_isUnitChar (hword c hc)
  have hletters (p : String) (hp : p ∈ (Measure.spellings .percent).1 ++ (Measure.spellings .percent).2) :
      p.toList.all Measure.isUnitLetter = true :=
    (Measure.isUnitLetter_of_spelling .percent (Measure.mem_all _) p hp).2
  obtain ⟨z, hsplit, -⟩ := Measure.exists_closers word
  rcases Measure.isNamedBy_iff.mp ((Measure.ofText?_eq_some_iff hsolid).mp h) with
    ⟨p, hp, hbegins⟩ | ⟨n, hn, hname⟩
  · -- a beginning: the pattern asks for a boundary on each side of it
    obtain ⟨hpattern, hlisted, hne, hlast, htable⟩ := percentSpellings_checked p hp
    obtain ⟨a, b, hstem, ha⟩ := exists_of_prefix_lowerFrom
      (Measure.isUnmarked_of_isUnitLetter (hletters p (List.mem_append_left _ hp))) hbegins
    have hstarts (rest : List Char) : startsWithLetters p.toList (word ++ rest) = true := by
      rw [hsplit, hstem, List.append_assoc, List.append_assoc]
      exact ha.startsWithLetters List.prefix_rfl hlast
    have hthere := hstarts []
    rw [List.append_nil] at hthere
    refine Or.inr ⟨p, hlisted, hthere, Decidable.or_iff_not_imp_left.mpr fun hgapped => ?_⟩
    rw [isPercentAt_eq, Bool.or_eq_false_iff, Bool.or_eq_false_iff] at hmissed
    have hnot := Bool.eq_false_iff.mpr (List.any_eq_false.mp hmissed.1.2 p hpattern)
    rw [isWordAt_of_startsWithLetters hne (List.all_eq_true.mp htable) (hstarts behind),
      List.getLast?_eq_some_getLast hgapped, Option.some_or, Option.any_some,
      isWordChar_of_isBlank (hgap _ (List.getLast_mem hgapped)), String.length_toList] at hnot
    simpa using hnot
  · -- a whole name: the sign and the script form are found wherever they stand
    have hwritten := IsWritten.of_lower
      (Measure.isUnmarked_of_isUnitLetter (hletters n (List.mem_append_right _ hn))) hname.symm
    simp only [Measure.spellings, List.mem_cons, List.not_mem_nil, or_false] at hn
    rcases hn with rfl | rfl | rfl
    · have hsign : Measure.stem word = ['%'] := IsWritten.eq_of_sign hwritten (by decide)
      rw [hsplit, hsign, List.append_assoc, List.singleton_append, isPercentAt_sign] at hmissed
      exact Bool.noConfusion hmissed
    · exact Or.inl hname.symm
    · rw [isPercentAt_eq, Bool.or_eq_false_iff] at hmissed
      rw [hsplit, List.append_assoc] at hmissed
      rw [hwritten.startsWithLetters List.prefix_rfl (by decide)] at hmissed
      exact Bool.noConfusion hmissed.2

end Mention

namespace Quantity

variable {text : List Char} {q : Quantity}

/-- A text without a percentage has no percent word behind any of its numerals, or the first that has one
is without a value. -/
theorem percentage?_eq_none (h : percentage? text = .none) :
    (scan Mention.percentMention text).filterMap Piece.value? = [] ∨
      ∃ m, (scan Mention.percentMention text).findSome? Piece.value? = some m ∧ m.value? = .none := by
  cases hfirst : (scan Mention.percentMention text).findSome? Piece.value? with
  | none =>
    rw [List.findSome?_eq_none_iff] at hfirst
    exact Or.inl (List.filterMap_eq_nil_iff.mpr hfirst)
  | some m =>
    refine Or.inr ⟨m, rfl, ?_⟩
    cases hvalue : m.value? with
    | none => rfl
    | some value =>
      rw [percentage?, hfirst, Option.bind_eq_bind, Option.bind_some, hvalue] at h
      simp at h

structure IsReadAt (m : Mention) (text front gap word behind : List Char) : Prop where
  text_eq : text = front ++ (m.numeral ++ (gap ++ (word ++ behind)))
  numeral : (m.isSpelled, m.numeral.length) ∈
    Mention.numeralsAt front.getLast? (m.numeral ++ (gap ++ (word ++ behind)))
  blanks : ∀ c ∈ gap, isBlank c = true
  word_ne : word ≠ []
  word_chars : ∀ c ∈ word, Mention.isUnitChar c = true

/-- A numeral that is found with a word behind it stands in the text with the word. -/
theorem isReadAt_of_found {m : Mention} {word : List Char}
    (h : m ∈ (scan Mention.mention text).filterMap Piece.value?) (hword : m.unitText = some word) :
    ∃ front gap behind, IsReadAt m text front gap word behind := by
  obtain ⟨piece, hpiece, hm⟩ := List.mem_filterMap.mp h
  obtain ⟨P, Q, hsplit⟩ := List.append_of_mem hpiece
  cases piece with
  | plain c => simp [Piece.value?] at hm
  | found value chars =>
    obtain rfl := Option.some.inj hm
    have hscan := scanned_scan Mention.isBounded_mention text
    have htext := hscan.textOf_eq
    rw [hsplit] at hscan htext
    obtain ⟨-, htaken⟩ := hscan.taken_of_split
    rw [Option.or_none] at htaken
    obtain ⟨n, hhead, hnumeral, hbehind, -⟩ := Mention.exists_of_mention htaken
    have hin := List.mem_of_head? hhead
    have hle := (Mention.within_of_mem_numeralsAt hin).2
    rw [hword] at hbehind
    rcases Mention.wordBehind_cases ((chars ++ textOf Q).drop n) with hnone | ⟨gap, word', behind, heq, hrest,
      hgap, hne, hchars, -⟩
    · simp [hnone] at hbehind
    rw [heq] at hbehind
    obtain rfl := Option.some.inj hbehind
    have hplace : chars ++ textOf Q = value.numeral ++ (gap ++ (word ++ behind)) := by
      rw [← hrest, hnumeral, List.take_append_drop]
    have hlength : value.numeral.length = n := by rw [hnumeral, List.length_take_of_le hle]
    refine ⟨textOf P, gap, behind, ?_, ?_, hgap, hne, hchars⟩
    · rw [← htext, textOf_append, textOf_cons, Piece.chars, hplace]
    · rwa [← hplace, hlength]

/-- Where nothing is taken for a percentage, this numeral with its word is not either. -/
theorem IsReadAt.isPassedOver {m : Mention} {text front gap word behind : List Char}
    (h : IsReadAt m text front gap word behind)
    (hnone : (scan Mention.percentMention text).filterMap Piece.value? = [])
    (hnamed : Measure.ofText? word = some .percent) : Mention.IsPassedOver gap word behind := by
  have hscan := scanned_scan Mention.isBounded_percentMention text
  rw [h.text_eq] at hscan
  have hmissed := hscan.missed_of_values Mention.isBounded_percentMention (h.text_eq ▸ hnone)
  rw [Option.or_none, Mention.percentMention_eq, Option.map_eq_none_iff, List.find?_eq_none] at hmissed
  have hnot := hmissed _ h.numeral
  rw [List.drop_left, Bool.not_eq_true, Mention.isPercentBehind_gap h.blanks h.word_ne h.word_chars] at hnot
  exact Mention.isPassedOver_of_ofText? h.blanks h.word_chars hnamed hnot

/-- A quantity in percent has a number, which is a magnitude. It is within range where the pattern of
percentages finds it. Otherwise it is the number of a numeral as it stands, which the pattern passes over
for the spelling of the percent word or for the first percentage of the text, which has no value. -/
theorem exists_value_of_percent (text : String) (h : (extract text).unit = some .percent) :
    ∃ x, (extract text).value = some x ∧ x.IsMagnitude ∧
      (percentage? text.toList ≠ .none → x.IsWithin 0 100) ∧
      (percentage? text.toList = .none → ∃ m front gap word behind,
        IsReadAt m text.toList front gap word behind ∧ m.value? = some x ∧
          Measure.ofText? word = some .percent ∧
          (Mention.IsPassedOver gap word behind ∨
            ∃ first, (scan Mention.percentMention text.toList).findSome? Piece.value? = some first ∧
              first.value? = .none)) := by
  cases hpercent : percentage? text.toList with
  | some q =>
    obtain ⟨x, rfl, hx⟩ := exists_of_percentage hpercent
    have heq : extract text = ⟨some (clampPercent x), some .percent⟩ := by
      rw [extract_eq, hpercent, Option.getD_some]
    exact ⟨clampPercent x, by rw [heq], isMagnitude_clampPercent hx,
      fun _ => isWithin_clampPercent hx.number, nofun⟩
  | none =>
    cases hmeasured : measured? (readings text.toList) with
    | none =>
      rw [extract_eq, hpercent, hmeasured, Option.getD_none, Option.getD_none, bare] at h
      simp at h
    | some q =>
      obtain ⟨m, x, u, hmem, hunit, rfl⟩ := exists_of_measured hmeasured
      rw [readings_eq] at hmem
      obtain ⟨hfound, hvalue⟩ := mem_filterMap_reading?.mp hmem
      obtain ⟨word, hword, hnamed⟩ := Option.bind_eq_some_iff.mp hunit
      have heq : extract text = ⟨some x, some u⟩ := by
        rw [extract_eq, hpercent, hmeasured, Option.getD_none, Option.getD_some]
      rw [heq] at h ⊢
      obtain rfl := Option.some.inj h
      have hmagnitude := isMagnitude_extract text
      rw [heq] at hmagnitude
      obtain ⟨front, gap, behind, hread⟩ := isReadAt_of_found hfound hword
      refine ⟨x, rfl, hmagnitude x rfl, fun hne => absurd rfl hne, fun _ =>
        ⟨m, front, gap, word, behind, hread, hvalue, hnamed, ?_⟩⟩
      rcases percentage?_eq_none hpercent with hnone | hfirst
      · exact Or.inl (hread.isPassedOver hnone hnamed)
      · exact Or.inr hfirst

set_option maxRecDepth 20000 in
theorem exists_value_of_percent_sign : (extract "speed 45%").unit = some .percent ∧
    ∃ x, (extract "speed 45%").value = some x ∧ x.IsWithin 0 100 := by
  have hunit : (extract "speed 45%").unit = some .percent := by rfl
  have hfound : (percentage? "speed 45%".toList).isSome = true := by rfl
  obtain ⟨x, hx, -, hwithin, -⟩ := exists_value_of_percent "speed 45%" hunit
  exact ⟨hunit, x, hx, hwithin (Option.isSome_iff_ne_none.mp hfound)⟩

set_option maxRecDepth 20000 in
/-- `250 pct` is two hundred and fifty percent. -/
theorem percent_out_of_range : ¬ ∀ text : String, (extract text).unit = some .percent →
    ∃ x, (extract text).value = some x ∧ x.IsWithin 0 100 := by
  intro h
  have hunit : (extract "250 pct").unit = some .percent := by rfl
  have hvalue : (extract "250 pct").value = Binary.read? "250".toList := by rfl
  have hdigits : ofDigits "250".toList = 250 := by decide
  rw [Binary.read?_digits (by decide), hdigits] at hvalue
  obtain ⟨x, hx, -, hhigh⟩ := h "250 pct" hunit
  rw [hvalue] at hx
  obtain rfl := Option.some.inj hx
  rw [Binary.ofNat_eq_ofInt, Binary.ofInt_le_ofInt (by decide) (by decide) (by decide)] at hhigh
  exact absurd hhigh (by decide)

end Quantity

end Teleop
