import Teleop.Proofs.Quantity.Numbered
import Teleop.Proofs.Quantity.Percentage

/-!
# Numerals with a unit

A numeral with a unit behind it, each a word of a text, is read with its unit wherever it stands, with one
exception: the word behind a numeral is taken for its unit whatever it is. So a number word right behind
another numeral is taken by that numeral, and the unit behind it is lost (`IsTaken`). A numeral in digits is
never lost.
-/

namespace Teleop

open Numeric Text

/-! ## Numerals that are words -/

inductive Numeric.IsDecimalNumeral : List Char → Prop
  | whole {digits : List Char} (hdigits : IsDigits digits) : IsDecimalNumeral digits
  | point {whole fraction : List Char} (hwhole : IsDigits whole) (hfraction : IsDigits fraction) :
      IsDecimalNumeral (whole ++ '.' :: fraction)

inductive IsNumeral : List Char → Prop
  | digits {word : List Char} (decimal : IsDecimalNumeral word) : IsNumeral word
  | spelled {word : List Char} {n : Nat} (value : NumberWord.value? word = some n) : IsNumeral word

namespace Numeric.IsDecimalNumeral

variable {text y : List Char}

theorem exists_head (h : IsDecimalNumeral text) : ∃ d rest, text = d :: rest ∧ isAsciiDigit d = true := by
  cases h with
  | whole hdigits => exact hdigits.exists_head
  | point hwhole =>
    obtain ⟨d, rest, rfl, hd⟩ := hwhole.exists_head
    exact ⟨d, _, rfl, hd⟩

theorem exists_read? (h : IsDecimalNumeral text) {f : Format} : ∃ x : Binary f, Binary.read? text = some x := by
  obtain ⟨d, rest, htext, hd⟩ := h.exists_head
  have hsign : readSign text = (false, text) := by
    rw [htext]
    exact readSign_of_ne (ne_of_isAsciiDigit hd (by decide)) (ne_of_isAsciiDigit hd (by decide)) rest
  have hread : ∃ d, readDecimal? text = some d := by
    cases h with
    | whole hdigits => exact ⟨_, readDecimal?_digits hdigits⟩
    | point hwhole hfraction => exact ⟨_, readDecimal?_point hwhole hfraction⟩
  obtain ⟨d, hdecimal⟩ := hread
  exact ⟨Binary.ofDecimal false d, by simp only [Binary.read?, hsign, hdecimal]⟩

/-- The digits end where no digit and no point follows. -/
theorem digitsLength_eq (h : IsDecimalNumeral text) (hy : Mention.EndsNumber y) :
    Mention.digitsLength (text ++ y) = text.length := by
  cases h with
  | whole hdigits => exact Mention.digitsLength_number hdigits hy
  | @point whole fraction hwhole hfraction =>
    have hspan {digits : List Char} (hd : IsDigits digits) {z : List Char}
        (hz : ∀ c ∈ z.head?, isDecimalDigit c = false) :
        (digits ++ z).takeWhile isDecimalDigit = digits :=
      takeWhile_stop (fun c hc => isDecimalDigit_of_isAsciiDigit (hd.digits c hc)) hz
    have hne : whole.length ≠ 0 := by simpa using hwhole.ne_nil
    have hsome : fraction.length ≠ 0 := by simpa using hfraction.ne_nil
    have hpoint : isDecimalDigit '.' = false := by decide
    rw [List.append_assoc, List.cons_append, Mention.digitsLength,
      hspan hwhole (by simpa using hpoint), if_neg hne, List.drop_left]
    simp only [hspan hfraction fun c hc => (hy c hc).1, if_neg hsome, List.length_append,
      List.length_cons]
    omega

end Numeric.IsDecimalNumeral

/-! ## Numerals with a blank in them -/

namespace Mention

variable {before : Option Char} {a t v : List Char} {n : Nat} {spelled : Bool} {c : Char}

theorem eq_of_mem_digits (h : c ∈ v.take (digitsLength v)) : isDecimalDigit c = true ∨ c = '.' := by
  have hdigits {l : List Char} (hc : c ∈ l.takeWhile isDecimalDigit) : isDecimalDigit c = true :=
    List.all_eq_true.mp List.all_takeWhile c hc
  have hwhole : v.take (v.takeWhile isDecimalDigit).length = v.takeWhile isDecimalDigit :=
    (List.prefix_iff_eq_take.mp (List.takeWhile_prefix _)).symm
  simp only [digitsLength] at h
  split at h
  · simp at h
  · split at h
    · rename_i rest hrest
      split at h
      · rw [hwhole] at h
        exact Or.inl (hdigits h)
      · rw [Nat.add_assoc, List.take_add, hwhole, hrest, Nat.add_comm, List.take_succ_cons,
          ← List.prefix_iff_eq_take.mp (List.takeWhile_prefix _)] at h
        rcases List.mem_append.mp h with h | h
        · exact Or.inl (hdigits h)
        · exact (List.mem_cons.mp h).symm.imp_left hdigits
    · rw [hwhole] at h
      exact Or.inl (hdigits h)

section Blank

variable {table : List (String × Nat)} {b : Char} {j k : Nat}

/-- The last character of a text in front of another. -/
theorem getElem?_of_getLast? (hlast : a.getLast? = some b) (t : List Char) :
    0 < a.length ∧ (a ++ t)[a.length - 1]? = some b := by
  have hne : a ≠ [] := by
    rintro rfl
    simp at hlast
  have hpos := List.length_pos_iff.mpr hne
  rw [List.getElem?_append_left (by omega), ← List.getLast?_eq_getElem?]
  exact ⟨hpos, hlast⟩

/-- No word of a table reaches over a blank. -/
theorem add_lt_of_mem_wordLengths (hlast : a.getLast? = some b) (hb : isBlank b = true)
    (htable : table ∈ [NumberWord.ones, NumberWord.tens, NumberWord.urduByLength])
    (hj : j ∈ wordLengths table ((a ++ t).drop k)) (hk : k < a.length) : k + j < a.length := by
  obtain ⟨e, he, hstarts, rfl⟩ := mem_wordLengths.mp hj
  refine Nat.lt_of_not_le fun hover => ?_
  obtain ⟨c, hc, hletter, -⟩ := exists_letter
    (NumberWord.isTableLetter_of_mem_spellings (NumberWord.mem_spellings_of_mem htable he)) hstarts
    (k := a.length - 1 - k) (by rw [String.length_toList]; omega)
  rw [List.getElem?_drop, show k + (a.length - 1 - k) = a.length - 1 by omega,
    (getElem?_of_getLast? hlast t).2] at hc
  obtain rfl := Option.some.inj hc
  rw [isBlank_of_isLetterForm hletter] at hb
  exact Bool.noConfusion hb

theorem lt_of_mem_wordLengths (hlast : a.getLast? = some b) (hb : isBlank b = true)
    (htable : table ∈ [NumberWord.ones, NumberWord.tens, NumberWord.urduByLength])
    (hk : k ∈ wordLengths table (a ++ t)) : k < a.length := by
  have hhead := add_lt_of_mem_wordLengths (k := 0) hlast hb htable hk (getElem?_of_getLast? hlast t).1
  rwa [Nat.zero_add] at hhead

/-- No digits reach over a blank. -/
theorem digitsLength_lt (hlast : a.getLast? = some b) (hb : isBlank b = true) (t : List Char) :
    digitsLength (a ++ t) < a.length := by
  obtain ⟨hpos, hat⟩ := getElem?_of_getLast? hlast t
  refine Nat.lt_of_not_le fun hover => ?_
  have hmem : b ∈ (a ++ t).take (digitsLength (a ++ t)) :=
    List.mem_iff_getElem?.mpr ⟨a.length - 1, by rw [List.getElem?_take_of_lt (by omega), hat]⟩
  rcases eq_of_mem_digits hmem with hdigit | rfl
  · have hnone : decimalDigitSpans.has b.toNat = false := has_eq_false_of_isBlank hb (by simp [wordSpans])
    exact Bool.noConfusion (hdigit.symm.trans hnone)
  · exact absurd hb (by decide)

/-- A compound that goes on behind a blank has one of the ones there, and a joint in front of it. -/
theorem exists_ones_of_compound (hlast : a.getLast? = some b) (hb : isBlank b = true)
    (ht : ∀ c ∈ t.head?, isJoint c = false) (hk : k < a.length) (hn : n ∈ compoundsOf (a ++ t) k)
    (hlt : a.length < n) :
    (∃ e ∈ NumberWord.ones, startsWithLetters e.1.toList t = true ∧ n = a.length + e.1.length) ∧
      ∃ tens joint, a = tens ++ joint ∧ joint ≠ [] ∧ ∀ c ∈ joint, isJoint c = true := by
  have hdrop : (a ++ t).drop k = a.drop k ++ t := List.drop_append_of_le_length (Nat.le_of_lt hk)
  simp only [compoundsOf] at hn
  rcases List.mem_append.mp hn with hn | hn
  · split at hn
    · simp at hn
    · rename_i hjoint
      obtain ⟨j, hj, rfl⟩ := List.mem_map.mp hn
      by_cases hall : ((a.drop k).takeWhile isJoint).length = (a.drop k).length
      · -- the joint reaches up to the end of the front, and the ones stand behind it
        have hjoints := List.IsPrefix.eq_of_length (List.takeWhile_prefix isJoint) hall
        have hwhole : ((a ++ t).drop k).takeWhile isJoint = a.drop k := by
          rw [hdrop]
          exact takeWhile_stop (List.all_eq_true.mp (hjoints ▸ List.all_takeWhile)) ht
        rw [hwhole, hdrop, List.drop_left] at hj
        obtain ⟨e, he, hstarts, rfl⟩ := mem_wordLengths.mp hj
        refine ⟨⟨e, he, hstarts, ?_⟩, a.take k, a.drop k, (List.take_append_drop k a).symm, ?_,
          List.all_eq_true.mp (hjoints ▸ List.all_takeWhile)⟩
        · rw [hwhole, List.length_drop]
          omega
        · rw [hwhole] at hjoint
          exact fun hnil => hjoint (by rw [hnil]; rfl)
      · -- the joint ends in front, and the ones behind it cannot reach over the blank
        have hshorter := (List.takeWhile_sublist (l := a.drop k) isJoint).length_le
        have hjoints : ((a ++ t).drop k).takeWhile isJoint = (a.drop k).takeWhile isJoint := by
          rw [hdrop, List.takeWhile_append, if_neg hall]
        rw [hjoints] at hj hlt
        rw [List.length_drop] at hall hshorter
        rw [List.drop_drop] at hj
        have hover := add_lt_of_mem_wordLengths hlast hb (by simp) hj (by omega)
        omega
  · rw [List.mem_singleton.mp hn] at hlt
    exact absurd hk (Nat.lt_asymm hlt)

/-- A numeral that goes on behind a blank is a compound, and one of the ones stands behind the blank. -/
theorem exists_ones_of_blank (hn : (spelled, n) ∈ numeralsAt before (a ++ t))
    (hblank : ∃ b ∈ a.getLast?, isBlank b = true) (ht : ∀ c ∈ t.head?, isJoint c = false)
    (hlt : a.length < n) : spelled = true ∧ boundaryBehind (a ++ t) n = true ∧
      (∃ e ∈ NumberWord.ones, startsWithLetters e.1.toList t = true ∧ n = a.length + e.1.length) ∧
      ∃ tens joint, a = tens ++ joint ∧ joint ≠ [] ∧ ∀ c ∈ joint, isJoint c = true := by
  obtain ⟨b, hlast, hb⟩ := hblank
  rw [numeralsAt_eq] at hn
  rcases List.mem_append.mp hn with hn | hn
  · split at hn
    · simp at hn
    · obtain ⟨-, rfl⟩ := Prod.mk.inj (List.mem_singleton.mp hn)
      exact absurd (digitsLength_lt hlast hb t) (Nat.lt_asymm hlt)
  · obtain ⟨m, hm, heq⟩ := List.mem_map.mp hn
    obtain ⟨rfl, rfl⟩ := Prod.mk.inj heq
    rw [spelledLengths] at hm
    split at hm
    · obtain ⟨hm, hboundary⟩ := List.mem_filter.mp hm
      refine ⟨rfl, hboundary, ?_⟩
      rcases List.mem_append.mp hm with hm | hm
      · rcases List.mem_append.mp hm with hm | hm
        · rw [compoundLengths_eq] at hm
          obtain ⟨k, hk, hm⟩ := List.mem_flatMap.mp hm
          exact exists_ones_of_compound hlast hb ht (lt_of_mem_wordLengths hlast hb (by simp) hk) hm hlt
        · exact absurd (lt_of_mem_wordLengths hlast hb (by simp) hm) (Nat.lt_asymm hlt)
      · exact absurd (lt_of_mem_wordLengths hlast hb (by simp) hm) (Nat.lt_asymm hlt)
    · simp at hm

end Blank

/-- Where a word behind blanks reaches over the end of a front, and a blank ends the front, the front is these
blanks. -/
theorem front_eq_blanks {gap word behind : List Char} (ha : EndsOpen a)
    (ht : ∀ c ∈ t.head?, isBlank c = false) (hsplit : a ++ t = gap ++ (word ++ behind))
    (hblanks : ∀ c ∈ gap, isBlank c = true) (hchars : ∀ c ∈ word, isUnitChar c = true)
    (hreach : a.length < gap.length + word.length) : a = gap ∧ t = word ++ behind := by
  rcases Nat.lt_or_ge gap.length a.length with hlt | hle
  · -- the front would end with a character of the word
    obtain ⟨g, rfl, hg⟩ := exists_append_of_length_le hsplit.symm (Nat.le_of_lt hlt)
    rw [List.length_append] at hreach hlt
    obtain ⟨g', rfl, -⟩ := exists_append_of_length_le hg.symm (by omega : g.length ≤ word.length)
    have hgne : g ≠ [] := List.ne_nil_of_length_pos (by omega)
    have hblank : isBlank (g.getLast hgne) = true := by
      refine ha _ ?_
      rw [List.getLast?_append, List.getLast?_eq_some_getLast hgne]
      rfl
    have hunit := hchars (g.getLast hgne) (List.mem_append_left _ (List.getLast_mem hgne))
    rw [isBlank_of_isUnitChar hunit] at hblank
    exact Bool.noConfusion hblank
  · obtain ⟨g, rfl, hg⟩ := exists_append_of_length_le hsplit hle
    cases g with
    | nil => exact ⟨(List.append_nil a).symm, hg⟩
    | cons e g =>
      have hsolid := ht e (by rw [hg]; rfl)
      rw [hblanks e (by simp)] at hsolid
      exact Bool.noConfusion hsolid

end Mention

/-- A single number word has its own value. -/
theorem Mention.spelledValue?_word {word : List Char} {n : Nat} (h : NumberWord.value? word = some n) :
    spelledValue? word = some n := by
  obtain ⟨hne, hletters⟩ := NumberWord.letters_of_value? h
  have hjoint : ∀ c ∈ word, isJoint c = false := fun c hc => isJoint_of_isLetterForm (hletters c hc).1
  rw [spelledValue?, List.splitOnP_eq_singleton hjoint]
  simp [hne, h]

/-! ## A numeral and a unit behind it -/

/-- A numeral and a word that names a unit behind it, each a word of the text. -/
structure IsPairAt (text front numeral gap word rest : List Char) (u : Measure) : Prop where
  text_eq : text = front ++ (numeral ++ (gap ++ (word ++ rest)))
  opens : EndsOpen front
  numeral : IsNumeral numeral
  gap_ne : gap ≠ []
  blanks : ∀ c ∈ gap, isBlank c = true
  solid : ∀ c ∈ word, isBlank c = false
  unit : Measure.ofText? word = some u
  closes : BeginsOpen rest

theorem exists_isPairAt {text numeral word : List Char} {ws vs : List (List Char)} {u : Measure}
    (hwords : words text = ws ++ numeral :: word :: vs) (hnumeral : IsNumeral numeral)
    (hunit : Measure.ofText? word = some u) :
    ∃ front gap rest, IsPairAt text front numeral gap word rest u ∧ words front = ws := by
  obtain ⟨front, behind, rfl, hfront, hbehind, -, -, hws, hrest⟩ := exists_of_words_eq hwords
  obtain ⟨gap, rest, rfl, hgap, hclose, hne, hsolid, hnone, -⟩ :=
    exists_of_words_eq (show words behind = [] ++ word :: vs from hrest)
  refine ⟨front, gap, rest, ⟨rfl, hfront, hnumeral, ?_, isBlank_of_words_nil hnone, hsolid, hunit, hclose⟩, hws⟩
  rintro rfl
  obtain ⟨c, word, rfl⟩ := List.exists_cons_of_ne_nil hne
  have hblank : isBlank c = true := hbehind c rfl
  rw [hsolid c List.mem_cons_self] at hblank
  exact Bool.noConfusion hblank

namespace IsPairAt

variable {text front numeral gap word rest : List Char} {u : Measure}

/-- The word behind the numeral as far as it can name a unit. -/
theorem wordBehind_eq (h : IsPairAt text front numeral gap word rest u) :
    Mention.wordBehind (gap ++ (word ++ rest)) = (some (word.takeWhile Mention.isUnitChar),
      gap.length + (word.takeWhile Mention.isUnitChar).length) := by
  obtain ⟨c, w, hword, hform⟩ := Measure.exists_head_of_ofText? h.solid h.unit
  have hunit := (Measure.facts_of_isUnitForm hform).1
  refine Mention.wordBehind_gap h.blanks ?_ ?_ ?_
  · rw [hword]
    intro d hd
    obtain rfl : c = d := by simpa using hd
    exact h.solid c (hword ▸ List.mem_cons_self)
  · rw [List.takeWhile_append]
    split
    · have hstop : rest.takeWhile Mention.isUnitChar = [] := by
        cases rest with
        | nil => rfl
        | cons d rest =>
          have hd : isBlank d = true := h.closes d rfl
          exact List.takeWhile_cons_of_neg (by simp [Mention.isUnitChar, hd])
      rename_i hall
      rw [hstop, List.append_nil, List.IsPrefix.eq_of_length (List.takeWhile_prefix _) hall]
    · rfl
  · rw [hword, List.takeWhile_cons_of_pos hunit]
    exact List.cons_ne_nil _ _

/-- None of the ones stands behind the blanks. -/
theorem wordLengths_ones (h : IsPairAt text front numeral gap word rest u) :
    Mention.wordLengths NumberWord.ones ((gap ++ (word ++ rest)).drop
      ((gap ++ (word ++ rest)).takeWhile Mention.isJoint).length) = [] := by
  obtain ⟨c, w, hword, hform⟩ := Measure.exists_head_of_ofText? h.solid h.unit
  have hjoint := (Measure.facts_of_isUnitForm hform).2.2
  have hspan : (gap ++ (word ++ rest)).takeWhile Mention.isJoint = gap := by
    refine takeWhile_stop (fun d hd => ?_) ?_
    · rw [Mention.isJoint, h.blanks d hd, Bool.true_or]
    · rw [hword]
      simpa using hjoint
  rw [hspan, List.drop_left]
  refine List.eq_nil_iff_forall_not_mem.mpr fun n hn => ?_
  obtain ⟨e, he, hstarts, -⟩ := Mention.mem_wordLengths.mp hn
  have hnot := Measure.not_startsWithLetters_of_ofText? h.solid h.unit h.closes
    (NumberWord.mem_spellings_of_mem (by simp) he)
  rw [hnot] at hstarts
  exact Bool.noConfusion hstarts

theorem isBlank_head (h : IsPairAt text front numeral gap word rest u) :
    ∀ c ∈ (gap ++ (word ++ rest)).head?, isBlank c = true := by
  obtain ⟨d, gap', hgap⟩ := List.exists_cons_of_ne_nil h.gap_ne
  intro c hc
  rw [hgap, List.cons_append, List.head?_cons] at hc
  exact h.blanks c (by simp [hgap, ← Option.some.inj hc])

theorem isLetters (h : IsPairAt text front numeral gap word rest u) {n : Nat}
    (hvalue : NumberWord.value? numeral = some n) :
    Mention.IsLetters numeral (gap ++ (word ++ rest)) := by
  obtain ⟨hne, hletters⟩ := NumberWord.letters_of_value? hvalue
  refine ⟨hne, hletters, fun c hc => ?_⟩
  have hblank := h.isBlank_head c hc
  refine ⟨?_, isWordChar_of_isBlank hblank⟩
  cases hform : isLetterForm c with
  | false => rfl
  | true =>
    rw [isBlank_of_isLetterForm hform] at hblank
    exact Bool.noConfusion hblank

theorem head_not_joint (h : IsPairAt text front numeral gap word rest u) :
    ∃ c w, numeral = c :: w ∧ Mention.isJoint c = false := by
  cases h.numeral with
  | digits hdecimal =>
    obtain ⟨d, w, hnumeral, hd⟩ := hdecimal.exists_head
    exact ⟨d, w, hnumeral, Mention.isJoint_digit hd⟩
  | spelled hvalue =>
    obtain ⟨hne, hletters⟩ := NumberWord.letters_of_value? hvalue
    obtain ⟨c, w, rfl⟩ := List.exists_cons_of_ne_nil hne
    exact ⟨c, w, rfl, Mention.isJoint_of_isLetterForm (hletters c List.mem_cons_self).1⟩

/-- The first numeral that is tried at the place of the numeral is the numeral, and it has a value. -/
theorem exists_head?_numeralsAt (h : IsPairAt text front numeral gap word rest u) : ∃ spelled x,
    (Mention.numeralsAt front.getLast? (numeral ++ (gap ++ (word ++ rest)))).head? =
        some (spelled, numeral.length) ∧
      ∀ unitText, Mention.value? ⟨numeral, spelled, unitText⟩ = some x := by
  rw [Mention.numeralsAt_eq]
  cases h.numeral with
  | digits hdecimal =>
    have hends : Mention.EndsNumber (gap ++ (word ++ rest)) := by
      intro c hc
      have hblank := h.isBlank_head c hc
      refine ⟨has_eq_false_of_isBlank hblank (by simp [wordSpans]), ?_⟩
      rintro rfl
      exact absurd hblank (by decide)
    have hpos : numeral.length ≠ 0 := by
      obtain ⟨d, w, hnumeral, -⟩ := hdecimal.exists_head
      simp [hnumeral]
    obtain ⟨x, hx⟩ := hdecimal.exists_read?
    refine ⟨false, x, ?_, fun _ => hx⟩
    rw [hdecimal.digitsLength_eq hends, if_neg hpos]
    rfl
  | @spelled n hvalue =>
    have hletters := h.isLetters hvalue
    have hopens : ∀ c ∈ front.getLast?, isWordChar c = false :=
      fun c hc => isWordChar_of_isBlank (h.opens c hc)
    have hhead := hletters.head?_spelledLengths hvalue hopens h.wordLengths_ones
    have hnone : Mention.digitsLength (numeral ++ (gap ++ (word ++ rest))) = 0 := by
      obtain ⟨c, w, hnumeral⟩ := List.exists_cons_of_ne_nil hletters.ne_nil
      have hc := (hletters.letters c (hnumeral ▸ List.mem_cons_self)).1
      rw [hnumeral]
      exact Mention.digitsLength_of_head (isDecimalDigit_of_isLetterForm hc) _
    refine ⟨true, Binary.ofInt n, ?_, fun unitText => ?_⟩
    · rw [if_pos hnone, List.nil_append, List.head?_map, hhead]
      rfl
    · rw [Mention.value?, if_pos rfl, Mention.spelledValue?_word hvalue]
      rfl

/-- Where the scan looks at the numeral, it reads it with its unit. -/
theorem exists_mention (h : IsPairAt text front numeral gap word rest u) : ∃ m k x,
    Mention.mention front.getLast? (numeral ++ (gap ++ (word ++ rest))) = some (m, k) ∧
      m.value? = some x ∧ m.unit? = some u := by
  obtain ⟨spelled, x, hhead, hvalue⟩ := h.exists_head?_numeralsAt
  rw [Mention.mention_eq, hhead, Option.map_some]
  dsimp only
  rw [List.take_left, List.drop_left, h.wordBehind_eq]
  exact ⟨_, _, x, rfl, hvalue _, Measure.ofText?_takeWhile h.solid h.unit⟩

end IsPairAt

/-- A number word is taken by the numeral in front of it: it stands where a unit may stand, or it is the last
word of a compound that has no value. -/
inductive IsTaken (text front word : List Char) : Prop
  | asUnit {P Q : List (Piece Mention)} {m : Mention} {chars gap : List Char}
      (found : scan Mention.mention text = P ++ .found m chars :: Q)
      (place : front = textOf P ++ (m.numeral ++ gap)) (blanks : ∀ c ∈ gap, isBlank c = true)
      (taken : m.unitText = some word) (lost : m.unit? = none) : IsTaken text front word
  | asOnes {P Q : List (Piece Mention)} {m : Mention} {chars tens joint : List Char}
      (found : scan Mention.mention text = P ++ .found m chars :: Q)
      (place : front = textOf P ++ (tens ++ joint))
      (joined : joint ≠ [] ∧ ∀ c ∈ joint, Mention.isJoint c = true)
      (compound : m.numeral = tens ++ (joint ++ word)) (valueless : m.value? = none) :
      IsTaken text front word

namespace IsPairAt

variable {text front numeral gap word rest : List Char} {u : Measure} {before : Option Char} {m : Mention}
  {a : List Char} {n : Nat}

/-- Where the word behind a numeral in front reaches the pair, it is the numeral of the pair. -/
theorem unitText_eq (h : IsPairAt text front numeral gap word rest u) (ha : EndsOpen a)
    (hreach : a.length < (Mention.wordBehind (a ++ (numeral ++ (gap ++ (word ++ rest))))).2) :
    (∀ c ∈ a, isBlank c = true) ∧ (∃ n, NumberWord.value? numeral = some n) ∧
      (Mention.wordBehind (a ++ (numeral ++ (gap ++ (word ++ rest))))).1 = some numeral := by
  have hsolid : ∀ c ∈ (numeral ++ (gap ++ (word ++ rest))).head?, isBlank c = false := by
    obtain ⟨d, w, hnumeral, hd⟩ := h.head_not_joint
    simp only [Mention.isJoint, Bool.or_eq_false_iff] at hd
    simpa [hnumeral] using hd.1
  rcases Mention.wordBehind_cases (a ++ (numeral ++ (gap ++ (word ++ rest)))) with hnone | ⟨gap', word', behind,
    heq, hsplit, hblanks, hne, hchars, hstop⟩
  · rw [hnone] at hreach
    exact absurd hreach (Nat.not_lt_zero _)
  rw [heq] at hreach ⊢
  obtain ⟨rfl, hword⟩ := Mention.front_eq_blanks ha hsolid hsplit hblanks hchars hreach
  have hspan : (numeral ++ (gap ++ (word ++ rest))).takeWhile Mention.isUnitChar = word' := by
    rw [hword]
    exact takeWhile_stop hchars hstop
  refine ⟨hblanks, ?_⟩
  cases h.numeral with
  | digits hdecimal =>
    obtain ⟨d, w, hnumeral, hd⟩ := hdecimal.exists_head
    rw [hnumeral, List.cons_append, List.takeWhile_cons_of_neg (by simp [Mention.isUnitChar_digit hd])]
      at hspan
    exact absurd hspan.symm hne
  | @spelled n hvalue =>
    refine ⟨⟨n, hvalue⟩, ?_⟩
    rw [← hspan, takeWhile_stop]
    · exact fun c hc => Mention.isUnitChar_of_isLetterForm ((h.isLetters hvalue).letters c hc).1
    · intro c hc
      simp [Mention.isUnitChar, h.isBlank_head c hc]

/-- Where a numeral in front reaches the pair, it is a compound that the numeral of the pair ends. -/
theorem length_eq (h : IsPairAt text front numeral gap word rest u) {spelled : Bool} (ha : EndsOpen a)
    (hne : a ≠ []) (hn : (spelled, n) ∈ Mention.numeralsAt before (a ++ (numeral ++ (gap ++ (word ++ rest)))))
    (hreach : a.length < n) : (∃ n, NumberWord.value? numeral = some n) ∧ n = a.length + numeral.length ∧
      ∃ tens joint, a = tens ++ joint ∧ joint ≠ [] ∧ ∀ c ∈ joint, Mention.isJoint c = true := by
  obtain ⟨d, w, hnumeral, hd⟩ := h.head_not_joint
  have hlast : ∃ b ∈ a.getLast?, isBlank b = true :=
    ⟨a.getLast hne, List.getLast?_eq_some_getLast hne, ha _ (List.getLast?_eq_some_getLast hne)⟩
  obtain ⟨-, hboundary, ⟨e, he, hstarts, rfl⟩, hjoint⟩ := Mention.exists_ones_of_blank hn hlast
    (by rw [hnumeral]; simpa using hd) hreach
  have hspelling := NumberWord.mem_spellings_of_mem (by simp) he
  have hpos : 0 < e.1.toList.length :=
    List.length_pos_iff.mpr (NumberWord.toList_ne_nil_of_mem_spellings hspelling)
  cases h.numeral with
  | digits hdecimal =>
    obtain ⟨d, w, hnumeral, hd⟩ := hdecimal.exists_head
    obtain ⟨c, hc, hletter, -⟩ :=
      exists_letter (NumberWord.isTableLetter_of_mem_spellings hspelling) hstarts hpos
    rw [hnumeral] at hc
    obtain rfl : d = c := by simpa using hc
    have hdigit := isDecimalDigit_of_isAsciiDigit hd
    rw [isDecimalDigit_of_isLetterForm hletter] at hdigit
    exact Bool.noConfusion hdigit
  | @spelled n hvalue =>
    have hletters := h.isLetters hvalue
    rw [String.length_toList] at hpos
    rw [boundaryBehind_append_left hpos] at hboundary
    have hlength := Mention.eq_of_boundaryBehind (fun c hc => (hletters.letters c hc).2) hpos
      (hletters.length_le hspelling hstarts) hboundary
    exact ⟨⟨n, hvalue⟩, by rw [hlength], hjoint⟩

/-- The numeral is read with its unit, unless it is a number word that the numeral in front of it takes. -/
theorem read_or_taken (h : IsPairAt text front numeral gap word rest u) :
    (∃ P m chars Q x, scan Mention.mention text = P ++ .found m chars :: Q ∧ textOf P <+: front ∧
      m.value? = some x ∧ m.unit? = some u) ∨
    (∃ n, NumberWord.value? numeral = some n) ∧ IsTaken text front numeral := by
  have hscan := scanned_scan Mention.isBounded_mention text
  rcases exists_place (hscan.textOf_eq.trans h.text_eq) with
    ⟨P, Q, hsplit, rfl, hQ⟩ | ⟨P, m, a, t, Q, hsplit, hne, htne, rfl, ht⟩
  · obtain ⟨m, k, x, hmention, hvalue, hunit⟩ := h.exists_mention
    rw [hsplit] at hscan
    obtain ⟨chars, R, rfl, -⟩ := hscan.found_of_taken Mention.isBounded_mention
      (by rw [Option.or_none, hQ]; exact hmention)
    exact Or.inl ⟨P, m, chars, R, x, hsplit, List.prefix_rfl, hvalue, hunit⟩
  · have ha : EndsOpen a := h.opens.of_append
    rw [hsplit] at hscan
    obtain ⟨-, htaken⟩ := hscan.taken_of_split
    rw [List.append_assoc, ← ht] at htaken
    obtain ⟨n, hhead, hnumeral, hunitText, hlength⟩ := Mention.exists_of_mention htaken
    have hlonger : a.length < (a ++ t).length := by
      rw [List.length_append]
      exact Nat.lt_add_of_pos_right (List.length_pos_iff.mpr htne)
    rcases Nat.lt_or_ge a.length n with hinside | hbehind
    · obtain ⟨hvalue, rfl, tens, joint, rfl, hjoint⟩ :=
        h.length_eq ha hne (List.mem_of_head? hhead) hinside
      rw [← List.append_assoc, ← List.length_append, List.take_left] at hnumeral
      rw [← List.append_assoc, ← List.length_append, List.drop_left, h.wordBehind_eq] at hunitText
      have hunit : m.unit? = some u := by
        rw [Mention.unit?, hunitText, Option.bind_some, Measure.ofText?_takeWhile h.solid h.unit]
      cases hx : m.value? with
      | some x => exact Or.inl ⟨P, m, _, Q, x, hsplit, List.prefix_append _ _, hx, hunit⟩
      | none =>
        exact Or.inr ⟨hvalue, .asOnes hsplit rfl hjoint (hnumeral.trans (List.append_assoc ..)) hx⟩
    · rw [List.drop_append_of_le_length hbehind] at hunitText hlength
      have hopen : EndsOpen (a.drop n) := by
        rw [← List.take_append_drop n a] at ha
        exact ha.of_append
      obtain ⟨hblanks, ⟨value, hvalue⟩, hword⟩ := h.unitText_eq hopen (by
        rw [List.length_drop]
        omega)
      rw [hword] at hunitText
      refine Or.inr ⟨⟨value, hvalue⟩, .asUnit hsplit ?_ hblanks hunitText ?_⟩
      · rw [hnumeral, List.take_append_of_le_length hbehind, List.take_append_drop]
      · rw [Mention.unit?, hunitText, Option.bind_some, Measure.ofText?_of_value? hvalue]

end IsPairAt

/-! ## The unit of a quantity -/

namespace Quantity

/-- A numeral that is read with its unit gives the text a quantity with a unit: a percentage, its own, or
that of a numeral in front of it. -/
theorem extract_of_found {text : String} {P Q : List (Piece Mention)} {m : Mention} {chars : List Char}
    {x : Binary64} {u : Measure} (hsplit : scan Mention.mention text.toList = P ++ .found m chars :: Q)
    (hvalue : m.value? = some x) (hunit : m.unit? = some u) : ∃ y v, extract text = ⟨some y, some v⟩ ∧
      (v = u ∨ v = .percent ∧ percentage? text.toList ≠ .none ∨
        ∃ m' ∈ P.filterMap Piece.value?, m'.value? = some y ∧ m'.unit? = some v) := by
  rw [extract_eq]
  cases hpercent : percentage? text.toList with
  | some q =>
    obtain ⟨y, rfl, -⟩ := exists_of_percentage hpercent
    exact ⟨clampPercent y, .percent, rfl, Or.inr (Or.inl ⟨rfl, nofun⟩)⟩
  | none =>
    have hreadings : readings text.toList = (P.filterMap Piece.value?).filterMap reading? ++
        (m, x) :: (Q.filterMap Piece.value?).filterMap reading? := by
      have hread : reading? m = some (m, x) := by rw [reading?, hvalue, Option.map_some]
      rw [readings_eq, hsplit, List.filterMap_append, List.filterMap_append,
        List.filterMap_cons_some (show Piece.value? (.found m chars) = some m from rfl),
        List.filterMap_cons_some hread]
    rw [hreadings, measured?_append, measured?_cons hunit]
    cases hfront : measured? ((P.filterMap Piece.value?).filterMap reading?) with
    | some q =>
      obtain ⟨m', y, v, hmem, hv, rfl⟩ := exists_of_measured hfront
      obtain ⟨hfound, hy⟩ := mem_filterMap_reading?.mp hmem
      exact ⟨y, v, rfl, Or.inr (Or.inr ⟨m', hfound, hy, hv⟩)⟩
    | none => exact ⟨x, u, rfl, Or.inl rfl⟩

/-- A text with a numeral and a unit behind it, each a word of the text, has a quantity with a unit, unless
the numeral is a number word that the numeral in front of it takes. -/
theorem unit_of_pair (text : String) {before behind : List (List Char)} {numeral word : List Char}
    {u : Measure} (hwords : words text.toList = before ++ numeral :: word :: behind)
    (hnumeral : IsNumeral numeral) (hunit : Measure.ofText? word = some u) :
    (extract text).unit ≠ .none ∨
      (∃ n, NumberWord.value? numeral = some n) ∧
        ∃ front rest, text.toList = front ++ (numeral ++ rest) ∧ words front = before ∧
          IsTaken text.toList front numeral := by
  obtain ⟨front, gap, rest, hpair, hfront⟩ := exists_isPairAt hwords hnumeral hunit
  rcases hpair.read_or_taken with ⟨P, m, chars, Q, x, hsplit, -, hvalue, hm⟩ | ⟨hvalue, htaken⟩
  · obtain ⟨y, v, heq, -⟩ := extract_of_found hsplit hvalue hm
    rw [heq]
    exact Or.inl nofun
  · exact Or.inr ⟨hvalue, front, _, hpair.text_eq, hfront, htaken⟩

set_option maxRecDepth 20000 in
theorem unit_of_pair_behind_bare :
    words "one more go forward 2 m".toList =
        ["one", "more", "go", "forward"].map String.toList ++ ['2'] :: ['m'] :: [] ∧
      (extract "one more go forward 2 m").unit ≠ .none := by
  have hwords : words "one more go forward 2 m".toList =
      ["one", "more", "go", "forward"].map String.toList ++ ['2'] :: ['m'] :: [] := by decide
  have hdigit : IsNumeral ['2'] := .digits (.whole (by decide))
  refine ⟨hwords, ?_⟩
  rcases unit_of_pair "one more go forward 2 m" hwords hdigit
    (show Measure.ofText? ['m'] = some .meters by decide) with h | ⟨⟨n, hn⟩, -⟩
  · exact h
  · have hnone : NumberWord.value? ['2'] = .none := by decide
    rw [hnone] at hn
    simp at hn

set_option maxRecDepth 20000 in
/-- In `5 two meters` the number word is taken for the unit of the digit. -/
theorem unit_lost_behind_digit : ¬ ∀ (text : String) (before behind : List (List Char))
    (numeral word : List Char) (u : Measure),
    words text.toList = before ++ numeral :: word :: behind → IsNumeral numeral →
      word.all isAlphabetic = true → Measure.ofText? word = some u →
      (extract text).unit ≠ .none := by
  intro h
  have hnone : (extract "5 two meters").unit = .none := by rfl
  refine h "5 two meters" ["5".toList] [] "two".toList "meters".toList .meters (by decide)
    (.spelled (show NumberWord.value? "two".toList = some 2 by decide)) (by decide) (by decide) hnone

end Quantity

end Teleop
