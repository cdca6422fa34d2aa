import Mathlib.Data.List.Basic
import Mathlib.Data.List.Forall2
import Teleop.Proofs.Quantity.Mention
import Teleop.Proofs.Text.Slice
import Teleop.Proofs.Text.Trailing

/-!
# The quantity of a text with a full stop behind it

Spaces and full stops at the end of a text begin no numeral and no percentage, and no number word reaches
into them. The word behind the last numeral may take a full stop with it, but closing punctuation does not
change the unit that the word names. So what stands behind the text does not change its quantity
(`extract_trailing`).
-/

namespace Teleop

open Numeric Text

namespace Mention

variable {v z t : List Char} {before : Option Char} {n : Nat}

/-! ## Spelled numerals -/

/-- No word of a table ends in a space or a full stop. -/
def EndInside (table : List (String × Nat)) : Prop :=
  ∀ word ∈ table, EndsInside word.1.toList

theorem endsInside_of_all {words : List String}
    (h : words.all (fun w => w.toList.getLast?.all fun l => l != ' ' && l != '.') = true) :
    ∀ w ∈ words, EndsInside w.toList := by
  intro w hw l hl
  have hinside := List.all_eq_true.mp h w hw
  rw [show w.toList.getLast? = some l from hl] at hinside
  simpa using hinside

theorem endInside_of_all {table : List (String × Nat)}
    (h : (table.map Prod.fst).all
      (fun w => w.toList.getLast?.all fun l => l != ' ' && l != '.') = true) : EndInside table :=
  fun _ hword => endsInside_of_all h _ (List.mem_map_of_mem hword)

theorem endInside_ones : EndInside NumberWord.ones := endInside_of_all (by decide)

theorem endInside_tens : EndInside NumberWord.tens := endInside_of_all (by decide)

theorem endInside_urdu : EndInside NumberWord.urduByLength := endInside_of_all (by decide)

section Spelled

variable {table : List (String × Nat)}

theorem wordLengths_trailing (ht : EndInside table) (hz : IsTrailing z) :
    wordLengths table (v ++ z) = wordLengths table v := by
  refine List.filterMap_congr fun word hword => ?_
  obtain ⟨w, n⟩ := word
  dsimp only
  rw [startsWithLetters_trailing hz (ht _ hword)]

theorem ones_of_trailing (hz : IsTrailing z) : wordLengths NumberWord.ones z = [] := by
  have h := wordLengths_trailing (v := []) endInside_ones hz
  rwa [List.nil_append, wordLengths_nil (by simp)] at h

theorem compoundsOf_trailing (hz : IsTrailing z) (hn : n ≤ v.length) :
    compoundsOf (v ++ z) n = compoundsOf v n := by
  have hnone {j : Nat} {text : List Char} (h : wordLengths NumberWord.ones text = []) :
      (if j = 0 then [] else (wordLengths NumberWord.ones text).map (n + j + ·)) = [] := by
    rw [h, List.map_nil, ite_self]
  simp only [compoundsOf]
  rw [List.drop_append_of_le_length hn, List.takeWhile_append]
  split
  · -- joints are all that is left, so no word follows them
    rename_i hall
    rw [hall, List.drop_length, hnone (wordLengths_nil (by simp)), List.length_append,
      List.drop_append, hnone]
    rw [List.drop_eq_nil_of_le (Nat.le_add_right _ _), List.nil_append]
    exact ones_of_trailing (hz.drop _)
  · have hle := (List.takeWhile_sublist (l := v.drop n) isJoint).length_le
    rw [List.drop_append_of_le_length hle, wordLengths_trailing endInside_ones hz]

theorem compoundLengths_trailing (hz : IsTrailing z) :
    compoundLengths (v ++ z) = compoundLengths v := by
  rw [compoundLengths_eq, compoundLengths_eq, wordLengths_trailing endInside_tens hz]
  exact List.flatMap_congr fun n hn => compoundsOf_trailing hz (within_of_mem_wordLengths (by simp) hn).2

theorem spelledLengths_trailing (hz : IsTrailing z) :
    spelledLengths before (v ++ z) = spelledLengths before v := by
  rw [spelledLengths, spelledLengths, isBoundary_trailing hz, compoundLengths_trailing hz,
    wordLengths_trailing endInside_ones hz, wordLengths_trailing endInside_urdu hz,
    List.filter_congr fun n hn => boundaryBehind_trailing hz (within_of_mem_spelled hn).2]

end Spelled

/-! ## Numerals -/

theorem digitsLength_trailing (hz : IsTrailing z) : digitsLength (v ++ z) = digitsLength v := by
  have hdigits (v : List Char) : (v ++ z).takeWhile isDecimalDigit = v.takeWhile isDecimalDigit :=
    takeWhile_trailing fun c hc => (trailing_char (hz c hc)).2.1
  have hle := (List.takeWhile_sublist (l := v) isDecimalDigit).length_le
  simp only [digitsLength]
  rw [hdigits, List.drop_append_of_le_length hle]
  split
  · rfl
  · cases hrest : v.drop (v.takeWhile isDecimalDigit).length with
    | nil =>
      cases z with
      | nil => rfl
      | cons c z =>
        -- the full stop behind the digits has no digits behind it
        have hnone : z.takeWhile isDecimalDigit = [] := by
          cases z with
          | nil => rfl
          | cons d z =>
            exact List.takeWhile_cons_of_neg (by simp [(trailing_char (hz d (by simp))).2.1])
        rcases hz c List.mem_cons_self with rfl | rfl
        · rfl
        · simp [hnone]
    | cons c rest =>
      rw [List.cons_append]
      split
      · rename_i heq
        obtain ⟨rfl, rfl⟩ := List.cons.inj heq
        simp only [hdigits]
      · rename_i hstop
        split
        · rename_i heq
          obtain ⟨rfl, rfl⟩ := List.cons.inj heq
          exact absurd rfl (hstop _)
        · rfl

theorem numeralsAt_trailing (hz : IsTrailing z) :
    numeralsAt before (v ++ z) = numeralsAt before v := by
  rw [numeralsAt_eq, numeralsAt_eq, digitsLength_trailing hz, spelledLengths_trailing hz]

/-- No numeral begins behind the text. -/
theorem numeralsAt_of_trailing (hz : IsTrailing z) : numeralsAt before z = [] := by
  have h : numeralsAt before ([] ++ z) = numeralsAt before [] := numeralsAt_trailing hz
  rwa [List.nil_append, numeralsAt_nil] at h

/-! ## Percentages -/

theorem endsInside_percentWords :
    ∀ w ∈ percentWords ++ ["فیصد"], EndsInside w.toList :=
  endsInside_of_all (by decide)

theorem isPercentAt_trailing (hz : IsTrailing z) :
    isPercentAt before (v ++ z) = isPercentAt before v := by
  have hsign : (v ++ z).head? = some '%' ↔ v.head? = some '%' := by
    cases v with
    | cons c v => exact Iff.rfl
    | nil =>
      refine iff_of_false (fun h => ?_) (by simp)
      have hc := hz '%' (List.mem_of_head? h)
      exact absurd hc (by decide)
  have hat (w : String) (hw : w ∈ percentWords) :
      isWordAt before (v ++ z) w.toList = isWordAt before v w.toList :=
    isWordAt_trailing hz (endsInside_percentWords w (List.mem_append_left _ hw)) before
  have hwords : percentWords.any (isWordAt before (v ++ z) ·.toList) =
      percentWords.any (isWordAt before v ·.toList) := by
    refine Bool.eq_iff_iff.mpr ?_
    simp only [List.any_eq_true]
    exact exists_congr fun w => and_congr_right fun hw => by rw [hat w hw]
  rw [isPercentAt_eq, isPercentAt_eq, hwords,
    startsWithLetters_trailing hz (endsInside_percentWords "فیصد" (by simp)),
    decide_eq_decide.mpr hsign]

theorem isPercentBehind_trailing (hz : IsTrailing z) (last : Option Char) :
    isPercentBehind last (v ++ z) = isPercentBehind last v := by
  simp only [isPercentBehind]
  rw [List.takeWhile_append]
  split
  · -- only blanks are left of the text, and no percentage follows them
    rename_i hall
    have hnone (before : Option Char) (k : Nat) : isPercentAt before (z.drop k) = false := by
      have h : isPercentAt before ([] ++ z.drop k) = isPercentAt before [] :=
        isPercentAt_trailing (hz.drop k)
      rwa [List.nil_append, isPercentAt_nil] at h
    rw [hall, List.drop_length, isPercentAt_nil, List.length_append, List.drop_append,
      List.drop_eq_nil_of_le (Nat.le_add_right _ _), List.nil_append, hnone]
  · have hle := (List.takeWhile_sublist (l := v) isBlank).length_le
    rw [List.drop_append_of_le_length hle, isPercentAt_trailing hz]

theorem percentMention_trailing (hz : IsTrailing z) (hv : v ≠ []) :
    percentMention before (v ++ z) = percentMention before v := by
  have hpos := List.length_pos_iff.mpr hv
  have hfind : ((numeralsAt before v).find? fun numeral =>
        isPercentBehind (v ++ z)[numeral.2 - 1]? ((v ++ z).drop numeral.2)) =
      (numeralsAt before v).find? fun numeral =>
        isPercentBehind v[numeral.2 - 1]? (v.drop numeral.2) := by
    refine List.find?_congr fun numeral hn => ?_
    have hle := (within_of_mem_numeralsAt hn).2
    rw [List.getElem?_append_left (by omega), List.drop_append_of_le_length hle,
      isPercentBehind_trailing hz]
  rw [percentMention_eq, percentMention_eq, numeralsAt_trailing hz, hfind]
  cases hnumeral : (numeralsAt before v).find? fun numeral =>
      isPercentBehind v[numeral.2 - 1]? (v.drop numeral.2) with
  | none => rfl
  | some numeral =>
    have hle := (within_of_mem_numeralsAt (List.mem_of_find?_eq_some hnumeral)).2
    rw [Option.map_some, Option.map_some, List.take_append_of_le_length hle]

theorem percentMention_of_trailing (hz : IsTrailing z) : percentMention before z = none := by
  rw [percentMention_eq, numeralsAt_of_trailing hz]
  rfl

/-- The percentages of a text do not depend on what trails it. -/
theorem scan_percentMention_trailing (hz : IsTrailing z) :
    scan percentMention (t ++ z) = scan percentMention t ++ z.map .plain := by
  have hplains : scan percentMention z = z.map .plain :=
    scan_eq_plains isBounded_percentMention fun p c s hsplit =>
      percentMention_of_trailing (IsTrailing.suffix (hsplit ▸ hz))
  rw [← hplains]
  refine scan_append isBounded_percentMention (fun p s _ hs => percentMention_trailing hz hs) ?_
  rw [percentMention_of_trailing hz, percentMention_of_trailing hz]

/-! ## Numerals with the word behind them -/

theorem mention_of_trailing (hz : IsTrailing z) : mention before z = none := by
  rw [mention_eq, numeralsAt_of_trailing hz]
  rfl

end Mention

/-- Full stops behind a word do not change the unit that it names. -/
theorem Measure.ofText?_append {word stops : List Char} (hword : ∀ c ∈ word, isBlank c = false)
    (hstops : ∀ c ∈ stops, c = '.') : Measure.ofText? (word ++ stops) = Measure.ofText? word := by
  have htrim {text : List Char} (h : ∀ c ∈ text, isBlank c = false) : trim text = text :=
    trim_eq_self (fun c hc => h c (List.mem_of_head? hc)) fun c hc => h c (List.mem_of_getLast? hc)
  have hall : ∀ c ∈ word ++ stops, isBlank c = false := by
    intro c hc
    rcases List.mem_append.mp hc with hc | hc
    · exact hword c hc
    · rw [hstops c hc]
      decide
  have hdrop : (word ++ stops).reverse.dropWhile isClosing = word.reverse.dropWhile isClosing := by
    rw [List.reverse_append]
    refine List.dropWhile_append_of_pos fun c hc => ?_
    rw [hstops c (List.mem_reverse.mp hc)]
    rfl
  rw [ofText?, ofText?, htrim hall, htrim hword, hdrop]

namespace Mention

/-- What trails a text goes with the word behind the last numeral and does not change the unit it names. -/
theorem wordBehind_trailing (hz : IsTrailing z) (hv : EndsSolid v) : ∃ k,
    (wordBehind (v ++ z)).2 = (wordBehind v).2 + k ∧ k ≤ z.length ∧
      (k = 0 ∨ (wordBehind v).2 = v.length) ∧
      (wordBehind (v ++ z)).1.bind Measure.ofText? = (wordBehind v).1.bind Measure.ofText? := by
  have hstops {z : List Char} (hz : IsTrailing z) : ∀ c ∈ z.takeWhile isUnitChar, c = '.' := by
    intro c hc
    have hunit : isUnitChar c = true := List.all_eq_true.mp List.all_takeWhile c hc
    rcases hz c ((List.takeWhile_sublist _).subset hc) with rfl | rfl
    · exact absurd hunit (by decide)
    · rfl
  by_cases hnil : v = []
  · subst hnil
    refine ⟨(wordBehind z).2, (Nat.zero_add _).symm, wordBehind_le_length z, Or.inr rfl, ?_⟩
    rw [List.nil_append]
    simp only [wordBehind]
    split
    · rfl
    · rw [← List.nil_append (List.takeWhile _ _)]
      exact Measure.ofText?_append (by simp) (hstops (hz.drop _))
  · obtain ⟨gap, c, rest, rfl, hgap, hc⟩ := exists_gap hv hnil
    have hdrop (text : List Char) : (gap ++ text).drop gap.length = text := List.drop_left
    rw [List.append_assoc, List.cons_append]
    simp only [wordBehind, takeWhile_isBlank _ hgap hc, hdrop]
    rw [← List.cons_append, List.takeWhile_append]
    split
    · -- the text ends in the word behind the numeral
      rename_i hall
      have hword := List.IsPrefix.eq_of_length (List.takeWhile_prefix isUnitChar) hall
      rw [hword, if_neg (by simp), if_neg (by simp)]
      have hblank : ∀ d ∈ c :: rest, isBlank d = false := by
        intro d hd
        rw [← hword] at hd
        have hunit : isUnitChar d = true := List.all_eq_true.mp List.all_takeWhile d hd
        simp only [isUnitChar, Bool.not_eq_true', Bool.or_eq_false_iff] at hunit
        exact hunit.1.1.1
      refine ⟨(z.takeWhile isUnitChar).length, ?_, (List.takeWhile_sublist _).length_le, Or.inr ?_, ?_⟩
      · rw [List.length_append, Nat.add_assoc]
      · rw [List.length_append]
      · exact Measure.ofText?_append hblank (hstops hz)
    · exact ⟨0, rfl, Nat.zero_le _, Or.inl rfl, rfl⟩

/-! ## What the numerals of a text mean -/

structure SameSense (m m' : Mention) : Prop where
  numeral : m.numeral = m'.numeral
  isSpelled : m.isSpelled = m'.isSpelled
  unit : m.unit? = m'.unit?

section Sense

variable {m m' : Mention}

theorem SameSense.value (h : SameSense m m') : m.value? = m'.value? := by
  rw [value?, value?, h.isSpelled, h.numeral]

theorem SameSense.needsUnit (h : SameSense m m') : m.needsUnit = m'.needsUnit := by
  rw [Mention.needsUnit, Mention.needsUnit, h.isSpelled, h.numeral]

end Sense

/-- A numeral keeps its sense and goes on into what trails the text only if it ends the text. -/
theorem mention_trailing (hz : IsTrailing z) (hv : EndsSolid v) {m : Mention}
    (h : mention before v = some (m, n)) : ∃ m' k, mention before (v ++ z) = some (m', n + k) ∧
      SameSense m' m ∧ k ≤ z.length ∧ (k = 0 ∨ n = v.length) := by
  rw [mention_eq, Option.map_eq_some_iff] at h
  obtain ⟨⟨spelled, j⟩, hhead, heq⟩ := h
  obtain ⟨rfl, rfl⟩ := Prod.mk.inj heq
  have hle := (within_of_mem_numeralsAt (List.mem_of_head? hhead)).2
  have hbehind : EndsSolid (v.drop j) := by
    rw [← List.take_append_drop j v] at hv
    exact hv.of_append
  obtain ⟨k, hk, hkz, hreach, hunit⟩ := wordBehind_trailing hz hbehind
  refine ⟨⟨v.take j, spelled, (wordBehind (v.drop j ++ z)).1⟩, k, ?_, ⟨rfl, rfl, hunit⟩, hkz, ?_⟩
  · rw [mention_eq, numeralsAt_trailing hz, hhead, Option.map_some]
    dsimp only
    rw [List.take_append_of_le_length hle, List.drop_append_of_le_length hle, hk, Nat.add_assoc]
  · rw [List.length_drop] at hreach
    omega

/-- What trails a text leaves the sense of its numerals as it is. -/
theorem exists_scanned_trailing {ps : List (Piece Mention)} (hz : IsTrailing z) (ht : EndsSolid t)
    (h : Scanned mention before t ps) : ∃ qs, Scanned mention before (t ++ z) qs ∧
      List.Forall₂ SameSense (qs.filterMap Piece.value?) (ps.filterMap Piece.value?) := by
  have hplains {z : List Char} (hz : IsTrailing z) (before : Option Char) :
      Scanned mention before z (z.map .plain) := by
    have hall : Scanned mention before (z ++ []) (z.map .plain ++ []) :=
      .plains (fun p c s hsplit => mention_of_trailing (by
        rw [List.append_nil]
        exact IsTrailing.suffix (hsplit ▸ hz))) .nil
    rwa [List.append_nil, List.append_nil] at hall
  have hnone (z : List Char) : (z.map (Piece.plain (α := Mention))).filterMap Piece.value? = [] := by
    simp [Piece.value?, Function.comp_def]
  induction h with
  | nil => exact ⟨_, hplains hz _, by rw [hnone]; exact .nil⟩
  | @plain before c rest ps missed _ ih =>
    obtain ⟨qs, hqs, hsame⟩ := ih (EndsSolid.of_append (p := [c]) ht)
    have hmissed : mention before ((c :: rest) ++ z) = none := by
      rw [mention_eq, Option.map_eq_none_iff] at missed ⊢
      rwa [numeralsAt_trailing hz]
    exact ⟨.plain c :: qs, .plain hmissed hqs, hsame⟩
  | @found before m text rest ps hne taken behind ih =>
    obtain ⟨m', k, htaken, hsense, hkz, hreach⟩ := mention_trailing hz ht taken
    rcases hreach with rfl | hreach
    · obtain ⟨qs, hqs, hsame⟩ := ih ht.of_append
      rw [List.append_assoc] at htaken ⊢
      exact ⟨.found m' text :: qs, .found hne htaken hqs, .cons hsense hsame⟩
    · -- the word behind the numeral reaches the end of the text and takes `k` characters more
      obtain rfl : rest = [] := by
        rw [List.length_append] at hreach
        exact List.length_eq_zero_iff.mp (by omega)
      obtain rfl := behind.unique .nil
      have hlength : (text ++ z.take k).length = text.length + k := by
        rw [List.length_append, List.length_take_of_le hkz]
      have hsplit : text ++ [] ++ z = (text ++ z.take k) ++ z.drop k := by simp
      rw [hsplit] at htaken ⊢
      refine ⟨.found m' (text ++ z.take k) :: (z.drop k).map .plain,
        .found (by simp [hne]) (by rwa [hlength]) (hplains (hz.drop k) _), ?_⟩
      exact .cons hsense (by rw [hnone]; exact .nil)

end Mention

namespace Quantity

variable {t z : List Char}

/-- Numerals of the same sense make the same quantity. -/
theorem quantity_congr {ms ms' : List Mention} (h : List.Forall₂ Mention.SameSense ms ms') :
    measured? (ms.filterMap reading?) = measured? (ms'.filterMap reading?) ∧
      bare (ms.filterMap reading?) = bare (ms'.filterMap reading?) := by
  induction h with
  | nil => exact ⟨rfl, rfl⟩
  | @cons m m' ms ms' hsense _ ih =>
    obtain ⟨hmeasured, hbare⟩ := ih
    have hvalue := hsense.value
    cases hv : m'.value? with
    | none =>
      rw [hv] at hvalue
      rw [List.filterMap_cons_none (by rw [reading?, hvalue]; rfl),
        List.filterMap_cons_none (by rw [reading?, hv]; rfl)]
      exact ⟨hmeasured, hbare⟩
    | some value =>
      rw [hv] at hvalue
      have hm : reading? m = some (m, value) := by rw [reading?, hvalue]; rfl
      have hm' : reading? m' = some (m', value) := by rw [reading?, hv]; rfl
      rw [List.filterMap_cons_some hm, List.filterMap_cons_some hm']
      refine ⟨?_, ?_⟩
      · rw [measured?, measured?, List.findSome?_cons, List.findSome?_cons]
        dsimp only
        rw [hsense.unit]
        cases m'.unit? with
        | some unit => rfl
        | none => exact hmeasured
      · rw [bare, bare, List.find?_cons, List.find?_cons, hsense.needsUnit]
        cases m'.needsUnit with
        | false => rfl
        | true => exact hbare

/-- Spaces and full stops behind a text do not change its quantity. -/
theorem extract_trailing (hz : IsTrailing z) (ht : EndsSolid t) :
    extract (String.ofList (t ++ z)) = extract (String.ofList t) := by
  have hpercent : percentage? (t ++ z) = percentage? t := by
    rw [percentage?, percentage?, Mention.scan_percentMention_trailing hz, List.findSome?_append]
    have hnone : (z.map (Piece.plain (α := Mention))).findSome? Piece.value? = .none := by
      simp [List.findSome?_map, Piece.value?, Function.comp_def]
    rw [hnone, Option.or_none]
  obtain ⟨qs, hqs, hsame⟩ := Mention.exists_scanned_trailing hz ht
    (scanned_scan Mention.isBounded_mention t)
  obtain ⟨hmeasured, hbare⟩ := quantity_congr hsame
  rw [← hqs.scan_eq Mention.isBounded_mention, ← readings_eq, ← readings_eq] at hmeasured hbare
  simp only [extract, String.toList_ofList, hpercent, hmeasured, hbare]

end Quantity

end Teleop
