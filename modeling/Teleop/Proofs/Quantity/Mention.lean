import Mathlib.Data.List.Basic
import Teleop.Proofs.Text.Scan
import Teleop.Proofs.Text.Standing
import Teleop.Proofs.Text.Words
import Teleop.Quantity.Extraction

/-!
# Numerals and where they end

The recognisers of numerals and of percentages in equations, part by part. A numeral is at least one
character long and ends within its text (`within_of_mem_numeralsAt`), so scans for numerals and for
percentages are bounded.
-/

namespace Teleop

open Numeric Text

namespace Mention

variable {v : List Char} {before : Option Char} {n : Nat}

/-! ## Spelled numerals -/

/-- The compounds of a number word of `n` characters at the head of a text, and the word alone. -/
def compoundsOf (text : List Char) (n : Nat) : List Nat :=
  let behind := text.drop n
  let joint := (behind.takeWhile isJoint).length
  (if joint = 0 then [] else (wordLengths NumberWord.ones (behind.drop joint)).map (n + joint + ·)) ++
    [n]

theorem compoundLengths_eq (text : List Char) :
    compoundLengths text = (wordLengths NumberWord.tens text).flatMap (compoundsOf text) := rfl

theorem word_ne_nil {table : List (String × Nat)}
    (ht : table ∈ [NumberWord.ones, NumberWord.tens, NumberWord.urduByLength]) {word : String × Nat}
    (hword : word ∈ table) : word.1.toList ≠ [] := by
  have hall : [NumberWord.ones, NumberWord.tens, NumberWord.urduByLength].all
      (fun table => table.all fun word => !word.1.toList.isEmpty) = true := by decide
  have hsolid := List.all_eq_true.mp (List.all_eq_true.mp hall table ht) word hword
  simpa using hsolid

theorem within_of_mem_wordLengths {table : List (String × Nat)}
    (ht : table ∈ [NumberWord.ones, NumberWord.tens, NumberWord.urduByLength])
    (hn : n ∈ wordLengths table v) : 0 < n ∧ n ≤ v.length := by
  obtain ⟨⟨w, value⟩, hword, hsome⟩ := List.mem_filterMap.mp hn
  dsimp only at hsome
  split at hsome
  · rename_i hstarts
    obtain rfl := Option.some.inj hsome
    rw [← String.length_toList]
    exact ⟨List.length_pos_iff.mpr (word_ne_nil ht hword), startsWithLetters_length_le hstarts⟩
  · simp at hsome

theorem wordLengths_nil {table : List (String × Nat)}
    (ht : table ∈ [NumberWord.ones, NumberWord.tens, NumberWord.urduByLength]) :
    wordLengths table [] = [] := by
  refine List.eq_nil_iff_forall_not_mem.mpr fun n hmem => ?_
  obtain ⟨hpos, hle⟩ := within_of_mem_wordLengths ht hmem
  exact absurd hle (Nat.not_le_of_lt hpos)

theorem within_of_mem_compoundsOf {k : Nat} (hn : 0 < n ∧ n ≤ v.length) (hk : k ∈ compoundsOf v n) :
    0 < k ∧ k ≤ v.length := by
  simp only [compoundsOf] at hk
  rcases List.mem_append.mp hk with hk | hk
  · split at hk
    · simp at hk
    · obtain ⟨m, hm, rfl⟩ := List.mem_map.mp hk
      have hjoint := (List.takeWhile_sublist (l := v.drop n) isJoint).length_le
      have hword := (within_of_mem_wordLengths (by simp) hm).2
      rw [List.length_drop] at hjoint hword
      rw [List.length_drop] at hword
      omega
  · rw [List.mem_singleton.mp hk]
    exact hn

/-- The numerals that number words spell at the head of a text, before it is asked where words end. -/
theorem within_of_mem_spelled (hn : n ∈ compoundLengths v ++ wordLengths NumberWord.ones v ++
    wordLengths NumberWord.urduByLength v) : 0 < n ∧ n ≤ v.length := by
  rcases List.mem_append.mp hn with hn | hn
  · rcases List.mem_append.mp hn with hn | hn
    · rw [compoundLengths_eq] at hn
      obtain ⟨m, hm, hn⟩ := List.mem_flatMap.mp hn
      exact within_of_mem_compoundsOf (within_of_mem_wordLengths (by simp) hm) hn
    · exact within_of_mem_wordLengths (by simp) hn
  · exact within_of_mem_wordLengths (by simp) hn

theorem within_of_mem_spelledLengths (hn : n ∈ spelledLengths before v) : 0 < n ∧ n ≤ v.length := by
  rw [spelledLengths] at hn
  split at hn
  · exact within_of_mem_spelled (List.mem_filter.mp hn).1
  · simp at hn

/-! ## Numerals -/

theorem numeralsAt_eq (before : Option Char) (text : List Char) : numeralsAt before text =
    (if digitsLength text = 0 then [] else [(false, digitsLength text)]) ++
      (spelledLengths before text).map (true, ·) := rfl

theorem digitsLength_le (v : List Char) : digitsLength v ≤ v.length := by
  have hle := (List.takeWhile_sublist (l := v) isDecimalDigit).length_le
  simp only [digitsLength]
  split
  · exact Nat.zero_le _
  · split
    · rename_i rest hrest
      have hdecimals := (List.takeWhile_sublist (l := rest) isDecimalDigit).length_le
      have hlength := congrArg List.length hrest
      rw [List.length_drop, List.length_cons] at hlength
      split <;> omega
    · exact hle

theorem within_of_mem_numeralsAt {spelled : Bool} (hn : (spelled, n) ∈ numeralsAt before v) :
    0 < n ∧ n ≤ v.length := by
  rw [numeralsAt_eq] at hn
  rcases List.mem_append.mp hn with hn | hn
  · split at hn
    · simp at hn
    · rename_i hdigits
      obtain ⟨-, rfl⟩ := Prod.mk.inj (List.mem_singleton.mp hn)
      exact ⟨Nat.pos_of_ne_zero hdigits, digitsLength_le v⟩
  · obtain ⟨m, hm, heq⟩ := List.mem_map.mp hn
    obtain ⟨-, rfl⟩ := Prod.mk.inj heq
    exact within_of_mem_spelledLengths hm

theorem numeralsAt_nil : numeralsAt before [] = [] := by
  refine List.eq_nil_iff_forall_not_mem.mpr fun ⟨spelled, n⟩ hmem => ?_
  obtain ⟨hpos, hle⟩ := within_of_mem_numeralsAt hmem
  exact absurd hle (Nat.not_le_of_lt hpos)

/-! ## Numerals with the word behind them -/

/-- The word behind a numeral, if one follows, and the number of characters taken for it. -/
def wordBehind (behind : List Char) : Option (List Char) × Nat :=
  let blanks := (behind.takeWhile isBlank).length
  let word := (behind.drop blanks).takeWhile isUnitChar
  if word.isEmpty then (none, 0) else (some word, blanks + word.length)

theorem mention_eq (before : Option Char) (text : List Char) : mention before text =
    (numeralsAt before text).head?.map fun (spelled, n) =>
      (⟨text.take n, spelled, (wordBehind (text.drop n)).1⟩, n + (wordBehind (text.drop n)).2) := by
  rw [mention]
  cases (numeralsAt before text).head? with
  | none => rfl
  | some numeral =>
    obtain ⟨spelled, n⟩ := numeral
    simp only [Option.map_some, wordBehind]
    split <;> simp [*, Nat.add_assoc]

/-- The word behind a numeral stands behind blanks, if any, and ends at the first character that cannot
belong to it. -/
theorem wordBehind_cases (v : List Char) : wordBehind v = (none, 0) ∨ ∃ gap word behind,
    wordBehind v = (some word, gap.length + word.length) ∧ v = gap ++ (word ++ behind) ∧
      (∀ c ∈ gap, isBlank c = true) ∧ word ≠ [] ∧ (∀ c ∈ word, isUnitChar c = true) ∧
      ∀ c ∈ behind.head?, isUnitChar c = false := by
  simp only [wordBehind]
  split
  · exact Or.inl rfl
  · rename_i hne
    refine Or.inr ⟨v.takeWhile isBlank, _, (v.drop (v.takeWhile isBlank).length).dropWhile isUnitChar, rfl,
      ?_, List.all_eq_true.mp List.all_takeWhile, by simpa using hne,
      List.all_eq_true.mp List.all_takeWhile, fun c hc => ?_⟩
    · rw [List.takeWhile_append_dropWhile]
      exact (List.prefix_iff_eq_append.mp (List.takeWhile_prefix isBlank)).symm
    · have hhead := List.head?_dropWhile_not isUnitChar (v.drop (v.takeWhile isBlank).length)
      rw [hc] at hhead
      simpa using hhead

/-- Behind blanks the word goes up to the first character that cannot belong to it. -/
theorem wordBehind_gap {gap v word : List Char} (hgap : ∀ c ∈ gap, isBlank c = true)
    (hv : ∀ c ∈ v.head?, isBlank c = false) (hword : v.takeWhile isUnitChar = word) (hne : word ≠ []) :
    wordBehind (gap ++ v) = (some word, gap.length + word.length) := by
  have hblanks : (gap ++ v).takeWhile isBlank = gap := by
    cases v with
    | nil => exact absurd hword.symm hne
    | cons c v => exact takeWhile_isBlank v hgap (hv c rfl)
  simp only [wordBehind, hblanks, List.drop_left, hword]
  rw [if_neg (by simpa using hne)]

theorem isBlank_of_isUnitChar {c : Char} (h : isUnitChar c = true) : isBlank c = false := by
  simp only [isUnitChar, Bool.not_eq_true', Bool.or_eq_false_iff] at h
  exact h.1.1.1

theorem wordBehind_le_length (v : List Char) : (wordBehind v).2 ≤ v.length := by
  have hblanks := (List.takeWhile_sublist (l := v) isBlank).length_le
  have hword := (List.takeWhile_sublist (l := v.drop (v.takeWhile isBlank).length)
    isUnitChar).length_le
  rw [List.length_drop] at hword
  simp only [wordBehind]
  split
  · exact Nat.zero_le _
  · dsimp only
    omega

/-- A mention begins with a numeral, and the word behind it is its unit text. -/
theorem exists_of_mention {text : List Char} {m : Mention} {k : Nat}
    (h : mention before text = some (m, k)) : ∃ n, (numeralsAt before text).head? = some (m.isSpelled, n) ∧
      m.numeral = text.take n ∧ m.unitText = (wordBehind (text.drop n)).1 ∧
      k = n + (wordBehind (text.drop n)).2 := by
  rw [mention_eq, Option.map_eq_some_iff] at h
  obtain ⟨⟨spelled, n⟩, hhead, heq⟩ := h
  obtain ⟨rfl, rfl⟩ := Prod.mk.inj heq
  exact ⟨n, hhead, rfl, rfl, rfl⟩

theorem isBounded_mention : mention.IsBounded := by
  intro before text m n h
  rw [mention_eq, Option.map_eq_some_iff] at h
  obtain ⟨⟨spelled, k⟩, hhead, heq⟩ := h
  obtain ⟨-, rfl⟩ := Prod.mk.inj heq
  have hmem := List.mem_of_head? hhead
  obtain ⟨hpos, hle⟩ := within_of_mem_numeralsAt hmem
  have hword := wordBehind_le_length (text.drop k)
  rw [List.length_drop] at hword
  omega

/-! ## Percentages -/

/-- The words of a percentage that stand between boundaries. -/
def percentWords : List String := ["percent", "per cent", "fisad"]

theorem isPercentAt_eq (before : Option Char) (text : List Char) : isPercentAt before text =
    (text.head? = some '%' || percentWords.any (isWordAt before text ·.toList) ||
      startsWithLetters "فیصد".toList text) := rfl

theorem isPercentAt_nil : isPercentAt before [] = false := by
  have hnot : ∀ w ∈ percentWords, startsWithLetters w.toList [] = false := by decide
  have hwords : percentWords.any (isWordAt before [] ·.toList) = false := by
    refine List.any_eq_false.mpr fun w hw => ?_
    simp [isWordAt, hnot w hw]
  rw [isPercentAt_eq, hwords]
  rfl

/-- Whether a percent sign or word stands behind a numeral that ends in `last`. -/
def isPercentBehind (last : Option Char) (behind : List Char) : Bool :=
  let blanks := behind.takeWhile isBlank
  isPercentAt (blanks.getLast?.or last) (behind.drop blanks.length)

theorem percentMention_eq (before : Option Char) (text : List Char) : percentMention before text =
    ((numeralsAt before text).find? fun numeral =>
      isPercentBehind text[numeral.2 - 1]? (text.drop numeral.2)).map fun numeral =>
        (⟨text.take numeral.2, numeral.1, none⟩, numeral.2) := rfl

theorem isBounded_percentMention : percentMention.IsBounded := by
  intro before text m n h
  rw [percentMention_eq, Option.map_eq_some_iff] at h
  obtain ⟨numeral, hnumeral, heq⟩ := h
  obtain ⟨-, rfl⟩ := Prod.mk.inj heq
  have hmem := List.mem_of_find?_eq_some hnumeral
  exact within_of_mem_numeralsAt hmem

end Mention

namespace Quantity

theorem percentage?_of_values {text : List Char}
    (h : (scan Mention.percentMention text).filterMap Piece.value? = []) : percentage? text = .none := by
  rw [percentage?, ← List.head?_filterMap, h]
  rfl

def reading? (m : Mention) : Option (Mention × Binary64) :=
  m.value?.map fun value => (m, value)

theorem readings_eq (text : List Char) : readings text =
    ((scan Mention.mention text).filterMap Piece.value?).filterMap reading? := by
  rw [readings, List.filterMap_filterMap]
  refine List.filterMap_congr fun piece _ => ?_
  cases piece.value? with
  | none => rfl
  | some m => cases hvalue : m.value? <;> simp [reading?, hvalue]

theorem mem_filterMap_reading? {ms : List Mention} {m : Mention} {x : Binary64} :
    (m, x) ∈ ms.filterMap reading? ↔ m ∈ ms ∧ m.value? = some x := by
  rw [List.mem_filterMap]
  constructor
  · rintro ⟨m', hmem, hread⟩
    obtain ⟨value, hvalue, heq⟩ := Option.map_eq_some_iff.mp hread
    obtain ⟨rfl, rfl⟩ := Prod.mk.inj heq
    exact ⟨hmem, hvalue⟩
  · rintro ⟨hmem, hvalue⟩
    exact ⟨m, hmem, by rw [reading?, hvalue, Option.map_some]⟩

/-- The first numeral with a unit is one of those that have both. -/
theorem exists_of_measured {l : List (Mention × Binary64)} {q : Quantity} (h : measured? l = some q) :
    ∃ m x u, (m, x) ∈ l ∧ m.unit? = some u ∧ q = ⟨some x, some u⟩ := by
  obtain ⟨⟨m, x⟩, hmem, hq⟩ := List.exists_of_findSome?_eq_some h
  obtain ⟨u, hunit, rfl⟩ := Option.map_eq_some_iff.mp hq
  exact ⟨m, x, u, hmem, hunit, rfl⟩

theorem measured?_append (l l' : List (Mention × Binary64)) :
    measured? (l ++ l') = (measured? l).or (measured? l') :=
  List.findSome?_append

theorem measured?_cons {m : Mention} {u : Measure} (h : m.unit? = some u) (x : Binary64)
    (l : List (Mention × Binary64)) : measured? ((m, x) :: l) = some ⟨some x, some u⟩ := by
  rw [measured?, List.findSome?_cons]
  dsimp only
  rw [h]
  rfl

theorem extract_eq (text : String) : extract text = (percentage? text.toList).getD
    ((measured? (readings text.toList)).getD (bare (readings text.toList))) := rfl

end Quantity

end Teleop
