import Teleop.Proofs.Quantity.Mention
import Teleop.Proofs.Text.Spelling

/-!
# Number words in a text

A number word is written by letters alone (`exists_of_value?`). Where a word of letters stands between
boundaries, the number words that are tried there are the whole of it or do not count, so a number word is
read as it stands unless one of the ones follows it (`head?_spelledLengths`).
-/

namespace Teleop

open Text
open Lexicon (isTableLetter)

namespace NumberWord

variable {word : List Char} {n : Nat} {w : String}

def spellings : List String :=
  (ones ++ tens ++ urdu).map Prod.fst

theorem isTableLetter_of_mem_spellings (hw : w ∈ spellings) : ∀ l ∈ w.toList, isTableLetter l = true := by
  have hall : spellings.all (·.toList.all isTableLetter) = true := by decide
  exact List.all_eq_true.mp (List.all_eq_true.mp hall w hw)

theorem getLast?_of_mem_spellings (hw : w ∈ spellings) : w.toList.getLast? ≠ some 'i' := by
  have hall : spellings.all (·.toList.getLast? != some 'i') = true := by decide
  simpa using List.all_eq_true.mp hall w hw

theorem toList_ne_nil_of_mem_spellings (hw : w ∈ spellings) : w.toList ≠ [] := by
  have hall : spellings.all (!·.toList.isEmpty) = true := by decide
  simpa using List.all_eq_true.mp hall w hw

theorem mem_insertByLength {e f : String × Nat} {table : List (String × Nat)} :
    e ∈ insertByLength f table ↔ e = f ∨ e ∈ table := by
  induction table with
  | nil => exact List.mem_cons
  | cons g table ih =>
    rw [insertByLength]
    split
    · rw [List.mem_cons, ih, List.mem_cons]
      exact or_left_comm
    · exact List.mem_cons

theorem mem_urduByLength {e : String × Nat} : e ∈ urduByLength ↔ e ∈ urdu := by
  have hinserted (table : List (String × Nat)) : e ∈ table.foldr insertByLength [] ↔ e ∈ table := by
    induction table with
    | nil => exact Iff.rfl
    | cons f table ih => rw [List.foldr_cons, mem_insertByLength, ih, List.mem_cons]
  exact hinserted urdu

theorem mem_spellings_of_mem {e : String × Nat} {table : List (String × Nat)}
    (ht : table ∈ [ones, tens, urduByLength]) (he : e ∈ table) : e.1 ∈ spellings := by
  refine List.mem_map_of_mem ?_
  simp only [List.mem_cons, List.not_mem_nil, or_false] at ht
  rcases ht with rfl | rfl | rfl
  · exact List.mem_append_left _ (List.mem_append_left _ he)
  · exact List.mem_append_left _ (List.mem_append_right _ he)
  · exact List.mem_append_right _ (mem_urduByLength.mp he)

/-- What is read as a number word is written by the letters of one. -/
theorem exists_of_value? (h : value? word = some n) : ∃ e ∈ ones ++ tens ++ urdu,
    e.1.length = word.length ∧ ∀ rest, startsWithLetters e.1.toList (word ++ rest) = true := by
  obtain ⟨before, after, hsplit, -⟩ := List.lookup_eq_some_iff.mp h
  have he : (String.ofList (lower word), n) ∈ ones ++ tens ++ urdu := by
    rw [hsplit]
    exact List.mem_append_right _ List.mem_cons_self
  have hw : String.ofList (lower word) ∈ spellings := List.mem_map_of_mem he
  have hwritten := IsWritten.of_lower (isUnmarked_of_isTableLetter (isTableLetter_of_mem_spellings hw))
    (String.toList_ofList).symm
  refine ⟨_, he, ?_, fun rest => hwritten.startsWithLetters List.prefix_rfl (getLast?_of_mem_spellings hw)⟩
  rw [← String.length_toList, ← hwritten.length_eq]

theorem letters_of_value? (h : value? word = some n) :
    word ≠ [] ∧ ∀ c ∈ word, isLetterForm c = true ∧ isWordChar c = true := by
  obtain ⟨e, he, hlength, hstarts⟩ := exists_of_value? h
  have hw : e.1 ∈ spellings := List.mem_map_of_mem he
  have hthere := hstarts []
  rw [List.append_nil] at hthere
  refine ⟨?_, fun c hc => ?_⟩
  · rintro rfl
    rw [List.length_nil, ← String.length_toList] at hlength
    exact toList_ne_nil_of_mem_spellings hw (List.length_eq_zero_iff.mp hlength)
  · obtain ⟨k, hk, rfl⟩ := List.mem_iff_getElem.mp hc
    rw [← hlength, ← String.length_toList] at hk
    obtain ⟨c, hat, hc⟩ := exists_letter (isTableLetter_of_mem_spellings hw) hthere hk
    obtain ⟨_, rfl⟩ := List.getElem?_eq_some_iff.mp hat
    exact hc

end NumberWord

namespace Mention

variable {text x y : List Char} {table : List (String × Nat)} {n : Nat}

theorem isJoint_of_isLetterForm {c : Char} (h : isLetterForm c = true) : isJoint c = false := by
  have hdash : c ≠ '-' := ne_of_isLetterForm h (by decide)
  simp [isJoint, isBlank_of_isLetterForm h, hdash]

theorem isUnitChar_of_isLetterForm {c : Char} (h : isLetterForm c = true) : isUnitChar c = true := by
  have hne (sign : Char) (hsign : sign.toNat ≤ 0x40) : c ≠ sign := ne_of_isLetterForm h hsign
  simp [isUnitChar, isBlank_of_isLetterForm h, isDecimalDigit_of_isLetterForm h, hne]

theorem mem_wordLengths : n ∈ wordLengths table text ↔
    ∃ e ∈ table, startsWithLetters e.1.toList text = true ∧ e.1.length = n := by
  simp [wordLengths, List.mem_filterMap]

/-- A word between boundaries does not end inside a longer word. -/
theorem eq_of_boundaryBehind (hx : ∀ c ∈ x, isWordChar c = true) (hpos : 0 < n) (hle : n ≤ x.length)
    (h : boundaryBehind (x ++ y) n = true) : n = x.length := by
  refine Nat.le_antisymm hle (Nat.le_of_not_lt fun hlt => ?_)
  have hword (k : Nat) (hk : k < x.length) : (x ++ y)[k]?.any isWordChar = true := by
    rw [List.getElem?_append_left hk, List.getElem?_eq_getElem hk, Option.any_some]
    exact hx _ (List.getElem_mem hk)
  rw [boundaryBehind, isBoundary, hword _ hlt, hword _ (by omega)] at h
  exact Bool.noConfusion h

theorem boundaryBehind_of_stop (hne : x ≠ []) (hx : ∀ c ∈ x, isWordChar c = true)
    (hy : ∀ c ∈ y.head?, isWordChar c = false) : boundaryBehind (x ++ y) x.length = true := by
  rw [boundaryBehind_append hne, isBoundary, List.getLast?_eq_some_getLast hne, Option.any_some,
    hx _ (List.getLast_mem hne)]
  cases hhead : y.head? with
  | none => rfl
  | some c => rw [Option.any_some, hy c hhead]; rfl

theorem head?_filter {l : List Nat} {p : Nat → Bool} (hall : ∀ k ∈ l, p k = true → k = n)
    (hn : n ∈ l) (hp : p n = true) : (l.filter p).head? = some n := by
  cases hfilter : l.filter p with
  | nil => exact absurd hp (List.filter_eq_nil_iff.mp hfilter n hn)
  | cons k rest =>
    have hk : k ∈ l.filter p := hfilter ▸ List.mem_cons_self
    rw [List.head?_cons, hall k (List.mem_filter.mp hk).1 (List.mem_filter.mp hk).2]

structure IsLetters (x y : List Char) : Prop where
  ne_nil : x ≠ []
  letters : ∀ c ∈ x, isLetterForm c = true ∧ isWordChar c = true
  stop : ∀ c ∈ y.head?, isLetterForm c = false ∧ isWordChar c = false

namespace IsLetters

variable {before : Option Char}

theorem length_le (h : IsLetters x y) {w : String} (hw : w ∈ NumberWord.spellings)
    (hstarts : startsWithLetters w.toList (x ++ y) = true) : w.length ≤ x.length := by
  rw [← String.length_toList]
  exact length_le_of_stop (NumberWord.isTableLetter_of_mem_spellings hw) (fun c hc => (h.stop c hc).1) hstarts

/-- A word of a table between boundaries is the whole word. -/
theorem eq_of_mem_wordLengths (h : IsLetters x y) (ht : table ∈ [NumberWord.ones, NumberWord.tens,
    NumberWord.urduByLength]) (hn : n ∈ wordLengths table (x ++ y))
    (hboundary : boundaryBehind (x ++ y) n = true) : n = x.length := by
  have hpos := (within_of_mem_wordLengths ht hn).1
  obtain ⟨e, he, hstarts, rfl⟩ := mem_wordLengths.mp hn
  exact eq_of_boundaryBehind (fun c hc => (h.letters c hc).2) hpos
    (h.length_le (NumberWord.mem_spellings_of_mem ht he) hstarts) hboundary

/-- So is a compound, if none of the ones stands behind the joint. -/
theorem eq_of_mem_compoundLengths (h : IsLetters x y)
    (hones : wordLengths NumberWord.ones (y.drop (y.takeWhile isJoint).length) = [])
    (hn : n ∈ compoundLengths (x ++ y)) (hboundary : boundaryBehind (x ++ y) n = true) :
    n = x.length := by
  rw [compoundLengths_eq] at hn
  obtain ⟨k, hk, hn⟩ := List.mem_flatMap.mp hn
  have hpos := (within_of_mem_wordLengths (by simp) hk).1
  have hle : k ≤ x.length := by
    obtain ⟨e, he, hstarts, rfl⟩ := mem_wordLengths.mp hk
    exact h.length_le (NumberWord.mem_spellings_of_mem (by simp) he) hstarts
  have halone : compoundsOf (x ++ y) k = [k] := by
    simp only [compoundsOf]
    rw [List.drop_append_of_le_length hle]
    rcases Nat.lt_or_eq_of_le hle with hlt | rfl
    · -- a letter follows, and that is no joint
      have hjoint : isJoint x[k] = false :=
        isJoint_of_isLetterForm (h.letters _ (List.getElem_mem hlt)).1
      rw [List.drop_eq_getElem_cons hlt, List.cons_append, List.takeWhile_cons_of_neg (by simp [hjoint])]
      rfl
    · rw [List.drop_length, List.nil_append, hones, List.map_nil, ite_self, List.nil_append]
  rw [halone, List.mem_singleton] at hn
  subst hn
  exact eq_of_boundaryBehind (fun c hc => (h.letters c hc).2) hpos hle hboundary

/-- A number word is read as it stands, if none of the ones stands behind the joint. -/
theorem head?_spelledLengths (h : IsLetters x y) {value : Nat} (hvalue : NumberWord.value? x = some value)
    (hopens : ∀ c ∈ before, isWordChar c = false)
    (hones : wordLengths NumberWord.ones (y.drop (y.takeWhile isJoint).length) = []) :
    (spelledLengths before (x ++ y)).head? = some x.length := by
  have hboundary : isBoundary before (x ++ y).head? = true := by
    rw [head?_append_of_ne_nil h.ne_nil, List.head?_eq_some_head h.ne_nil, isBoundary, Option.any_some,
      (h.letters _ (List.head_mem h.ne_nil)).2]
    cases before with
    | none => rfl
    | some c => rw [Option.any_some, hopens c rfl]; rfl
  rw [spelledLengths, if_pos hboundary]
  refine head?_filter (fun k hk hb => ?_) ?_ (boundaryBehind_of_stop h.ne_nil
    (fun c hc => (h.letters c hc).2) fun c hc => (h.stop c hc).2)
  · rcases List.mem_append.mp hk with hk | hk
    · rcases List.mem_append.mp hk with hk | hk
      · exact h.eq_of_mem_compoundLengths hones hk hb
      · exact h.eq_of_mem_wordLengths (by simp) hk hb
    · exact h.eq_of_mem_wordLengths (by simp) hk hb
  · obtain ⟨e, he, hlength, hstarts⟩ := NumberWord.exists_of_value? hvalue
    have hin (table : List (String × Nat)) (he : e ∈ table) : x.length ∈ wordLengths table (x ++ y) :=
      mem_wordLengths.mpr ⟨e, he, hstarts y, hlength⟩
    rcases List.mem_append.mp he with he | he
    · rcases List.mem_append.mp he with he | he
      · exact List.mem_append_left _ (List.mem_append_right _ (hin _ he))
      · refine List.mem_append_left _ (List.mem_append_left _ ?_)
        rw [compoundLengths_eq]
        exact List.mem_flatMap.mpr ⟨_, hin _ he, List.mem_append_right _ (List.mem_singleton_self _)⟩
    · exact List.mem_append_right _ (hin _ (NumberWord.mem_urduByLength.mpr he))

end IsLetters

end Mention

end Teleop
