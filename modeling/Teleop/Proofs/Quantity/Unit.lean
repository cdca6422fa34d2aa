import Teleop.Proofs.Quantity.NumberWord
import Teleop.Proofs.Text.Words

/-!
# Units and the words that name them

At most one unit is named by a word (`eq_of_isNamedBy`). What a word is cut off at, where it stands behind
a numeral, does not belong to the name of a unit (`ofText?_takeWhile`), and no number word stands where the
name of a unit does (`not_startsWithLetters_of_ofText?`).
-/

namespace Teleop.Measure

open Text
open Lexicon (isTableLetter)

variable {u v : Measure} {w : List Char} {c : Char}

/-! ## Names -/

theorem mem_all (u : Measure) : u ∈ all := by
  cases u <;> decide

theorem isNamedBy_iff : u.isNamedBy w = true ↔
    (∃ p ∈ u.spellings.1, p.toList <+: w) ∨ ∃ n ∈ u.spellings.2, n.toList = w := by
  simp [isNamedBy]

/-- The spellings of two units begin differently, and none is the beginning of a name of the other. -/
theorem spellings_apart : ∀ u ∈ all, ∀ v ∈ all, u = v ∨
    ((∀ p ∈ u.spellings.1, (∀ q ∈ v.spellings.1, ¬ p.toList <+: q.toList) ∧
        ∀ n ∈ v.spellings.2, ¬ p.toList <+: n.toList) ∧
      ∀ n ∈ u.spellings.2, n ∉ v.spellings.2) := by
  decide

/-- A word names at most one unit. -/
theorem eq_of_isNamedBy (hu : u.isNamedBy w = true) (hv : v.isNamedBy w = true) : u = v := by
  rcases spellings_apart u (mem_all u) v (mem_all v) with heq | ⟨hbegins, hname⟩
  · exact heq
  rcases spellings_apart v (mem_all v) u (mem_all u) with heq | ⟨hbegins', -⟩
  · exact heq.symm
  exfalso
  rcases isNamedBy_iff.mp hu with ⟨p, hp, hpw⟩ | ⟨n, hn, rfl⟩
  · rcases isNamedBy_iff.mp hv with ⟨q, hq, hqw⟩ | ⟨n, hn, rfl⟩
    · rcases List.prefix_or_prefix_of_prefix hpw hqw with h | h
      · exact (hbegins p hp).1 q hq h
      · exact (hbegins' q hq).1 p hp h
    · exact (hbegins p hp).2 n hn hpw
  · rcases isNamedBy_iff.mp hv with ⟨q, hq, hqw⟩ | ⟨m, hm, heq⟩
    · exact (hbegins' q hq).2 n hn hqw
    · exact hname n hn (String.toList_inj.mp heq ▸ hm)

/-- A word without the closing punctuation at its end. -/
def stem (word : List Char) : List Char :=
  (word.reverse.dropWhile isClosing).reverse

theorem exists_closers (word : List Char) :
    ∃ z, word = stem word ++ z ∧ ∀ c ∈ z, isClosing c = true := by
  refine ⟨(word.reverse.takeWhile isClosing).reverse, ?_, fun c hc => ?_⟩
  · rw [stem, ← List.reverse_append, List.takeWhile_append_dropWhile, List.reverse_reverse]
  · exact List.all_eq_true.mp List.all_takeWhile c (List.mem_reverse.mp hc)

/-- Punctuation behind a word reaches up to its last other character. -/
theorem exists_stem_append {a : List Char} (hne : a ≠ []) (ha : ∀ c ∈ a, isClosing c = false)
    (b : List Char) : ∃ s, stem (a ++ b) = a ++ s := by
  obtain ⟨d, a', hreverse⟩ := List.exists_cons_of_ne_nil (List.reverse_ne_nil_iff.mpr hne)
  have hd : isClosing d = false := ha d (List.mem_reverse.mp (hreverse ▸ List.mem_cons_self))
  refine ⟨(b.reverse.dropWhile isClosing).reverse, ?_⟩
  rw [stem, List.reverse_append, List.dropWhile_append]
  split
  · rename_i hempty
    rw [List.isEmpty_iff.mp hempty, hreverse, List.dropWhile_cons_of_neg (by simp [hd]), ← hreverse,
      List.reverse_reverse, List.reverse_nil, List.append_nil]
  · rw [List.reverse_append, List.reverse_reverse]

theorem ofText?_eq (hw : ∀ c ∈ w, isBlank c = false) :
    ofText? w = readingOrder.find? (·.isNamedBy (lower (stem w))) := by
  have htrim : trim w = w :=
    trim_eq_self (fun c hc => hw c (List.mem_of_head? hc)) fun c hc => hw c (List.mem_of_getLast? hc)
  rw [ofText?, htrim, stem]

theorem ofText?_eq_some_iff (hw : ∀ c ∈ w, isBlank c = false) :
    ofText? w = some u ↔ u.isNamedBy (lower (stem w)) = true := by
  rw [ofText?_eq hw]
  refine ⟨fun h => by simpa using List.find?_some h, fun h => ?_⟩
  cases hfind : readingOrder.find? (·.isNamedBy (lower (stem w))) with
  | none =>
    have hmem : u ∈ readingOrder := by cases u <;> decide
    exact absurd h (List.find?_eq_none.mp hfind u hmem)
  | some v =>
    have hv : v.isNamedBy (lower (stem w)) = true := by simpa using List.find?_some hfind
    rw [eq_of_isNamedBy h hv]

/-! ## Characters -/

/-- Letters of tables and the signs for percent and degrees. -/
def isUnitLetter (l : Char) : Bool :=
  isTableLetter l || l = '%' || l = '°'

theorem isUnitLetter_of_spelling : ∀ u ∈ all, ∀ p ∈ u.spellings.1 ++ u.spellings.2,
    p.toList ≠ [] ∧ p.toList.all isUnitLetter = true := by
  decide

def isUnitForm (c : Char) : Bool :=
  isLetterForm c || c = '%' || c = '°' || c = 'İ'

set_option maxRecDepth 20000 in
/-- No letter has the degree sign for its lower-case form. -/
theorem runs_skip_degree : (lowercaseRuns.all fun r =>
    Nat.blt 0xB0 r.2.2.2 || Nat.blt (r.2.2.2 + (r.2.1 - r.1)) 0xB0) = true := by
  rfl

theorem eq_of_simpleLower_degree (h : simpleLower c = '°') : c = '°' := by
  rcases shiftInRuns_cases lowercaseRuns c.toNat with hfix | ⟨r, hr, ⟨hlow, hhigh, -⟩, himage⟩
  · rwa [simpleLower, hfix, Char.ofNat_toNat] at h
  · have hrun := List.all_eq_true.mp runs_skip_degree r hr
    simp only [Bool.or_eq_true, Nat.blt_eq] at hrun
    have hcode : (simpleLower c).toNat = 0xB0 := congrArg Char.toNat h
    rw [toNat_simpleLower] at hcode
    omega

theorem isUnitForm_of_isWritten {p a : List Char} (h : IsWritten p a)
    (hp : p.all isUnitLetter = true) (hc : c ∈ a) : isUnitForm c = true := by
  rcases h.mem hc with ⟨hdotted, hmem⟩ | rfl
  · have hletter := List.all_eq_true.mp hp _ hmem
    simp only [isUnitLetter, Bool.or_eq_true, decide_eq_true_eq] at hletter
    rcases hletter with (hl | hl) | hl
    · have hform := (isLetterForm_of_sameLetter hl (sameLetter_simpleLower hdotted)).1
      simp [isUnitForm, hform]
    · have hsmall : (simpleLower c).toNat < 0x61 := by rw [hl]; decide
      rw [simpleLower_eq_of_small hsmall] at hl
      simp [isUnitForm, hl]
    · simp [isUnitForm, eq_of_simpleLower_degree hl]
  · decide

/-- Nothing that parts words or numbers or closes a sentence is in the name of a unit. -/
theorem facts_of_isUnitForm (h : isUnitForm c = true) :
    Mention.isUnitChar c = true ∧ isClosing c = false ∧ Mention.isJoint c = false := by
  simp only [isUnitForm, Bool.or_eq_true, decide_eq_true_eq] at h
  rcases h with ((h | rfl) | rfl) | rfl
  · have hne (sign : Char) (hsign : sign.toNat ≤ 0x40) : c ≠ sign := ne_of_isLetterForm h hsign
    refine ⟨Mention.isUnitChar_of_isLetterForm h, ?_, Mention.isJoint_of_isLetterForm h⟩
    simp [isClosing, hne]
  all_goals decide

/-! ## Words as they are written -/

/-- The spelling of a unit as it stands at the head of a word: the beginning of a longer word, or a name
with nothing but closing punctuation behind it. -/
inductive IsWrittenAs (u : Measure) (w : List Char) : Prop
  | beginning {p : String} {a b : List Char} (spelling : p ∈ u.spellings.1) (word : w = a ++ b)
      (written : IsWritten p.toList a) : IsWrittenAs u w
  | name {n : String} {a z : List Char} (spelling : n ∈ u.spellings.2) (word : w = a ++ z)
      (written : IsWritten n.toList a) (closers : ∀ c ∈ z, isClosing c = true) : IsWrittenAs u w

theorem isUnmarked_of_isUnitLetter {p : List Char} (hp : p.all isUnitLetter = true) : IsUnmarked p := by
  intro l hl
  have hletter := List.all_eq_true.mp hp l hl
  refine ⟨?_, ?_, ?_⟩ <;>
  · rintro rfl
    exact absurd hletter (by decide)

theorem isWrittenAs_of_ofText? (hw : ∀ c ∈ w, isBlank c = false) (h : ofText? w = some u) :
    IsWrittenAs u w := by
  have hletters (p : String) (hp : p ∈ u.spellings.1 ++ u.spellings.2) :
      p.toList.all isUnitLetter = true := (isUnitLetter_of_spelling u (mem_all u) p hp).2
  obtain ⟨z, hsplit, hclosers⟩ := exists_closers w
  rcases isNamedBy_iff.mp ((ofText?_eq_some_iff hw).mp h) with ⟨p, hp, hbegins⟩ | ⟨n, hn, hname⟩
  · have hunmarked := isUnmarked_of_isUnitLetter (hletters p (List.mem_append_left _ hp))
    obtain ⟨a, b, hstem, ha⟩ := exists_of_prefix_lowerFrom hunmarked hbegins
    exact .beginning hp (by rw [hsplit, hstem, List.append_assoc]) ha
  · have hunmarked := isUnmarked_of_isUnitLetter (hletters n (List.mem_append_right _ hn))
    exact .name hn hsplit (IsWritten.of_lower hunmarked hname.symm) hclosers

theorem exists_head_of_ofText? (hw : ∀ c ∈ w, isBlank c = false) (h : ofText? w = some u) :
    ∃ c rest, w = c :: rest ∧ isUnitForm c = true := by
  have hhead {p a b : List Char} (hp : p ≠ [] ∧ p.all isUnitLetter = true) (ha : IsWritten p a) :
      ∃ c rest, a ++ b = c :: rest ∧ isUnitForm c = true := by
    cases a with
    | nil => exact absurd (List.length_eq_zero_iff.mp ha.length_eq.symm) hp.1
    | cons c a => exact ⟨c, a ++ b, rfl, isUnitForm_of_isWritten ha hp.2 List.mem_cons_self⟩
  rcases isWrittenAs_of_ofText? hw h with ⟨hp, rfl, ha⟩ | ⟨hn, rfl, ha, -⟩
  · exact hhead (isUnitLetter_of_spelling u (mem_all u) _ (List.mem_append_left _ hp)) ha
  · exact hhead (isUnitLetter_of_spelling u (mem_all u) _ (List.mem_append_right _ hn)) ha

theorem takeWhile_append_of_isUnitForm {a : List Char} (ha : ∀ c ∈ a, isUnitForm c = true)
    (b : List Char) : (a ++ b).takeWhile Mention.isUnitChar = a ++ b.takeWhile Mention.isUnitChar :=
  List.takeWhile_append_of_pos fun c hc => (facts_of_isUnitForm (ha c hc)).1

/-- A word keeps its unit where it is cut at the first character that cannot follow a numeral. -/
theorem ofText?_takeWhile (hw : ∀ c ∈ w, isBlank c = false) (h : ofText? w = some u) :
    ofText? (w.takeWhile Mention.isUnitChar) = some u := by
  have hcut : ∀ c ∈ w.takeWhile Mention.isUnitChar, isBlank c = false :=
    fun c hc => hw c ((List.takeWhile_sublist _).subset hc)
  rcases isWrittenAs_of_ofText? hw h with ⟨hp, rfl, ha⟩ | ⟨hn, rfl, ha, hz⟩
  · rename_i p a b
    obtain ⟨hne, hletters⟩ := isUnitLetter_of_spelling u (mem_all u) p (List.mem_append_left _ hp)
    have hform : ∀ c ∈ a, isUnitForm c = true := fun c hc => isUnitForm_of_isWritten ha hletters hc
    have hne' : a ≠ [] := by
      rintro rfl
      exact hne (List.length_eq_zero_iff.mp ha.length_eq.symm)
    obtain ⟨s, hs⟩ := exists_stem_append hne' (fun c hc => (facts_of_isUnitForm (hform c hc)).2.1)
      (b.takeWhile Mention.isUnitChar)
    rw [ofText?_eq_some_iff hcut, takeWhile_append_of_isUnitForm hform, hs]
    exact isNamedBy_iff.mpr (Or.inl ⟨p, hp, ha.prefix_lowerFrom false⟩)
  · rename_i n a z
    have hletters := (isUnitLetter_of_spelling u (mem_all u) n (List.mem_append_right _ hn)).2
    have hclosing (c : Char) (hc : isClosing c = true) : Mention.isUnitChar c = true := by
      simp only [isClosing, Bool.or_eq_true, decide_eq_true_eq] at hc
      rcases hc with ((rfl | rfl) | rfl) | rfl <;> decide
    have hwhole : (a ++ z).takeWhile Mention.isUnitChar = a ++ z := by
      rw [takeWhile_append_of_isUnitForm fun c hc => isUnitForm_of_isWritten ha hletters hc,
        Numeric.takeWhile_all fun c hc => hclosing c (hz c hc)]
    rwa [hwhole]

/-! ## Number words -/

set_option maxRecDepth 20000 in
/-- The first three letters of each spelling, which end in no `i`, and the names part the units from the
number words. -/
theorem numberWords_apart : ∀ u ∈ all, ∀ e ∈ NumberWord.spellings,
    (∀ p ∈ u.spellings.1, ¬ (p.toList.take 3) <+: e.toList ∧ ¬ e.toList <+: p.toList.take 3) ∧
      ∀ n ∈ u.spellings.2, ¬ e.toList <+: n.toList := by
  decide

theorem spellings_checked : ∀ u ∈ all,
    (∀ p ∈ u.spellings.1, isPlain (p.toList.take 3) = true ∧ (p.toList.take 3).getLast? ≠ some 'i') ∧
      ∀ n ∈ u.spellings.2, isPlain n.toList = true ∧ n.toList.getLast? ≠ some 'i' := by
  decide

/-- No number word stands where a word stands that names a unit. -/
theorem not_startsWithLetters_of_ofText? (hw : ∀ c ∈ w, isBlank c = false) (h : ofText? w = some u)
    {rest : List Char} (hrest : BeginsOpen rest) {e : String} (he : e ∈ NumberWord.spellings) :
    startsWithLetters e.toList (w ++ rest) = false := by
  have hletters := NumberWord.isTableLetter_of_mem_spellings he
  have hplain := isPlain_of_isTableLetter hletters
  obtain ⟨hbeginnings, hnames⟩ := numberWords_apart u (mem_all u) e he
  obtain ⟨hpchecked, hnchecked⟩ := spellings_checked u (mem_all u)
  refine Bool.eq_false_iff.mpr fun hstarts => ?_
  rcases isWrittenAs_of_ofText? hw h with ⟨hp, rfl, ha⟩ | ⟨hn, rfl, ha, hz⟩
  · rename_i p a b
    have hthere : startsWithLetters (p.toList.take 3) (a ++ b ++ rest) = true := by
      rw [List.append_assoc]
      exact ha.startsWithLetters (List.take_prefix _ _) (hpchecked p hp).2
    rcases Nat.le_total (p.toList.take 3).length e.toList.length with hle | hle
    · exact (hbeginnings p hp).1
        (prefix_of_startsWithLetters (hpchecked p hp).1 hplain hle hthere hstarts)
    · exact (hbeginnings p hp).2
        (prefix_of_startsWithLetters hplain (hpchecked p hp).1 hle hstarts hthere)
  · rename_i n a z
    rw [List.append_assoc] at hstarts
    have hthere : startsWithLetters n.toList (a ++ (z ++ rest)) = true :=
      ha.startsWithLetters List.prefix_rfl (hnchecked n hn).2
    have hstop : ∀ c ∈ (z ++ rest).head?, isLetterForm c = false := by
      intro c hc
      cases z with
      | nil =>
        have hblank := hrest c hc
        cases hform : isLetterForm c with
        | false => rfl
        | true => rw [isBlank_of_isLetterForm hform] at hblank; exact Bool.noConfusion hblank
      | cons d z =>
        obtain rfl : d = c := by simpa using hc
        have hd := hz d List.mem_cons_self
        simp only [isClosing, Bool.or_eq_true, decide_eq_true_eq] at hd
        rcases hd with ((rfl | rfl) | rfl) | rfl <;> decide
    have hle := length_le_of_stop hletters hstop hstarts
    rw [ha.length_eq] at hle
    exact hnames n hn (prefix_of_startsWithLetters hplain (hnchecked n hn).1 hle hstarts hthere)

/-- A number word names no unit. -/
theorem ofText?_of_value? {n : Nat} (h : NumberWord.value? w = some n) : ofText? w = none := by
  obtain ⟨-, hletters⟩ := NumberWord.letters_of_value? h
  obtain ⟨e, he, -, hstarts⟩ := NumberWord.exists_of_value? h
  cases hunit : ofText? w with
  | none => rfl
  | some u =>
    have hnot := not_startsWithLetters_of_ofText? (fun c hc => isBlank_of_isLetterForm (hletters c hc).1)
      hunit beginsOpen_nil (List.mem_map_of_mem he)
    rw [hstarts []] at hnot
    exact Bool.noConfusion hnot

end Teleop.Measure
