import Teleop.Proofs.Text.CaseFold
import Teleop.Text.Scan

/-!
# Patterns that stand between word boundaries

`Stands` unfolds the test that all patterns of the library share: the letters agree up to case and a
boundary lies on each side. A second block of characters that such an occurrence overlaps agrees with
the pattern on the overlap, and this leaves few placements; `fits` computes them, so that tables of
patterns are compared by evaluation. `fits` may hold where no text has the overlap.
-/

namespace Teleop.Text

/-- The pattern `w` stands at the place of `m`, behind the character `before` and ahead of `q`. -/
structure Stands (w : List Char) (before : Option Char) (m q : List Char) : Prop where
  ne_nil : w ≠ []
  length_eq : m.length = w.length
  letters : ∀ (k : Nat) (l c : Char), w[k]? = some l → m[k]? = some c → sameLetter l c = true
  opens : isBoundary before m.head? = true
  closes : isBoundary m.getLast? q.head? = true

theorem startsWithLetters_iff {w text : List Char} :
    startsWithLetters w text = true ↔
      ∃ m q, text = m ++ q ∧ m.length = w.length ∧
        ∀ (k : Nat) (l c : Char), w[k]? = some l → m[k]? = some c → sameLetter l c = true := by
  induction w generalizing text with
  | nil => exact ⟨fun _ => ⟨[], text, rfl, rfl, by simp⟩, fun _ => by simp [startsWithLetters]⟩
  | cons l w ih =>
    cases text with
    | nil =>
      simp only [startsWithLetters, Bool.false_eq_true, List.nil_eq, List.append_eq_nil_iff,
        false_iff, not_exists]
      rintro m q ⟨⟨rfl, rfl⟩, hlength, -⟩
      simp at hlength
    | cons c text =>
      rw [startsWithLetters, Bool.and_eq_true, ih]
      constructor
      · rintro ⟨hc, m, q, rfl, hlength, hm⟩
        refine ⟨c :: m, q, rfl, by simp [hlength], ?_⟩
        intro k l' c' hl' hc'
        cases k with
        | zero =>
          simp only [List.getElem?_cons_zero, Option.some.injEq] at hl' hc'
          rwa [← hl', ← hc']
        | succ k => exact hm k l' c' (by simpa using hl') (by simpa using hc')
      · rintro ⟨m, q, htext, hlength, hm⟩
        cases m with
        | nil => simp at hlength
        | cons d m =>
          obtain ⟨rfl, rfl⟩ := List.cons.inj htext
          refine ⟨hm 0 l c rfl rfl, m, q, rfl, by simpa using hlength, ?_⟩
          intro k l' c' hl' hc'
          exact hm (k + 1) l' c' (by simpa using hl') (by simpa using hc')

theorem startsWithLetters_length_le {w text : List Char} (h : startsWithLetters w text = true) :
    w.length ≤ text.length := by
  obtain ⟨m, q, rfl, hlength, -⟩ := startsWithLetters_iff.mp h
  rw [List.length_append]
  omega

theorem boundaryBehind_append {m q : List Char} (hm : m ≠ []) :
    boundaryBehind (m ++ q) m.length = isBoundary m.getLast? q.head? := by
  have hpos : 0 < m.length := List.length_pos_iff.mpr hm
  rw [boundaryBehind, List.getElem?_append_left (by omega),
    List.getElem?_append_right (Nat.le_refl _), Nat.sub_self, List.getLast?_eq_getElem?,
    List.head?_eq_getElem?]

theorem boundaryBehind_append_left {n : Nat} (hn : 0 < n) (m q : List Char) :
    boundaryBehind (m ++ q) (m.length + n) = boundaryBehind q n := by
  rw [boundaryBehind, boundaryBehind, List.getElem?_append_right (by omega),
    List.getElem?_append_right (by omega)]
  congr 2 <;> omega

theorem head?_append_of_ne_nil {m : List Char} (hm : m ≠ []) (q : List Char) :
    (m ++ q).head? = m.head? := by
  rw [List.head?_append, List.head?_eq_some_head hm, Option.some_or]

theorem isWordAt_iff {w : List Char} (hw : w ≠ []) {before : Option Char} {text : List Char} :
    isWordAt before text w = true ↔ ∃ m q, text = m ++ q ∧ Stands w before m q := by
  rw [isWordAt, Bool.and_eq_true, Bool.and_eq_true, startsWithLetters_iff]
  constructor
  · rintro ⟨⟨hopens, m, q, rfl, hlength, hletters⟩, hcloses⟩
    have hm : m ≠ [] := by
      rw [← List.length_pos_iff] at hw ⊢
      omega
    rw [← hlength, boundaryBehind_append hm] at hcloses
    rw [head?_append_of_ne_nil hm] at hopens
    exact ⟨m, q, rfl, hw, hlength, hletters, hopens, hcloses⟩
  · rintro ⟨m, q, rfl, h⟩
    have hm : m ≠ [] := by
      have := h.length_eq
      rw [← List.length_pos_iff] at hw ⊢
      omega
    refine ⟨⟨?_, m, q, rfl, h.length_eq, h.letters⟩, ?_⟩
    · rw [head?_append_of_ne_nil hm]
      exact h.opens
    · rw [← h.length_eq, boundaryBehind_append hm]
      exact h.closes

/-! ## Patterns read letter by letter -/

/-- Whether some letters read on along a text up to a boundary, behind a character that is part of a word
or is not. -/
def readsOn : Bool → List Char → List Char → Bool
  | inWord, [], text => inWord != text.head?.any isWordChar
  | _, _ :: _, [] => false
  | _, a :: letters, c :: text => sameLetter a c && readsOn (isWordChar c) letters text

theorem startsWithLetters_of_readsOn {inWord : Bool} {letters text : List Char}
    (h : readsOn inWord letters text = true) : startsWithLetters letters text = true := by
  induction letters generalizing inWord text with
  | nil => rfl
  | cons a letters ih =>
    cases text with
    | nil => simp [readsOn] at h
    | cons c text =>
      rw [readsOn, Bool.and_eq_true] at h
      rw [startsWithLetters, h.1, ih h.2]
      rfl

theorem readsOn_cons (inWord : Bool) (a : Char) (letters text : List Char) :
    readsOn inWord (a :: letters) text =
      (startsWithLetters (a :: letters) text && boundaryBehind text (letters.length + 1)) := by
  induction letters generalizing inWord a text with
  | nil =>
    cases text with
    | nil => simp [readsOn, startsWithLetters]
    | cons c text =>
      simp [readsOn, startsWithLetters, boundaryBehind, isBoundary, List.head?_eq_getElem?]
  | cons b letters ih =>
    cases text with
    | nil => simp [readsOn, startsWithLetters]
    | cons c text =>
      have hbehind : boundaryBehind (c :: text) (letters.length + 1 + 1) =
          boundaryBehind text (letters.length + 1) := by simp [boundaryBehind]
      rw [readsOn, ih, startsWithLetters, List.length_cons, hbehind, Bool.and_assoc]

/-- A pattern stands where a boundary opens and its letters read on up to the next one. -/
theorem isWordAt_eq {letters : List Char} (h : letters ≠ []) (before : Option Char)
    (text : List Char) : isWordAt before text letters =
      (isBoundary before text.head? && readsOn (before.any isWordChar) letters text) := by
  obtain ⟨a, letters, rfl⟩ := List.exists_cons_of_ne_nil h
  rw [readsOn_cons, isWordAt, Bool.and_assoc, List.length_cons]

theorem zip_of_startsWithLetters {w word rest : List Char}
    (h : startsWithLetters w (word ++ rest) = true) :
    (w.zip word).all (fun p => sameLetter p.1 p.2) = true := by
  induction w generalizing word with
  | nil => rfl
  | cons a w ih =>
    cases word with
    | nil => rfl
    | cons c word =>
      rw [List.cons_append, startsWithLetters, Bool.and_eq_true] at h
      rw [List.zip_cons_cons, List.all_cons, h.1, ih h.2]
      rfl

set_option maxRecDepth 20000 in
/-- A variant of a letter is a letter of words, and so is what it is a variant of. -/
theorem letterVariants_inWord :
    letterVariants.all (fun p => isWordChar p.1 && isWordChar p.2) = true := by
  rfl

/-- What stands for a plain letter in a lower-case text is part of a word exactly if the letter is. -/
theorem isWordChar_of_sameLetter {a c : Char} (ha : fold a = a) (hc : simpleLower c = c)
    (h : sameLetter a c = true) : isWordChar a = isWordChar c := by
  rcases sameLetter_iff.mp h with rfl | h
  · rfl
  · rw [ha] at h
    rcases fold_cases c with hfold | hvariant
    · rw [h, hfold, hc]
    · rw [← h, hc] at hvariant
      have hwords := List.all_eq_true.mp letterVariants_inWord _ hvariant
      rw [Bool.and_eq_true] at hwords
      rw [hwords.1, hwords.2]

/-! ## Patterns over a block -/

/-- Whether the pattern `w` may overlap the block `x` with its place `j` on the place `i` of the block,
where the character before the block is neither letter nor number. The letters are compared as they
are. -/
def fits (x w : List Char) (i j : Nat) : Bool :=
  ((x.drop i).zip (w.drop j)).all (fun p => p.2 == p.1) &&
    (i = 0 || isBoundary x[i - 1]? x[i]?) && (j = 0 || !(w[j - 1]?.any Char.isLower)) &&
      (i = 0 || j = 0)

/-- Two blocks of one text agree where they overlap. -/
theorem getElem?_overlap {p g q a x b : List Char} (htext : p ++ (g ++ q) = a ++ (x ++ b))
    {k : Nat} (hk : k < x.length) (hlow : p.length ≤ a.length + k)
    (hhigh : a.length + k < p.length + g.length) : x[k]? = g[a.length + k - p.length]? := by
  have hx : (a ++ (x ++ b))[a.length + k]? = x[k]? := by
    rw [List.getElem?_append_right (by omega), Nat.add_sub_cancel_left,
      List.getElem?_append_left hk]
  rw [← hx, ← htext, List.getElem?_append_right hlow, List.getElem?_append_left (by omega)]

/-- The text before a place inside a block ends with the character of the block before that place. -/
theorem getElem?_before {p q a x b : List Char} (htext : p ++ q = a ++ (x ++ b))
    (hlow : a.length < p.length) (hhigh : p.length ≤ a.length + x.length) :
    x[p.length - a.length - 1]? = p.getLast? := by
  have hblock : [] ++ (p ++ q) = a ++ (x ++ b) := htext
  rw [getElem?_overlap hblock (by omega) (Nat.zero_le _) (by rw [List.length_nil]; omega),
    List.getLast?_eq_getElem?]
  congr 1
  rw [List.length_nil]
  omega

/-- Where an occurrence overlaps a block, the pattern fits the block there. -/
theorem Stands.fits {w p m q a x b : List Char} (h : Stands w p.getLast? m q)
    (hw : isPlain w = true) (hx : isPlain x = true)
    (htext : p ++ (m ++ q) = a ++ (x ++ b)) (ha : ∀ c ∈ a.getLast?, isAlphanumeric c = false)
    (hbegins : p.length < a.length + x.length) (hends : a.length < p.length + m.length) :
    Text.fits x w (p.length - a.length) (a.length - p.length) = true := by
  have hm : 0 < m.length := by
    rw [h.length_eq]
    exact List.length_pos_iff.mpr h.ne_nil
  unfold Text.fits
  simp only [Bool.and_eq_true, Bool.or_eq_true, decide_eq_true_eq, List.all_eq_true]
  refine ⟨⟨⟨?letters, ?opens⟩, ?flanked⟩, by omega⟩
  case letters =>
    rintro ⟨c, l⟩ hmem
    obtain ⟨k, hk⟩ := List.mem_iff_getElem?.mp hmem
    obtain ⟨hc, hl⟩ := List.getElem?_zip_eq_some.mp hk
    rw [List.getElem?_drop] at hc hl
    have hkx : p.length - a.length + k < x.length := (List.getElem?_eq_some_iff.mp hc).1
    have hkw : a.length - p.length + k < w.length := (List.getElem?_eq_some_iff.mp hl).1
    have hlength := h.length_eq
    have hm := getElem?_overlap htext hkx (by omega) (by omega)
    rw [hc, show a.length + (p.length - a.length + k) - p.length = a.length - p.length + k from
      by omega] at hm
    have hsame := h.letters _ l c hl hm.symm
    simpa using eq_of_sameLetter hw hx (List.mem_of_getElem? hl) (List.mem_of_getElem? hc) hsame
  case opens =>
    by_cases hi : p.length ≤ a.length
    · exact Or.inl (by omega)
    · right
      have hbefore : x[p.length - a.length - 1]? = p.getLast? :=
        getElem?_before htext (by omega) (by omega)
      have hafter : x[p.length - a.length]? = m.head? := by
        rw [getElem?_overlap htext (by omega) (by omega) (by omega), List.head?_eq_getElem?]
        congr 1
        omega
      rw [hbefore, hafter]
      exact h.opens
  case flanked =>
    by_cases hj : a.length ≤ p.length
    · exact Or.inl (by omega)
    · right
      have hlast : m[a.length - p.length - 1]? = a.getLast? :=
        getElem?_before htext.symm (by omega) (by omega)
      have hne : a ≠ [] := by
        rintro rfl
        simp at hj
      obtain ⟨l, hl⟩ : ∃ l, w[a.length - p.length - 1]? = some l :=
        ⟨_, List.getElem?_eq_getElem (by rw [← h.length_eq]; omega)⟩
      rw [List.getLast?_eq_some_getLast hne] at hlast
      have hsame := h.letters _ _ _ hl hlast
      have hout := ha (a.getLast hne) (List.getLast?_eq_some_getLast hne)
      rw [hl, Option.any_some, Bool.not_eq_true']
      cases hlower : l.isLower with
      | false => rfl
      | true =>
        rw [isAlphanumeric_of_sameLetter hlower hsame] at hout
        exact Bool.noConfusion hout

end Teleop.Text
