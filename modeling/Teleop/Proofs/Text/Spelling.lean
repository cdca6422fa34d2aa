import Teleop.Proofs.Lexicon.Apart
import Teleop.Proofs.Numeric.Digits

/-!
# Words and how their letters are written

Two tests compare a word of a table with a text: letter by letter up to case, and through the lower-case
form of the text. `IsWritten` relates a word to the characters that pass the second test; they pass the
first as well, the dotted capital apart (`IsWritten.startsWithLetters`). In either case the letters of a
table are written by letters alone: no blank, no digit and no punctuation is among them
(`isLetterForm_of_sameLetter`).
-/

namespace Teleop.Text

open Lexicon (isTableLetter fold_of_isTableLetter isSettled_of_isTableLetter isWordChar_of_isTableLetter)

variable {p w : List Char} {l c : Char}

/-! ## Letters of tables -/

/-- The code points by which the letters of tables are written: the ASCII letters of both cases, the long
s, the Kelvin sign, and letters of the Arabic script. -/
def letterFormSpans : Spans :=
  [(0x41, 0x5A), (0x61, 0x7A), (0x17F, 0x17F), (0x620, 0x64A), (0x671, 0x6D3), (0x212A, 0x212A)]

def isLetterForm (c : Char) : Bool :=
  letterFormSpans.has c.toNat

/-- A letter of the Arabic script is written in one way. -/
theorem eq_of_fold_arabic (hlow : 0x620 ≤ l.toNat) (hhigh : l.toNat ≤ 0x6D3) (h : fold c = l) :
    c = l := by
  rcases fold_cases c with hfold | hvariant
  · have hlower : simpleLower c = l := hfold.symm.trans h
    by_cases hfix : shiftInRuns lowercaseRuns c.toNat = c.toNat
    · rw [← hlower, simpleLower, hfix, Char.ofNat_toNat]
    · have himage := (image_bounds hfix).2.2.2.1
      rw [← toNat_simpleLower, hlower] at himage
      omega
  · have hvariants : ∀ p ∈ letterVariants, p.2.toNat < 0x620 ∨ 0x6D3 < p.2.toNat := by decide
    rw [h] at hvariant
    have hl : l.toNat < 0x620 ∨ 0x6D3 < l.toNat := hvariants _ hvariant
    omega

theorem isTableLetter_iff : isTableLetter l = true ↔
    l.isLower = true ∨ (0x620 ≤ l.toNat ∧ l.toNat ≤ 0x64A) ∨ (0x671 ≤ l.toNat ∧ l.toNat ≤ 0x6D3) := by
  have hlower : l.isLower = true ↔ 0x61 ≤ l.toNat ∧ l.toNat ≤ 0x7A := by
    refine ⟨bounds_of_isLower, fun ⟨hlow, hhigh⟩ => ?_⟩
    have hcodes : (decide (l.val ≥ 'a'.val) && decide (l.val ≤ 'z'.val)) = true := by
      simp only [Bool.and_eq_true, decide_eq_true_eq, ge_iff_le, UInt32.le_iff_toNat_le]
      exact ⟨hlow, hhigh⟩
    exact hcodes
  rw [hlower]
  simp only [isTableLetter, Bool.or_eq_true, Bool.and_eq_true, decide_eq_true_eq]
  exact or_assoc

/-- What stands for a letter of a table is one of its forms and part of a word. -/
theorem isLetterForm_of_sameLetter (hl : isTableLetter l = true) (h : sameLetter l c = true) :
    isLetterForm c = true ∧ isWordChar c = true := by
  have hascending : letterFormSpans.ascending = true := by decide
  have hmem (s : Nat × Nat) (hs : s ∈ letterFormSpans) (hlow : s.1 ≤ c.toNat) (hhigh : c.toNat ≤ s.2) :
      isLetterForm c = true := Spans.has_of_mem hascending hs hlow hhigh
  have hfold : fold c = l := by
    rcases sameLetter_iff.mp h with rfl | h
    · exact fold_of_isTableLetter hl
    · rw [← h, fold_of_isTableLetter hl]
  rcases isTableLetter_iff.mp hl with hlower | harabic
  · refine ⟨?_, ?_⟩
    · rcases code_of_fold_letter hlower hfold with rfl | hcode | hcode | hcode
      · obtain ⟨hlow, hhigh⟩ := bounds_of_isLower hlower
        exact hmem (0x61, 0x7A) (by decide) hlow hhigh
      · exact hmem (0x41, 0x5A) (by decide) hcode.1 hcode.2
      · exact hmem (0x17F, 0x17F) (by decide) (Nat.le_of_eq hcode.symm) (Nat.le_of_eq hcode)
      · exact hmem (0x212A, 0x212A) (by decide) (Nat.le_of_eq hcode.symm) (Nat.le_of_eq hcode)
    · rw [isWordChar, isAlphabetic_of_sameLetter hlower h]
      rfl
  · obtain rfl : c = l := eq_of_fold_arabic (by omega) (by omega) hfold
    refine ⟨?_, isWordChar_of_isTableLetter hl⟩
    rcases harabic with ⟨hlow, hhigh⟩ | ⟨hlow, hhigh⟩
    · exact hmem (0x620, 0x64A) (by decide) hlow hhigh
    · exact hmem (0x671, 0x6D3) (by decide) hlow hhigh

theorem isPlain_of_isTableLetter (hw : ∀ l ∈ w, isTableLetter l = true) : isPlain w = true :=
  List.all_eq_true.mpr fun l hl => beq_iff_eq.mpr (fold_of_isTableLetter (hw l hl))

/-- Blanks, digits, and the signs of ASCII that are no letters. -/
def apartFromLetters : List Spans :=
  [blankSpans, decimalDigitSpans, [(0x0, 0x40), (0x5B, 0x60)]]

theorem letterForms_apart : ∀ spans ∈ apartFromLetters, letterFormSpans.apart spans = true := by
  decide

theorem isBlank_of_isLetterForm (h : isLetterForm c = true) : isBlank c = false :=
  Spans.has_eq_false_of_apart (letterForms_apart blankSpans (by decide)) h

theorem isDecimalDigit_of_isLetterForm (h : isLetterForm c = true) : isDecimalDigit c = false :=
  Spans.has_eq_false_of_apart (letterForms_apart decimalDigitSpans (by decide)) h

/-- A letter is no sign of ASCII. -/
theorem ne_of_isLetterForm (h : isLetterForm c = true) {sign : Char} (hsign : sign.toNat ≤ 0x40) :
    c ≠ sign := by
  rintro rfl
  have hout := Spans.has_eq_false_of_apart (letterForms_apart [(0x0, 0x40), (0x5B, 0x60)] (by decide)) h
  simp [Spans.has, hsign] at hout

/-- A word of a table that begins a text ends before what is no letter. -/
theorem length_le_of_stop {x y : List Char} (hw : ∀ l ∈ w, isTableLetter l = true)
    (hy : ∀ c ∈ y.head?, isLetterForm c = false) (h : startsWithLetters w (x ++ y) = true) :
    w.length ≤ x.length := by
  obtain ⟨m, q, hsplit, hlength, hletters⟩ := startsWithLetters_iff.mp h
  refine Nat.le_of_not_lt fun hlt => ?_
  have hm : x.length < m.length := hlength ▸ hlt
  have hhead : m[x.length]? = y.head? := by
    rw [← List.getElem?_append_left hm, ← hsplit, List.getElem?_append_right (Nat.le_refl _),
      Nat.sub_self, List.head?_eq_getElem?]
  have hsame := hletters x.length w[x.length] m[x.length] (List.getElem?_eq_getElem hlt)
    (List.getElem?_eq_getElem hm)
  have hform := (isLetterForm_of_sameLetter (hw _ (List.getElem_mem hlt)) hsame).1
  rw [hy m[x.length] (hhead ▸ List.getElem?_eq_getElem hm)] at hform
  exact Bool.noConfusion hform

/-- Where a word of a table stands, there are letters. -/
theorem exists_letter {text : List Char} (hw : ∀ l ∈ w, isTableLetter l = true)
    (h : startsWithLetters w text = true) {k : Nat} (hk : k < w.length) :
    ∃ c, text[k]? = some c ∧ isLetterForm c = true ∧ isWordChar c = true := by
  obtain ⟨m, q, rfl, hlength, hletters⟩ := startsWithLetters_iff.mp h
  have hm : k < m.length := hlength ▸ hk
  have hsame := hletters k w[k] m[k] (List.getElem?_eq_getElem hk) (List.getElem?_eq_getElem hm)
  refine ⟨m[k], ?_, isLetterForm_of_sameLetter (hw _ (List.getElem_mem hk)) hsame⟩
  rw [List.getElem?_append_left hm, List.getElem?_eq_getElem hm]

/-- A word of a table stands between boundaries where its letters stand, unless a longer word does. -/
theorem isWordAt_of_startsWithLetters {text : List Char} {before : Option Char} (hne : w ≠ [])
    (hw : ∀ l ∈ w, isTableLetter l = true) (h : startsWithLetters w text = true) :
    isWordAt before text w = (!before.any isWordChar && !text[w.length]?.any isWordChar) := by
  have hpos := List.length_pos_iff.mpr hne
  obtain ⟨c, hhead, -, hc⟩ := exists_letter hw h hpos
  obtain ⟨d, hlast, -, hd⟩ := exists_letter hw h (Nat.sub_one_lt_of_lt hpos)
  rw [isWordAt, h, isBoundary, boundaryBehind, isBoundary, List.head?_eq_getElem?, hhead, hlast,
    Option.any_some, Option.any_some, hc, hd]
  cases before.any isWordChar <;> cases text[w.length]?.any isWordChar <;> rfl

/-! ## Lower-case forms -/

/-- A character is a form of its lower-case form. -/
theorem sameLetter_simpleLower (hdotted : c ≠ 'İ') : sameLetter (simpleLower c) c = true := by
  have hfold : fold (simpleLower c) = fold c := by
    unfold fold
    rw [(isSettled_simpleLower hdotted).fixed]
  exact sameLetter_iff.mpr (Or.inr hfold)

/-- What is written without the two forms of the sigma and without the dot of a dotted capital. -/
def IsUnmarked (p : List Char) : Prop :=
  ∀ l ∈ p, l ≠ 'ς' ∧ l ≠ 'σ' ∧ l ≠ '\u0307'

theorem isUnmarked_of_isTableLetter (h : ∀ l ∈ p, isTableLetter l = true) : IsUnmarked p := by
  intro l hl
  refine ⟨?_, ?_, ?_⟩ <;>
  · rintro rfl
    exact absurd (h _ hl) (by decide)

theorem IsUnmarked.tail (h : IsUnmarked (l :: p)) : IsUnmarked p :=
  fun d hd => h d (List.mem_cons_of_mem _ hd)

/-- The characters by which a text is written up to case. A dotted capital can stand for the last letter
alone, since its lower-case form goes on behind the letter. -/
inductive IsWritten : List Char → List Char → Prop
  | nil : IsWritten [] []
  | letter {c : Char} {p a : List Char} (sigma : c ≠ 'Σ') (dotted : c ≠ 'İ') (behind : IsWritten p a) :
      IsWritten (simpleLower c :: p) (c :: a)
  | dotted : IsWritten ['i'] ['İ']

/-- What the lower-case form of a text begins with is written at the head of the text. -/
theorem exists_of_prefix_lowerFrom {afterCased : Bool} (hp : IsUnmarked p)
    (h : p <+: lowerFrom afterCased w) : ∃ a b, w = a ++ b ∧ IsWritten p a := by
  induction w generalizing p afterCased with
  | nil =>
    obtain rfl : p = [] := by simpa [lowerFrom] using h
    exact ⟨[], [], rfl, .nil⟩
  | cons c w ih =>
    cases p with
    | nil => exact ⟨[], c :: w, rfl, .nil⟩
    | cons l p =>
      rw [lowerFrom, lowerAt] at h
      split at h
      · obtain ⟨hl, -⟩ := List.cons_prefix_cons.mp h
        obtain ⟨hfinal, hmedial, -⟩ := hp l List.mem_cons_self
        split at hl
        · exact absurd hl hfinal
        · exact absurd hl hmedial
      · split at h
        · rename_i hdotted
          obtain ⟨rfl, hrest⟩ := List.cons_prefix_cons.mp h
          subst hdotted
          cases p with
          | nil => exact ⟨['İ'], w, rfl, .dotted⟩
          | cons l p =>
            obtain ⟨rfl, -⟩ := List.cons_prefix_cons.mp hrest
            exact absurd rfl (hp _ (by simp)).2.2
        · rename_i hsigma hdotted
          obtain ⟨rfl, hrest⟩ := List.cons_prefix_cons.mp h
          obtain ⟨a, b, rfl, ha⟩ := ih hp.tail hrest
          exact ⟨c :: a, b, rfl, .letter hsigma hdotted ha⟩

theorem length_le_lowerFrom (afterCased : Bool) (w : List Char) :
    w.length ≤ (lowerFrom afterCased w).length := by
  induction w generalizing afterCased with
  | nil => exact Nat.zero_le _
  | cons c w ih =>
    have hone : 1 ≤ (lowerAt afterCased c w).length := by
      unfold lowerAt
      split
      · exact Nat.le_refl 1
      · split <;> simp
    have hbehind := ih (if isCaseIgnorable c then afterCased else isCased c)
    rw [lowerFrom, List.length_append, List.length_cons]
    omega

namespace IsWritten

variable {a b : List Char}

theorem length_eq (h : IsWritten p a) : a.length = p.length := by
  induction h with
  | nil => rfl
  | letter _ _ _ ih => rw [List.length_cons, List.length_cons, ih]
  | dotted => rfl

theorem of_lower (hp : IsUnmarked p) (h : lower w = p) : IsWritten p w := by
  have hbegins : p <+: lowerFrom false w := h ▸ List.prefix_rfl
  obtain ⟨a, b, rfl, ha⟩ := exists_of_prefix_lowerFrom hp hbegins
  have hlength := length_le_lowerFrom false (a ++ b)
  rw [show lowerFrom false (a ++ b) = p from h, List.length_append, ha.length_eq] at hlength
  obtain rfl : b = [] := List.length_eq_zero_iff.mp (by omega)
  rwa [List.append_nil]

theorem mem (h : IsWritten p a) (hc : c ∈ a) : (c ≠ 'İ' ∧ simpleLower c ∈ p) ∨ c = 'İ' := by
  induction h with
  | nil => simp at hc
  | letter _ hdotted _ ih =>
    rcases List.mem_cons.mp hc with rfl | hc
    · exact Or.inl ⟨hdotted, List.mem_cons_self⟩
    · exact (ih hc).imp_left fun ⟨hne, hmem⟩ => ⟨hne, List.mem_cons_of_mem _ hmem⟩
  | dotted => exact Or.inr (List.mem_singleton.mp hc)

/-- A sign below the small letters is written by itself. -/
theorem eq_of_sign {sign : Char} (h : IsWritten [sign] a) (hsign : sign.toNat < 0x61) : a = [sign] := by
  generalize hp : [sign] = p at h
  cases h with
  | nil => simp at hp
  | letter _ _ behind =>
    obtain ⟨rfl, rfl⟩ := List.cons.inj hp
    rw [simpleLower_eq_of_small hsign, List.length_eq_zero_iff.mp behind.length_eq]
  | dotted =>
    obtain ⟨rfl, -⟩ := List.cons.inj hp
    exact absurd hsign (by decide)

/-- What is written at the head of a text begins its lower-case form. -/
theorem prefix_lowerFrom (h : IsWritten p a) (afterCased : Bool) :
    p <+: lowerFrom afterCased (a ++ b) := by
  induction h generalizing afterCased with
  | nil => exact List.nil_prefix
  | letter hsigma hdotted _ ih =>
    rw [List.cons_append, lowerFrom, lowerAt, if_neg hsigma, if_neg hdotted]
    exact List.cons_prefix_cons.mpr ⟨rfl, ih _⟩
  | dotted =>
    rw [List.cons_append, lowerFrom, lowerAt, if_neg (by decide), if_pos rfl]
    exact List.cons_prefix_cons.mpr ⟨rfl, List.nil_prefix⟩

/-- The beginning of what is written at the head of a text stands there up to case, unless it ends in the
letter that a dotted capital stands for. -/
theorem startsWithLetters {q : List Char} (h : IsWritten p a) (hq : q <+: p)
    (hlast : q.getLast? ≠ some 'i') : startsWithLetters q (a ++ b) = true := by
  induction h generalizing q with
  | nil =>
    obtain rfl := List.prefix_nil.mp hq
    rfl
  | @letter c p a _ hdotted _ ih =>
    cases q with
    | nil => rfl
    | cons l q =>
      obtain ⟨rfl, hrest⟩ := List.cons_prefix_cons.mp hq
      have hbehind : q.getLast? ≠ some 'i' := by
        intro hi
        rw [List.getLast?_cons, hi] at hlast
        exact hlast rfl
      rw [List.cons_append, Text.startsWithLetters, sameLetter_simpleLower hdotted, ih hrest hbehind]
      rfl
  | dotted =>
    cases q with
    | nil => rfl
    | cons l q =>
      obtain ⟨rfl, hrest⟩ := List.cons_prefix_cons.mp hq
      obtain rfl := List.prefix_nil.mp hrest
      exact absurd rfl hlast

end IsWritten

/-- Of two plain texts at the head of one text the shorter begins the longer. -/
theorem prefix_of_startsWithLetters {s t : List Char} (hs : isPlain s = true) (ht : isPlain t = true)
    (hle : s.length ≤ t.length) (hstarts : startsWithLetters s w = true)
    (htarts : startsWithLetters t w = true) : s <+: t := by
  induction s generalizing t w with
  | nil => exact List.nil_prefix
  | cons l s ih =>
    cases t with
    | nil => simp at hle
    | cons k t =>
      cases w with
      | nil => simp [startsWithLetters] at hstarts
      | cons c w =>
        simp only [startsWithLetters, Bool.and_eq_true] at hstarts htarts
        simp only [isPlain, List.all_cons, Bool.and_eq_true, beq_iff_eq] at hs ht
        have hfold (l : Char) (h : sameLetter l c = true) : fold l = fold c := by
          rcases sameLetter_iff.mp h with rfl | h
          · rfl
          · exact h
        obtain rfl : l = k := by rw [← hs.1, hfold l hstarts.1, ← hfold k htarts.1, ht.1]
        exact List.cons_prefix_cons.mpr
          ⟨rfl, ih hs.2 ht.2 (Nat.le_of_succ_le_succ hle) hstarts.2 htarts.2⟩

end Teleop.Text
