import Teleop.Proofs.Text.Lowercase
import Teleop.Text.CaseFold

/-!
# Letters that are the same up to case

What a recogniser can meet in the place of a letter: a space only for a space, and a letter or number
for a small ASCII letter. So an occurrence of a pattern of such letters never covers punctuation.
-/

namespace Teleop.Text

theorem sameLetter_iff {a b : Char} : sameLetter a b = true ↔ a = b ∨ fold a = fold b := by
  simp [sameLetter]

/-- A character folds to its lower-case form or to what that form is a variant of. -/
theorem fold_cases (c : Char) :
    fold c = simpleLower c ∨ (simpleLower c, fold c) ∈ letterVariants := by
  have hfold : fold c = (letterVariants.lookup (simpleLower c)).getD (simpleLower c) := rfl
  cases hlookup : letterVariants.lookup (simpleLower c) with
  | none =>
    rw [hlookup, Option.getD_none] at hfold
    exact Or.inl hfold
  | some v =>
    rw [hlookup, Option.getD_some] at hfold
    obtain ⟨before, after, hsplit, -⟩ := List.lookup_eq_some_iff.mp hlookup
    rw [hfold, hsplit]
    exact Or.inr (List.mem_append_right _ List.mem_cons_self)

theorem simpleLower_eq_of_small {c : Char} (h : (simpleLower c).toNat < 0x61) :
    simpleLower c = c := by
  by_cases hfix : shiftInRuns lowercaseRuns c.toNat = c.toNat
  · rw [simpleLower, hfix, Char.ofNat_toNat]
  · have hlow := (image_bounds hfix).1
    rw [toNat_simpleLower] at h
    omega

/-- Nothing below the small ASCII letters folds with another character. -/
theorem eq_of_fold_small {c k : Char} (hk : k.toNat < 0x61) (h : fold c = k) : c = k := by
  subst h
  rcases fold_cases c with h | h
  · rw [h] at hk ⊢
    exact (simpleLower_eq_of_small hk).symm
  · have hlarge : ∀ p ∈ letterVariants, 0x61 ≤ p.2.toNat := by decide
    exact absurd hk (Nat.not_lt.mpr (hlarge _ h))

theorem fold_space : fold ' ' = ' ' := by decide

theorem sameLetter_space_left {c : Char} (h : sameLetter ' ' c = true) : c = ' ' := by
  rcases sameLetter_iff.mp h with h | h
  · exact h.symm
  · rw [fold_space] at h
    exact eq_of_fold_small (by decide) h.symm

theorem sameLetter_space_right {c : Char} (h : sameLetter c ' ' = true) : c = ' ' := by
  rcases sameLetter_iff.mp h with h | h
  · exact h
  · rw [fold_space] at h
    exact eq_of_fold_small (by decide) h

theorem bounds_of_isLower {l : Char} (h : l.isLower = true) : 0x61 ≤ l.toNat ∧ l.toNat ≤ 0x7A := by
  have hcodes : (decide (l.val ≥ 'a'.val) && decide (l.val ≤ 'z'.val)) = true := h
  simp only [Bool.and_eq_true, decide_eq_true_eq, ge_iff_le, UInt32.le_iff_toNat_le] at hcodes
  exact hcodes

/-- The characters that fold to a small ASCII letter are letters themselves: its two cases, the long
s and the Kelvin sign. -/
theorem code_of_fold_letter {c l : Char} (hl : l.isLower = true) (h : fold c = l) :
    c = l ∨ (0x41 ≤ c.toNat ∧ c.toNat ≤ 0x5A) ∨ c.toNat = 0x17F ∨ c.toNat = 0x212A := by
  have hbound := bounds_of_isLower hl
  have hlower : simpleLower c = l ∨ simpleLower c = '\u017F' := by
    rcases fold_cases c with hc | hc
    · exact Or.inl (hc ▸ h)
    · rw [h] at hc
      have honly : ∀ p ∈ letterVariants, p.2.toNat ≤ 0x7A → p.1 = '\u017F' := by decide
      exact Or.inr (honly _ hc hbound.2)
  have hruns : ∀ r ∈ lowercaseRuns, (r.1 = 0x41 ∧ r.2.1 = 0x5A) ∨ (r.1 = 0x212A ∧ r.2.1 = 0x212A) ∨
      (0x7A < r.2.2.2 ∧ (0x17F < r.2.2.2 ∨ r.2.2.2 + (r.2.1 - r.1) < 0x17F)) := by decide +kernel
  have hn := toNat_simpleLower c
  rcases shiftInRuns_cases lowercaseRuns c.toNat with hfix | ⟨r, hr, ⟨hlow, hhigh, -⟩, himage⟩
  · have hself : simpleLower c = c := by rw [simpleLower, hfix, Char.ofNat_toNat]
    rcases hlower with hc | hc
    · exact Or.inl (hself ▸ hc)
    · rw [hself] at hc
      exact Or.inr (Or.inr (Or.inl (congrArg Char.toNat hc)))
  · have hrun := hruns r hr
    have hcode : (simpleLower c).toNat ≤ 0x7A ∨ (simpleLower c).toNat = 0x17F := by
      rcases hlower with hc | hc
      · exact Or.inl (hc ▸ hbound.2)
      · exact Or.inr (congrArg Char.toNat hc)
    omega

theorem fold_letter {l : Char} (hl : l.isLower = true) : fold l = l := by
  have hall : ∀ k < 26, fold (Char.ofNat (0x61 + k)) = Char.ofNat (0x61 + k) := by decide
  have hbound := bounds_of_isLower hl
  have := hall (l.toNat - 0x61) (by omega)
  rwa [show 0x61 + (l.toNat - 0x61) = l.toNat from by omega, Char.ofNat_toNat] at this

/-- Whether every character of a text stands for itself among its case forms. -/
def isPlain (text : List Char) : Bool :=
  text.all fun c => fold c == c

theorem isPlain_of_suffix {a b : List Char} (h : isPlain (a ++ b) = true) : isPlain b = true := by
  rw [isPlain, List.all_append, Bool.and_eq_true] at h
  exact h.2

theorem eq_of_sameLetter {s t : List Char} (hs : isPlain s = true) (ht : isPlain t = true)
    {l c : Char} (hl : l ∈ s) (hc : c ∈ t) (h : sameLetter l c = true) : l = c := by
  rcases sameLetter_iff.mp h with h | h
  · exact h
  · have hfl : fold l = l := by simpa using List.all_eq_true.mp hs l hl
    have hfc : fold c = c := by simpa using List.all_eq_true.mp ht c hc
    rwa [hfl, hfc] at h

/-- What stands for a small ASCII letter in a text is a letter. -/
theorem isAlphabetic_of_sameLetter {l c : Char} (hl : l.isLower = true)
    (h : sameLetter l c = true) : isAlphabetic c = true := by
  have hfold : fold c = l := by
    rcases sameLetter_iff.mp h with rfl | h
    · exact fold_letter hl
    · rw [← h, fold_letter hl]
  rcases code_of_fold_letter hl hfold with rfl | h | h | h
  · have hbound := bounds_of_isLower hl
    have hs : (0x61, 0x7A) ∈ alphabeticSpans := by decide
    exact isAlphabetic_of_mem hs hbound.1 hbound.2
  · have hs : (0x41, 0x5A) ∈ alphabeticSpans := by decide
    exact isAlphabetic_of_mem hs h.1 h.2
  · rw [isAlphabetic, h]
    decide
  · rw [isAlphabetic, h]
    decide +kernel

theorem isAlphanumeric_of_sameLetter {l c : Char} (hl : l.isLower = true)
    (h : sameLetter l c = true) : isAlphanumeric c = true := by
  rw [isAlphanumeric, isAlphabetic_of_sameLetter hl h]
  rfl

end Teleop.Text
