import Teleop.Proofs.Text.Scan
import Teleop.Proofs.Text.Standing

/-!
# Patterns at a seam

Two texts are joined by a space and a word with a space behind it. A space is no part of a word, so it
bounds a word as the edge of a text does, and a pattern stands in the first text exactly where it
stands in the joined one, unless it reads on across the space. `crosses` finds the patterns that
could; it looks at the word of the seam only, so it may report a pattern that no text lets cross.
-/

namespace Teleop.Text

theorem isWordChar_space : isWordChar ' ' = false := isWordChar_of_isBlank (by decide)

theorem isBoundary_space_left (after : Option Char) :
    isBoundary (some ' ') after = isBoundary none after := by
  simp [isBoundary, isWordChar_space]

theorem isBoundary_space_right (before : Option Char) :
    isBoundary before (some ' ') = isBoundary before none := by
  simp [isBoundary, isWordChar_space]

/-- Behind a space a pattern stands where it stands at the start of a text. -/
theorem isWordAt_behind_space (text w : List Char) :
    isWordAt (some ' ') text w = isWordAt none text w := by
  rw [isWordAt, isWordAt, isBoundary_space_left]

/-- The word that joins two utterances, with the space behind it. -/
def seam : List Char := ['t', 'h', 'e', 'n', ' ']

def joined (a b : List Char) : List Char :=
  a ++ ' ' :: (seam ++ b)

/-- Whether a pattern has a space in it behind which it can read on into a word. -/
def crosses (w word : List Char) : Bool :=
  (List.range w.length).any fun k =>
    0 < k && w[k]? == some ' ' && ((w.drop (k + 1)).zip word).all fun p => sameLetter p.1 p.2

section Join

variable {w s word rest : List Char}

/-- A pattern that does not cross ends before the seam. -/
theorem Stands.length_le {before : Option Char} {m q : List Char} (h : Stands w before m q)
    (hs : s ≠ []) (htext : s ++ ' ' :: (word ++ rest) = m ++ q)
    (hcross : crosses w word = false) : m.length ≤ s.length := by
  apply Nat.le_of_not_lt
  intro hover
  have hw : s.length < w.length := h.length_eq ▸ hover
  have hspace : m[s.length]? = some ' ' := by
    rw [← List.getElem?_append_left hover, ← htext, List.getElem?_append_right (Nat.le_refl _),
      Nat.sub_self, List.getElem?_cons_zero]
  have hword (j : Nat) (hj : j < word.length) (hm : s.length + 1 + j < m.length) :
      m[s.length + 1 + j]? = word[j]? := by
    rw [← List.getElem?_append_left hm, ← htext, List.getElem?_append_right (by omega),
      show s.length + 1 + j - s.length = j + 1 from by omega, List.getElem?_cons_succ,
      List.getElem?_append_left hj]
  have htrue : crosses w word = true := by
    refine List.any_eq_true.mpr ⟨s.length, List.mem_range.mpr hw, ?_⟩
    simp only [Bool.and_eq_true, decide_eq_true_eq, List.all_eq_true]
    refine ⟨⟨List.length_pos_iff.mpr hs, ?_⟩, ?_⟩
    · have hl : w[s.length]? = some w[s.length] := List.getElem?_eq_getElem hw
      have hsame := h.letters _ _ _ hl hspace
      rw [hl, sameLetter_space_right hsame]
      rfl
    · rintro ⟨l, c⟩ hmem
      obtain ⟨j, hj⟩ := List.mem_iff_getElem?.mp hmem
      obtain ⟨hl, hc⟩ := List.getElem?_zip_eq_some.mp hj
      rw [List.getElem?_drop] at hl
      have hlw : s.length + 1 + j < w.length := (List.getElem?_eq_some_iff.mp hl).1
      have hcs : j < word.length := (List.getElem?_eq_some_iff.mp hc).1
      refine h.letters _ l c hl ?_
      rw [hword j hcs (h.length_eq ▸ hlw), hc]
  rw [htrue] at hcross
  exact Bool.noConfusion hcross

/-- What follows a seam does not bear on the patterns before it. -/
theorem isWordAt_append_seam (hw : w ≠ []) (hs : s ≠ []) (hcross : crosses w word = false)
    (before : Option Char) :
    isWordAt before (s ++ ' ' :: (word ++ rest)) w = isWordAt before s w := by
  rw [Bool.eq_iff_iff, isWordAt_iff hw, isWordAt_iff hw]
  have hhead (q : List Char) (m : Option Char) :
      isBoundary m (q ++ ' ' :: (word ++ rest)).head? = isBoundary m q.head? := by
    cases q with
    | nil => exact isBoundary_space_right m
    | cons c q => rfl
  constructor
  · rintro ⟨m, q, htext, h⟩
    have hshort := h.length_le hs htext hcross
    obtain ⟨q', rfl⟩ : m <+: s :=
      List.prefix_of_prefix_length_le ⟨q, htext.symm⟩ (List.prefix_append _ _) hshort
    rw [List.append_assoc, List.append_cancel_left_eq] at htext
    subst htext
    exact ⟨m, q', rfl, h.ne_nil, h.length_eq, h.letters, h.opens, hhead q' _ ▸ h.closes⟩
  · rintro ⟨m, q, rfl, h⟩
    refine ⟨m, q ++ ' ' :: (word ++ rest), by rw [List.append_assoc], h.ne_nil, h.length_eq,
      h.letters, h.opens, ?_⟩
    rw [hhead]
    exact h.closes

end Join

end Teleop.Text
