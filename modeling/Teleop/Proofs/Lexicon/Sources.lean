import Teleop.Lexicon.Normalization
import Teleop.Proofs.Text.Scan
import Teleop.Proofs.Text.Standing

/-!
# Sources of a lexicon

A consistent list of entries has no empty text in it, so the recogniser of its sources always moves on.
Sorting by length loses no source and invents none.
-/

namespace Teleop

open Text

namespace Entry

theorem isBlank_of_clash? {seen entries : List Entry} (h : clash? seen entries = none) :
    ∀ e ∈ entries, e.isBlank = false := by
  induction entries generalizing seen with
  | nil => simp
  | cons e rest ih =>
    rw [clash?] at h
    split at h
    · simp at h
    · rename_i hblank
      split at h
      · simp at h
      · intro e' he'
        rcases List.mem_cons.mp he' with rfl | he'
        · simpa using hblank
        · exact ih h e' he'

theorem isBlank_of_fault? {entries : List Entry} (h : fault? entries = none) :
    ∀ e ∈ entries, e.isBlank = false := by
  cases hclash : clash? [] entries with
  | none => exact isBlank_of_clash? hclash
  | some fault => simp [fault?, hclash] at h

end Entry

namespace Lexicon

theorem source_ne_nil (l : Lexicon) {e : Entry} (he : e ∈ l.entries) : e.source.toList ≠ [] := by
  have h := Entry.isBlank_of_fault? l.consistent e he
  intro hnil
  simp [Entry.isBlank, String.toList_eq_nil_iff.mp hnil] at h

theorem canonical_ne_nil (l : Lexicon) {e : Entry} (he : e ∈ l.entries) :
    e.canonical.toList ≠ [] := by
  have h := Entry.isBlank_of_fault? l.consistent e he
  intro hnil
  simp [Entry.isBlank, String.toList_eq_nil_iff.mp hnil] at h

theorem mem_insertByLength {w source : List Char} {sources : List (List Char)} :
    w ∈ insertByLength source sources ↔ w = source ∨ w ∈ sources := by
  induction sources with
  | nil => simp [insertByLength]
  | cons other rest ih =>
    rw [insertByLength]
    split
    · simp only [List.mem_cons, ih]
      constructor <;> rintro (h | h | h) <;> simp [h]
    · simp

theorem mem_sourcesByLength {l : Lexicon} {w : List Char} :
    w ∈ l.sourcesByLength ↔ ∃ e ∈ l.entries, e.source.toList = w := by
  rw [sourcesByLength]
  induction l.entries with
  | nil => simp
  | cons e rest ih =>
    simp only [List.map_cons, List.foldr_cons, mem_insertByLength, ih, List.mem_cons,
      exists_eq_or_imp, eq_comm (a := w)]

def recogniser (l : Lexicon) : Recogniser Unit :=
  recogniseSource l.sourcesByLength

/-- A recognised source stands at its place. -/
theorem recogniser_eq_some {l : Lexicon} {before : Option Char} {text : List Char} {u : Unit} {n : Nat}
    (h : l.recogniser before text = some (u, n)) :
    ∃ e ∈ l.entries, ∃ m q, text = m ++ q ∧ m.length = n ∧ Stands e.source.toList before m q := by
  simp only [recogniser, recogniseSource, Option.map_eq_some_iff, Prod.mk.injEq] at h
  obtain ⟨w, hw, -, rfl⟩ := h
  have hmem := List.mem_of_find?_eq_some hw
  have hat : isWordAt before text w = true := List.find?_some hw
  obtain ⟨e, he, rfl⟩ := mem_sourcesByLength.mp hmem
  obtain ⟨m, q, rfl, hstands⟩ := (isWordAt_iff (l.source_ne_nil he)).mp hat
  exact ⟨e, he, m, q, rfl, hstands.length_eq, hstands⟩

theorem isBounded_recogniser (l : Lexicon) : Recogniser.IsBounded l.recogniser := by
  intro before text u n h
  obtain ⟨e, he, m, q, rfl, rfl, hstands⟩ := recogniser_eq_some h
  have hpos := List.length_pos_iff.mpr (l.source_ne_nil he)
  rw [List.length_append, hstands.length_eq]
  omega

theorem recogniser_eq_none_iff {l : Lexicon} {before : Option Char} {text : List Char} :
    l.recogniser before text = none ↔
      ∀ e ∈ l.entries, isWordAt before text e.source.toList = false := by
  simp only [recogniser, recogniseSource, Option.map_eq_none_iff, List.find?_eq_none]
  constructor
  · intro h e he
    simpa using h _ (mem_sourcesByLength.mpr ⟨e, he, rfl⟩)
  · intro h w hw
    obtain ⟨e, he, rfl⟩ := mem_sourcesByLength.mp hw
    simp [h e he]

/-- No source is recognised at a space where none begins with one. -/
theorem recogniser_space {l : Lexicon} (hl : ∀ e ∈ l.entries, e.source.toList.head? ≠ some ' ')
    (before : Option Char) (rest : List Char) : l.recogniser before (' ' :: rest) = none := by
  refine recogniser_eq_none_iff.mpr fun e he => ?_
  have hspace := hl e he
  have hne := l.source_ne_nil he
  cases hw : e.source.toList with
  | nil => exact absurd hw hne
  | cons a w =>
    cases hs : sameLetter a ' ' with
    | false => simp [isWordAt, startsWithLetters, hs]
    | true =>
      rw [hw, sameLetter_space_right hs] at hspace
      exact absurd rfl hspace

/-- No source is recognised inside a word. -/
theorem recogniser_inside {l : Lexicon} {c d : Char}
    (h : isBoundary (some c) (some d) = false) (rest : List Char) :
    l.recogniser (some c) (d :: rest) = none := by
  refine recogniser_eq_none_iff.mpr fun e _ => ?_
  simp [isWordAt, h]

theorem replaceSources_eq (l : Lexicon) (text : List Char) :
    l.replaceSources text = (scan l.recogniser text).flatMap l.replacePiece := rfl

end Lexicon

end Teleop
