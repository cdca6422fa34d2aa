import Mathlib.Data.List.Find
import Teleop.Proofs.Lexicon.Sources
import Teleop.Proofs.Text.Seam
import Teleop.Proofs.Text.Words

/-!
# Normalization of two utterances joined by `then`

No source of the built-in table begins in the joining word, and none with a space in it goes on with
that word, so the sources found in a joined text are those of its parts. A lexicon of an operator may
have such a source; what holds of the built-in table is stated for every lexicon that keeps clear of
the join.
-/

namespace Teleop.Lexicon

open Text

structure IsClearOfJoin (l : Lexicon) : Prop where
  not_crosses : ∀ e ∈ l.entries, crosses e.source.toList seam = false
  not_space : ∀ e ∈ l.entries, e.source.toList.head? ≠ some ' '
  not_seam : ∀ e ∈ l.entries, (e.source.toList.zip seam).all (fun p => sameLetter p.1 p.2) = false

theorem isClearOfJoin_builtin : IsClearOfJoin builtin where
  not_crosses := by decide +kernel
  not_space := by decide
  not_seam := by decide +kernel

theorem asciiForm_space : asciiForm ' ' = ' ' := by decide

theorem map_asciiForm_seam : seam.map asciiForm = seam := by decide

theorem map_asciiForm_joined (a b : List Char) :
    (joined a b).map asciiForm = joined (a.map asciiForm) (b.map asciiForm) := by
  rw [joined, List.map_append, List.map_cons, List.map_append, asciiForm_space, map_asciiForm_seam,
    joined]

/-! ## Sources at the join -/

section Join

variable {l : Lexicon}

theorem recogniser_seam (hl : IsClearOfJoin l) (before : Option Char) (rest : List Char) :
    l.recogniser before (seam ++ rest) = none := by
  apply recogniser_eq_none_iff.mpr
  intro e he
  cases hat : startsWithLetters e.source.toList (seam ++ rest) with
  | false => simp [isWordAt, hat]
  | true =>
    have hzip := zip_of_startsWithLetters hat
    rw [hl.not_seam e he] at hzip
    exact Bool.noConfusion hzip

theorem recogniser_behind_space (text : List Char) :
    l.recogniser (some ' ') text = l.recogniser none text := by
  have hfun : isWordAt (some ' ') text = isWordAt none text := funext (isWordAt_behind_space text)
  rw [recogniser, recogniseSource, hfun]
  rfl

theorem recogniser_append_join (hl : IsClearOfJoin l) {s : List Char} (hs : s ≠ []) (b : List Char)
    (before : Option Char) : l.recogniser before (joined s b) = l.recogniser before s := by
  have hfind : l.sourcesByLength.find? (isWordAt before (joined s b)) =
      l.sourcesByLength.find? (isWordAt before s) := by
    refine List.find?_congr fun w hw => ?_
    obtain ⟨e, he, rfl⟩ := mem_sourcesByLength.mp hw
    exact isWordAt_append_seam (l.source_ne_nil he) hs (hl.not_crosses e he) before
  rw [recogniser, recogniseSource, hfind]
  rfl

/-- The sources of a joined text are those of its parts. -/
theorem scanned_joined (hl : IsClearOfJoin l) {a b : List Char} {ps qs : List (Piece Unit)}
    (ha : Scanned l.recogniser none a ps) (hb : Scanned l.recogniser none b qs) :
    Scanned l.recogniser none (joined a b) (ps ++ ((' ' :: seam).map .plain ++ qs)) := by
  refine ha.append (fun p s _ hne => recogniser_append_join hl hne b _) ?_
  have hth : isBoundary (some 't') (some 'h') = false := by decide
  have hhe : isBoundary (some 'h') (some 'e') = false := by decide
  have hen : isBoundary (some 'e') (some 'n') = false := by decide
  refine .plain (recogniser_space hl.not_space _ _) (.plain (recogniser_seam hl _ b) ?_)
  refine .plain (recogniser_inside hth _) (.plain (recogniser_inside hhe _) ?_)
  refine .plain (recogniser_inside hen _) (.plain (recogniser_space hl.not_space _ _) ?_)
  exact hb.congr_before (recogniser_behind_space _).symm

theorem replaceSources_joined (hl : IsClearOfJoin l) (a b : List Char) :
    l.replaceSources (joined a b) = joined (l.replaceSources a) (l.replaceSources b) := by
  have hbounded := l.isBounded_recogniser
  have h := scanned_joined hl (scanned_scan hbounded a) (scanned_scan hbounded b)
  rw [replaceSources_eq, h.scan_eq hbounded, List.flatMap_append, List.flatMap_append,
    replaceSources_eq, replaceSources_eq]
  rfl

theorem collapse_joined {a b : List Char} (ha : words a ≠ []) (hb : words b ≠ []) :
    collapse (joined a b) = joined (collapse a) (collapse b) := by
  have hthen : collapse "then".toList = "then".toList := by decide
  have hword : words ("then".toList ++ ' ' :: b) ≠ [] := by
    rw [words_append_blank (by decide)]
    simp [hb]
  have hsplit : joined a b = a ++ ' ' :: ("then".toList ++ ' ' :: b) := rfl
  rw [hsplit, collapse_append_space ha hword, collapse_append_space (by decide) hb, hthen]
  rfl

theorem replaceSources_nil : l.replaceSources [] = [] := rfl

theorem words_ne_nil_of_normalize {u : String} (h : l.normalize u ≠ "") :
    words (u.toList.map asciiForm) ≠ [] ∧
      words (l.replaceSources (collapse (u.toList.map asciiForm))) ≠ [] := by
  have hreplaced : words (l.replaceSources (collapse (u.toList.map asciiForm))) ≠ [] := by
    intro hnil
    apply h
    rw [normalize, collapse_eq_nil hnil]
  refine ⟨fun hnil => hreplaced ?_, hreplaced⟩
  rw [collapse_eq_nil hnil, replaceSources_nil, words_nil]

/-- Utterances that are not empty are normalized each by itself. -/
theorem normalize_then (hl : IsClearOfJoin l) {u v : String} (hu : l.normalize u ≠ "")
    (hv : l.normalize v ≠ "") :
    (l.normalize (u ++ " then " ++ v)).toList =
      joined (l.normalize u).toList (l.normalize v).toList := by
  obtain ⟨hu₁, hu₂⟩ := words_ne_nil_of_normalize hu
  obtain ⟨hv₁, hv₂⟩ := words_ne_nil_of_normalize hv
  have hchars : (u ++ " then " ++ v).toList = joined u.toList v.toList := by
    simp [joined, seam, String.toList_append]
  simp only [normalize, String.toList_ofList]
  rw [hchars, map_asciiForm_joined, collapse_joined hu₁ hv₁, replaceSources_joined hl,
    collapse_joined hu₂ hv₂]

end Join

end Teleop.Lexicon
