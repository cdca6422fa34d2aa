import Teleop.Proofs.Lexicon.Normalization

/-!
# When normalizing twice is normalizing once

Acceptance of a list of entries does not make normalization idempotent: canonical words may form a
source together with the words around them, turn into one when their digits become ASCII, or contain
one behind a hyphen. `normalize_normalize_iff` gives the condition for each utterance: nothing is left to
replace in its normalized text. It is exact unless the normalized text has the source of an entry that
feeds itself, whose source stands in its own canonical form: such a text may be its own replacement,
as `١` is under an entry from `1` to `١`.
-/

namespace Teleop

open Text

/-- The source of an entry stands in the ASCII form of its canonical words, with a boundary on each side
that lies inside them. -/
def Entry.FeedsItself (e : Entry) : Prop :=
  ∃ before behind, e.canonical.toList.map asciiForm = before ++ (e.source.toList ++ behind) ∧
    (before ≠ [] → isBoundary before.getLast? e.source.toList.head? = true) ∧
    (behind ≠ [] → isBoundary e.source.toList.getLast? behind.head? = true)

/-- A block that another text takes the place of lies within the text that covers it. -/
theorem Text.exists_of_covered {a k c d f e : List Char} (h : a ++ (k ++ c) = d ++ (f ++ e))
    (hbegins : a.length ≤ d.length) (hends : d.length + f.length ≤ a.length + k.length) :
    ∃ before behind, k = before ++ (f ++ behind) ∧ d = a ++ before ∧ e = behind ++ c := by
  obtain ⟨before, rfl, hbehind⟩ := exists_append_of_length_le h hbegins
  have hshort : (before ++ f).length ≤ k.length := by
    simp only [List.length_append] at hends ⊢
    omega
  rw [← List.append_assoc] at hbehind
  obtain ⟨behind, rfl, rfl⟩ := exists_append_of_length_le hbehind.symm hshort
  exact ⟨before, behind, List.append_assoc .., rfl, rfl⟩

namespace Lexicon

/-- A text in which nothing is left to replace: its characters are their own ASCII forms, and what is
found in it has no canonical form. -/
def IsNormal (l : Lexicon) (t : List Char) : Prop :=
  t.map asciiForm = t ∧
    ∀ u f, .found u f ∈ scan l.recogniser t → l.lookup? (String.ofList f) = none

/-- The source of an entry that feeds itself is found in a text. -/
def HasSelfFeeding (l : Lexicon) (t : List Char) : Prop :=
  ∃ u, ∃ e ∈ l.entries,
    .found u e.source.toList ∈ scan l.recogniser (t.map asciiForm) ∧ e.FeedsItself

section Replaced

variable {l : Lexicon} {w : List Char} {ps : List (Piece Unit)}

theorem replacement_of_lookup?_none {f : List Char} (hf : IsCollapsed f)
    (h : l.lookup? (String.ofList f) = none) : l.replacement f = f := by
  rw [replacement, h, Option.map_none, Option.getD_none, hf.collapse_eq]

theorem replacement_of_lookup?_some {f : List Char} {canonical : String}
    (h : l.lookup? (String.ofList f) = some canonical) : l.replacement f = canonical.toList := by
  rw [replacement, h, Option.map_some, Option.getD_some]

theorem replaced_of_lookup?_none (hcollapsed : ∀ u f, .found u f ∈ ps → IsCollapsed f)
    (hnone : ∀ u f, .found u f ∈ ps → l.lookup? (String.ofList f) = none) :
    ps.flatMap l.replacePiece = textOf ps := by
  induction ps with
  | nil => rfl
  | cons p ps ih =>
    rw [List.flatMap_cons, textOf_cons,
      ih (fun u f hf => hcollapsed u f (List.mem_cons_of_mem _ hf))
        (fun u f hf => hnone u f (List.mem_cons_of_mem _ hf))]
    cases p with
    | plain c => rfl
    | found u f =>
      rw [replacePiece, replacement_of_lookup?_none (hcollapsed u f List.mem_cons_self)
        (hnone u f List.mem_cons_self)]
      rfl

/-! ## The lag of the replaced text -/

/-- What replaces the pieces is no longer than they are, and shorter once one has a canonical form. -/
structure Lags (l : Lexicon) (P : List (Piece Unit)) : Prop where
  le : (P.flatMap l.replacePiece).length ≤ (textOf P).length
  lt : (∃ u f, .found u f ∈ P ∧ l.lookup? (String.ofList f) ≠ none) →
    (P.flatMap l.replacePiece).length < (textOf P).length

theorem lags_nil (l : Lexicon) : Lags l [] where
  le := Nat.le_refl _
  lt := by simp

/-- A piece that is its own replacement adds nothing to the lag. -/
theorem Lags.kept {P : List (Piece Unit)} {p : Piece Unit} (h : Lags l P)
    (hsame : l.replacePiece p = p.chars)
    (hnone : ∀ u f, p = .found u f → l.lookup? (String.ofList f) = none) : Lags l (P ++ [p]) := by
  have hout : ((P ++ [p]).flatMap l.replacePiece).length =
      (P.flatMap l.replacePiece).length + p.chars.length := by simp [hsame]
  have htext : (textOf (P ++ [p])).length = (textOf P).length + p.chars.length := by simp
  refine ⟨?_, ?_⟩
  · rw [hout, htext]
    exact Nat.add_le_add_right h.le _
  · rintro ⟨u, f, hfound, hne⟩
    rw [hout, htext]
    refine Nat.add_lt_add_right (h.lt ?_) _
    rcases List.mem_append.mp hfound with hbefore | hlast
    · exact ⟨u, f, hbefore, hne⟩
    · exact absurd (hnone u f (List.mem_singleton.mp hlast).symm) hne

theorem lags_of_shorter {P : List (Piece Unit)} {u : Unit} {f : List Char}
    (h : (P.flatMap l.replacePiece).length + (l.replacement f).length <
      (textOf P).length + f.length) : Lags l (P ++ [.found u f]) := by
  have hlt : ((P ++ [Piece.found u f]).flatMap l.replacePiece).length <
      (textOf (P ++ [Piece.found u f])).length := by
    simpa [replacePiece, Piece.chars] using h
  exact ⟨Nat.le_of_lt hlt, fun _ => hlt⟩

/-- A canonical form that reaches as far as its source in a text that is its own replacement contains
the source. -/
theorem feedsItself_of_reach (hps : Scanned l.recogniser none (w.map asciiForm) ps)
    (hout : ps.flatMap l.replacePiece = w) {P Q : List (Piece Unit)} {u : Unit} {e : Entry}
    (hsplit : ps = P ++ .found u e.source.toList :: Q)
    (hreplaced : l.replacement e.source.toList = e.canonical.toList)
    (hbehind : (P.flatMap l.replacePiece).length ≤ (textOf P).length)
    (hreach : (textOf P).length + e.source.toList.length ≤
      (P.flatMap l.replacePiece).length + e.canonical.toList.length) : e.FeedsItself := by
  subst hsplit
  obtain ⟨other, -, hstands⟩ := stands_of_found hps
  have hascii : (P.flatMap l.replacePiece).map asciiForm ++
      (e.canonical.toList.map asciiForm ++ (Q.flatMap l.replacePiece).map asciiForm) =
        textOf P ++ (e.source.toList ++ textOf Q) := by
    have htext := hps.textOf_eq
    rw [← hout, List.flatMap_append, List.flatMap_cons, replacePiece, hreplaced, List.map_append,
      List.map_append, textOf_append, textOf_cons, Piece.chars] at htext
    exact htext.symm
  obtain ⟨before, behind, hcanonical, hleft, hright⟩ :=
    exists_of_covered hascii (by simpa using hbehind) (by simpa using hreach)
  refine ⟨before, behind, hcanonical, fun hne => ?_, fun hne => ?_⟩
  · have hopens := hstands.opens
    rwa [hleft, List.getLast?_append, List.getLast?_eq_some_getLast hne, Option.some_or,
      ← List.getLast?_eq_some_getLast hne] at hopens
  · have hcloses := hstands.closes
    rwa [hright, head?_append_of_ne_nil hne] at hcloses

theorem lags_step (hl : l.HasCollapsedEntries) (hw : IsCollapsed w)
    (hfeed : ∀ u e, e ∈ l.entries → .found u e.source.toList ∈ ps → ¬ e.FeedsItself)
    (hps : Scanned l.recogniser none (w.map asciiForm) ps) (hout : ps.flatMap l.replacePiece = w)
    {P Q : List (Piece Unit)} {p : Piece Unit} (hsplit : ps = P ++ p :: Q) (h : Lags l P) :
    Lags l (P ++ [p]) := by
  cases p with
  | plain c => exact h.kept rfl (by simp)
  | found u f =>
    have hmem : .found u f ∈ ps := by
      rw [hsplit]
      exact List.mem_append_right _ List.mem_cons_self
    have hf : IsCollapsed f := isCollapsed_of_found hl (isCollapsed_map_asciiForm hw) hps hmem
    cases hlookup : l.lookup? (String.ofList f) with
    | none =>
      refine h.kept (replacement_of_lookup?_none hf hlookup) ?_
      rintro _ _ ⟨⟩
      exact hlookup
    | some canonical =>
      obtain ⟨e, he, rfl, rfl⟩ := exists_of_lookup? hf.collapse_eq hlookup
      have hreplaced := replacement_of_lookup?_some hlookup
      apply lags_of_shorter
      rw [hreplaced]
      apply Nat.lt_of_not_le
      intro hreach
      exact hfeed u e he hmem (feedsItself_of_reach hps hout hsplit hreplaced h.le hreach)

theorem lags_run (hl : l.HasCollapsedEntries) (hw : IsCollapsed w)
    (hfeed : ∀ u e, e ∈ l.entries → .found u e.source.toList ∈ ps → ¬ e.FeedsItself)
    (hps : Scanned l.recogniser none (w.map asciiForm) ps) (hout : ps.flatMap l.replacePiece = w)
    {P Q : List (Piece Unit)} (hsplit : ps = P ++ Q) (h : Lags l P) : Lags l ps := by
  -- on the pieces still to come; the lag of those before them is the invariant
  induction Q generalizing P with
  | nil => rwa [hsplit, List.append_nil]
  | cons p Q ih =>
    exact ih (P := P ++ [p]) (by rw [hsplit, List.append_assoc]; rfl)
      (lags_step hl hw hfeed hps hout hsplit h)

/-- A text that its ASCII form is replaced by has nothing left to replace. -/
theorem isNormal_of_replaceSources_eq (hl : l.HasCollapsedEntries) (hw : IsCollapsed w)
    (hfeed : ¬ l.HasSelfFeeding w) (hout : l.replaceSources (w.map asciiForm) = w) : l.IsNormal w := by
  have hps := scanned_scan l.isBounded_recogniser (w.map asciiForm)
  rw [replaceSources_eq] at hout
  have hlags := lags_run hl hw (fun u e he hfound hself => hfeed ⟨u, e, he, hfound, hself⟩) hps hout
    (P := []) rfl (lags_nil l)
  have hnone : ∀ u f, .found u f ∈ scan l.recogniser (w.map asciiForm) →
      l.lookup? (String.ofList f) = none := by
    intro u f hf
    apply Decidable.byContradiction
    intro hne
    have hlt := hlags.lt ⟨u, f, hf, hne⟩
    rw [hout, hps.textOf_eq, List.length_map] at hlt
    exact Nat.lt_irrefl _ hlt
  have hascii : w.map asciiForm = w := by
    rw [← hps.textOf_eq, ← replaced_of_lookup?_none (l := l) (fun u f hf =>
      isCollapsed_of_found hl (isCollapsed_map_asciiForm hw) hps hf) hnone, hout]
  refine ⟨hascii, fun u f hf => hnone u f ?_⟩
  rwa [hascii]

theorem replaceSources_of_isNormal (hl : l.HasCollapsedEntries) (hw : IsCollapsed w)
    (h : l.IsNormal w) : l.replaceSources (w.map asciiForm) = w := by
  obtain ⟨hascii, hnone⟩ := h
  have hps := scanned_scan l.isBounded_recogniser w
  rw [hascii, replaceSources_eq, replaced_of_lookup?_none
    (fun u f hf => isCollapsed_of_found hl hw hps hf) hnone, hps.textOf_eq]

end Replaced

theorem isNormal_nil (l : Lexicon) : l.IsNormal [] :=
  ⟨rfl, fun u f hf => by simp [scan, scanFrom] at hf⟩

/-- Normalization by an accepted list is idempotent at an utterance if nothing is left to replace in the
normalized text, and only then, unless that text has the source of an entry that feeds itself. -/
theorem normalize_normalize_iff {l : Lexicon} (hl : l.IsAccepted) (u : String) :
    (l.IsNormal (l.normalize u).toList → l.normalize (l.normalize u) = l.normalize u) ∧
    (l.normalize (l.normalize u) = l.normalize u →
      l.IsNormal (l.normalize u).toList ∨ l.HasSelfFeeding (l.normalize u).toList) := by
  have hentries := hl.hasCollapsedEntries
  have htwice := toList_normalize_normalize hentries u
  by_cases hempty : l.normalize u = ""
  · have hnormal : l.IsNormal (l.normalize u).toList := by
      rw [hempty]
      exact isNormal_nil l
    refine ⟨fun _ => ?_, fun _ => Or.inl hnormal⟩
    rw [hempty] at htwice ⊢
    exact String.toList_inj.mp htwice
  · have hw := isCollapsed_normalize hempty
    refine ⟨fun hnormal => ?_, fun hsame => ?_⟩
    · rw [replaceSources_of_isNormal hentries hw hnormal] at htwice
      exact String.toList_inj.mp htwice
    · rw [hsame] at htwice
      by_cases hfeed : l.HasSelfFeeding (l.normalize u).toList
      · exact Or.inr hfeed
      · exact Or.inl (isNormal_of_replaceSources_eq hentries hw hfeed htwice.symm)

/-- Two entries, the second of which writes the first word of the source of the first. -/
def crossed : Lexicon where
  entries := [⟨"a b", "x"⟩, ⟨"q", "a"⟩]
  consistent := by decide

theorem isAccepted_crossed : crossed.IsAccepted :=
  ⟨crossed.entries, Or.inl (ofEntries_eq_ok (by decide))⟩

theorem normalize_normalize_replaced :
    crossed.IsAccepted ∧ crossed.IsNormal (crossed.normalize "A  b").toList ∧
      crossed.normalize (crossed.normalize "A  b") = crossed.normalize "A  b" := by
  have hnormal : crossed.IsNormal (crossed.normalize "A  b").toList := by
    have hscan : scan crossed.recogniser (crossed.normalize "A  b").toList = [.plain 'x'] := by
      rfl
    refine ⟨by decide, fun u f hf => ?_⟩
    rw [hscan] at hf
    simp at hf
  exact ⟨isAccepted_crossed, hnormal, (normalize_normalize_iff isAccepted_crossed "A  b").1 hnormal⟩

/-- `q b` becomes `a b`, which becomes `x`. -/
theorem normalize_normalize_crossed :
    ¬ ∀ l : Lexicon, l.IsAccepted → ∀ u, l.normalize (l.normalize u) = l.normalize u := by
  intro h
  have hmoved : crossed.normalize (crossed.normalize "q b") ≠ crossed.normalize "q b" := by
    decide
  exact hmoved (h crossed isAccepted_crossed "q b")

end Lexicon

end Teleop
