import Teleop.Proofs.Clause.Slice
import Teleop.Proofs.Text.Numbered
import Teleop.Proofs.Text.Opening

/-!
# Cutting texts of words

Neither a joining word nor an action verb has a digit in it. A text of words that no joining word begins,
with at most one action verb among them, is one clause (`segment_unwords`), so a number may be among the
words.
-/

namespace Teleop

open Text

namespace Clause

theorem isDigitless_joiningWords : ∀ w ∈ joiningWords, IsDigitless w.toList :=
  isDigitless_of_all (by decide)

theorem isDigitless_actionVerbs : ∀ w ∈ actionVerbs, IsDigitless w.toList :=
  isDigitless_of_all (by decide)

/-! ## Cuts -/

theorem cutAtVerbs_of_none {ps : List (Piece String)} (h : ps.filterMap Piece.value? = [])
    (last : Option String) (adjacent : Bool) : cutAtVerbs last adjacent ps = [textOf ps] := by
  induction ps generalizing adjacent with
  | nil => rfl
  | cons p ps ih =>
    cases p with
    | plain c =>
      have hrest : ps.filterMap Piece.value? = [] := h
      rw [cutAtVerbs, ih hrest]
      rfl
    | found verb m => simp [Piece.value?] at h

/-- A stretch with at most one verb is not cut. -/
theorem cutAtVerbs_of_one {ps : List (Piece String)} (h : (ps.filterMap Piece.value?).length ≤ 1)
    (adjacent : Bool) : cutAtVerbs none adjacent ps = [textOf ps] := by
  induction ps generalizing adjacent with
  | nil => rfl
  | cons p ps ih =>
    cases p with
    | plain c =>
      have hrest : (ps.filterMap Piece.value?).length ≤ 1 := h
      rw [cutAtVerbs, ih hrest]
      rfl
    | found verb m =>
      have hrest : ps.filterMap Piece.value? = [] := by
        simpa [Piece.value?] using h
      rw [cutAtVerbs, cutAtVerbs_of_none hrest]
      rfl

/-! ## Texts of words that no connector begins -/

section Words

variable {ws : List (List Char)} {u : List Char}

theorem head?_cuttingWords : ∀ w ∈ cuttingWords, w.toList.head?.any Lexicon.isTableLetter = true := by
  decide

/-- The verbs of a text are those of its words. -/
theorem verbs_unwords (ws : List (List Char)) :
    (scan recogniseVerb (unwords ws)).filterMap Piece.value? =
      ws.flatMap fun u => (scan recogniseVerb u).filterMap Piece.value? := by
  have hspace : ∀ c ∈ [' '], isWordChar c = false := List.forall_mem_singleton.mpr (by decide)
  have hblank : scan recogniseVerb [' '] = [.plain ' '] :=
    scan_recogniseVerb_blank (List.forall_mem_singleton.mpr (by decide))
  induction ws with
  | nil => rfl
  | cons u ws ih =>
    by_cases hnil : ws = []
    · rw [hnil, unwords_singleton, List.flatMap_singleton]
    · have hbehind : divides [' '].getLast? (unwords ws).head? = true :=
        divides_of_left fun c hc => hspace c (List.mem_of_getLast? hc)
      have hfront : divides u.getLast? ([' '] ++ unwords ws).head? = true :=
        divides_of_right fun c hc => hspace c (List.mem_of_head? hc)
      rw [unwords_cons u hnil, ← List.singleton_append, scan_recogniseVerb_append hfront,
        scan_recogniseVerb_append hbehind, hblank, List.filterMap_append, List.filterMap_append, ih,
        List.flatMap_cons]
      rfl

/-- A word that all verbs miss has no verb in it. -/
theorem verbs_of_misses (hu : goesOn u = true) (h : ∀ v ∈ actionVerbs, Misses v.toList u) :
    (scan recogniseVerb u).filterMap Piece.value? = [] := by
  have hscan : scan recogniseVerb u = u.map .plain := by
    refine scan_eq_plains isBounded_recogniseVerb fun p c s hsplit => ?_
    have hfind : actionVerbs.find? (isWordAt p.getLast? (c :: s) ·.toList) = none := by
      refine List.find?_eq_none.mpr fun v hv => Bool.not_eq_true _ ▸ ?_
      rw [← unwords_singleton u] at hsplit
      exact isWordAt_of_misses (by simpa using hu) (head?_cuttingWords v (mem_cuttingWords_of_verb hv))
        (by simpa using h v hv) hsplit
    rw [recogniseVerb, hfind]
    rfl
  rw [hscan, values_plains]

/-- A spoken text without marks is one clause if no joining word begins with one of its words and at most
one of them is a verb. -/
theorem segment_unwords (hws : IsSpoken ws)
    (hmarks : ∀ u ∈ ws, ∀ c ∈ u, ¬ (c = ',' ∨ c = ';' ∨ c = '.'))
    (hjoining : ∀ w ∈ joiningWords, ∀ u ∈ ws, Misses w.toList u)
    (hverbs : (ws.flatMap fun u => (scan recogniseVerb u).filterMap Piece.value?).length ≤ 1) :
    segment (String.ofList (unwords ws)) = [String.ofList (unwords ws)] := by
  have hunmarked : ∀ c ∈ unwords ws, ¬ (c = ',' ∨ c = ';' ∨ c = '.') := by
    intro c hc
    rcases mem_unwords hc with rfl | ⟨u, hu, hcu⟩
    · decide
    · exact hmarks u hu c hcu
  have hconnectors : scan recogniseConnector (unwords ws) = (unwords ws).map .plain := by
    refine scan_eq_plains isBounded_recogniseConnector fun p c s hsplit => ?_
    cases hthere : recogniseConnector p.getLast? (c :: s) with
    | none => rfl
    | some found =>
      obtain ⟨gap, body, behind, q, htext, -, -, hjoins, -⟩ := recogniseConnector_eq_some hthere
      rw [htext, ← List.append_assoc] at hsplit
      rcases hjoins with ⟨mark, rfl, hmark⟩ | ⟨w, hw, hstands⟩
      · exact absurd hmark (hunmarked mark (by rw [hsplit]; simp))
      · have hat := (isWordAt_iff (joiningWords_ne_nil w hw)).mpr ⟨body, behind ++ q, rfl, hstands⟩
        rw [← List.getLast?_append, isWordAt_of_misses hws.opening
          (head?_cuttingWords w (mem_cuttingWords_of_joining hw)) (hjoining w hw) hsplit] at hat
        exact Bool.noConfusion hat
  have hstretches : stretches (scan recogniseConnector (unwords ws)) = [unwords ws] := by
    rw [hconnectors, ← List.append_nil (List.map _ _), stretches_plains_append, stretches,
      List.modifyHead_cons, List.append_nil]
  have huncut : IsUncut (unwords ws) := by
    rw [← verbs_unwords] at hverbs
    rw [IsUncut, cutAtVerbs_of_one hverbs, (scanned_scan isBounded_recogniseVerb _).textOf_eq]
  rw [segment, String.toList_ofList, hstretches, List.flatMap_singleton,
    ofStretch_of_isUncut huncut (unwords_ne_nil hws.words hws.ne_nil) (beginsSolid_unwords hws.words)
      (endsSolid_unwords hws.words), List.map_singleton]

end Words

end Clause

end Teleop
