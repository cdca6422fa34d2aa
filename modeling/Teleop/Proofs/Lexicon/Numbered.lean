import Teleop.Proofs.Lexicon.Stable
import Teleop.Proofs.Text.Numbered
import Teleop.Proofs.Text.Opening

/-!
# Normalizing texts of words

No source of the built-in table has a digit in it. A text of words none of which a source begins with is
normal as it stands (`normalize_unwords`), so a number may be among the words.
-/

namespace Teleop

open Numeric Text

namespace Lexicon

variable {l : Lexicon}

def HasNoDigits (l : Lexicon) : Prop :=
  ∀ e ∈ l.entries, IsDigitless e.source.toList

theorem hasNoDigits_builtin : builtin.HasNoDigits := by
  intro e he c hc
  have htext := (builtin_checked.1 e he).1
  simp only [isTableText, Bool.and_eq_true, List.all_eq_true, Bool.or_eq_true, beq_iff_eq] at htext
  cases hdigit : isAsciiDigit c with
  | false => rfl
  | true =>
    obtain ⟨hlow, hhigh⟩ := isAsciiDigit_iff.mp hdigit
    rcases htext.1 c hc with rfl | hletter
    · exact absurd hlow (by decide)
    · simp only [isTableLetter, Bool.or_eq_true, Bool.and_eq_true, decide_eq_true_eq] at hletter
      omega

/-- A text in which nothing is recognised stays as it is. -/
theorem replaceSources_of_values {text : List Char}
    (h : (scan l.recogniser text).filterMap Piece.value? = []) : l.replaceSources text = text := by
  have hmissed (u : Unit) (f : List Char) : Piece.found u f ∉ scan l.recogniser text := by
    intro hf
    have hvalue : u ∈ (scan l.recogniser text).filterMap Piece.value? :=
      List.mem_filterMap.mpr ⟨_, hf, rfl⟩
    rw [h] at hvalue
    exact absurd hvalue List.not_mem_nil
  rw [replaceSources_eq, replaced_of_lookup?_none (fun u f hf => absurd hf (hmissed u f))
    (fun u f hf => absurd hf (hmissed u f)), (scanned_scan l.isBounded_recogniser text).textOf_eq]

/-! ## Texts of words that no source begins -/

theorem head?_source_builtin : ∀ e ∈ builtin.entries, e.source.toList.head?.any isTableLetter = true := by
  intro e he
  have htext := (builtin_checked.1 e he).1
  have hhead := (isPhrase_of_isTableText htext).head
  simp only [isTableText, Bool.and_eq_true, List.all_eq_true, Bool.or_eq_true, beq_iff_eq] at htext
  cases hsource : e.source.toList with
  | nil => exact absurd hsource (builtin.source_ne_nil he)
  | cons c rest =>
    rw [hsource, List.head?_cons, Option.any_some] at hhead
    rcases htext.1 c (by simp [hsource]) with rfl | hletter
    · exact absurd hhead (by decide)
    · exact hletter

/-- A spoken text is normal if no source begins with one of its words. -/
theorem normalize_unwords {ws : List (List Char)} (hws : IsSpoken ws)
    (hascii : ∀ u ∈ ws, ∀ c ∈ u, asciiForm c = c)
    (hletter : ∀ e ∈ l.entries, e.source.toList.head?.any isTableLetter = true)
    (hmisses : ∀ e ∈ l.entries, ∀ u ∈ ws, Misses e.source.toList u) :
    l.normalize (String.ofList (unwords ws)) = String.ofList (unwords ws) := by
  have hform : (unwords ws).map asciiForm = unwords ws := by
    refine (List.map_congr_left fun c hc => ?_).trans (List.map_id _)
    rcases mem_unwords hc with rfl | ⟨u, hu, hcu⟩
    · decide
    · exact hascii u hu c hcu
  have hscan : scan l.recogniser (unwords ws) = (unwords ws).map .plain := by
    refine scan_eq_plains l.isBounded_recogniser fun p c s hsplit => ?_
    exact recogniser_eq_none_iff.mpr fun e he =>
      isWordAt_of_misses hws.opening (hletter e he) (hmisses e he) hsplit
  have hkept : l.replaceSources (unwords ws) = unwords ws :=
    replaceSources_of_values (by rw [hscan, values_plains])
  rw [normalize, String.toList_ofList, hform, hws.isCollapsed.collapse_eq, hkept,
    hws.isCollapsed.collapse_eq]

end Lexicon

end Teleop
