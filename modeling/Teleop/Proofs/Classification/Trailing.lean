import Teleop.Proofs.Classification.View
import Teleop.Proofs.Interpreter.Memory
import Teleop.Proofs.Quantity.Trailing

/-!
# Clauses with a full stop behind them

The words of a clause are taken without the punctuation at their ends, and its quantity does not depend on
spaces and full stops behind it, so a clause is turned into the same commands with and without them
(`classify_trailing`).
-/

namespace Teleop

open Numeric Text

namespace View

def bareWords (text : List Char) : List (List Char) :=
  ((Text.words text).map (lower ∘ bareWord)).filter (!·.isEmpty)

variable {t z : List Char}

/-- A full stop adds no word. -/
theorem bareWords_stop (t : List Char) : bareWords (t ++ ['.']) = bareWords t := by
  obtain ⟨s, w, rfl, hs, hw⟩ := exists_last_word t
  have hlong : ∀ c ∈ w ++ ['.'], isBlank c = false := by
    intro c hc
    rcases List.mem_append.mp hc with hc | hc
    · exact hw c hc
    · rw [List.mem_singleton.mp hc]
      decide
  have hbare : bareWord (w ++ ['.']) = bareWord w := trimBoth_concat (by decide) w
  rw [bareWords, bareWords, List.append_assoc, hs.words_append, hs.words_append,
    words_of_unbroken (by simp) hlong, List.map_append, List.map_append, List.filter_append,
    List.filter_append, List.map_singleton, Function.comp_apply, hbare]
  by_cases hnil : w = []
  · subst hnil
    rw [words_nil]
    rfl
  · rw [words_of_unbroken hnil hw, List.map_singleton, Function.comp_apply]

theorem bareWords_trailing (hz : IsTrailing z) : bareWords (t ++ z) = bareWords t := by
  induction z generalizing t with
  | nil => rw [List.append_nil]
  | cons c z ih =>
    rw [← List.singleton_append, ← List.append_assoc, ih (IsTrailing.suffix (a := [c]) hz)]
    rcases hz c List.mem_cons_self with rfl | rfl
    · rw [bareWords, words_append_blank (by decide), words_nil, List.append_nil]
      rfl
    · exact bareWords_stop t

/-- The words of a clause and its quantity do not depend on what trails it. -/
theorem ofClause_trailing (hz : IsTrailing z) (ht : EndsSolid t) :
    ofClause (String.ofList (t ++ z)) =
      { ofClause (String.ofList t) with raw := String.ofList (t ++ z) } := by
  have hwords := bareWords_trailing (t := t) hz
  rw [bareWords, bareWords] at hwords
  simp only [ofClause, String.toList_ofList, hwords, Quantity.extract_trailing hz ht]

end View

/-- The text of a clause has no part in its commands, only its words and its quantity do. -/
theorem Rule.commands?_raw (zoomStep : Binary64) (v : View) (raw : String) (rule : Rule) :
    commands? zoomStep { v with raw := raw } rule = commands? zoomStep v rule := by
  cases rule <;> rfl

/-- What a descriptor says without its source. -/
def Descriptor.verdict (d : Descriptor) : Command × Binary32 :=
  (d.command, d.confidence)

section Verdict

variable {zoomStep : Binary64} {clause other : String} {t z : List Char} {c : Context}

/-- What an outcome says without the sources. -/
def Rule.Outcome.verdict (outcome : Rule.Outcome) : List (Command × Binary32) × Context :=
  (outcome.1.map Descriptor.verdict, outcome.2)

/-- Clauses of the same words and the same quantity are taken for the same. -/
theorem classify_verdict_congr
    (h : View.ofClause other = { View.ofClause clause with raw := other }) (c : Context) :
    Rule.Outcome.verdict (classify zoomStep other c) =
      Rule.Outcome.verdict (classify zoomStep clause c) := by
  have hrule (rule : Rule) : (Rule.apply zoomStep (.ofClause other) c rule).map Rule.Outcome.verdict =
      (Rule.apply zoomStep (.ofClause clause) c rule).map Rule.Outcome.verdict := by
    rw [Rule.apply_eq, Rule.apply_eq, h, Rule.commands?_raw, Option.map_map, Option.map_map]
    refine congrArg (Option.map · _) (funext fun cmds => ?_)
    simp only [Function.comp_apply, Rule.Outcome.verdict, List.map_map]
    rfl
  have hcascade (v : String) : Rule.Outcome.verdict (classify zoomStep v c) =
      (Rule.cascade.findSome? (Option.map Rule.Outcome.verdict ∘
        Rule.apply zoomStep (.ofClause v) c)).getD (Rule.Outcome.verdict ([.unknown v], c)) := by
    rw [← List.map_findSome?, Option.getD_map]
    rfl
  have hunknown : Rule.Outcome.verdict ([.unknown other], c) =
      Rule.Outcome.verdict ([.unknown clause], c) := rfl
  rw [hcascade, hcascade, hunknown, funext (f := Option.map Rule.Outcome.verdict ∘ _) hrule]
  rfl

/-- A clause is taken for the same without the spaces and full stops behind it. -/
theorem classify_trailing (hz : IsTrailing z) (ht : EndsSolid t) (c : Context) :
    (classify zoomStep (String.ofList (t ++ z)) c).1.map Descriptor.verdict =
        (classify zoomStep (String.ofList t) c).1.map Descriptor.verdict ∧
      (classify zoomStep (String.ofList (t ++ z)) c).2 = (classify zoomStep (String.ofList t) c).2 :=
  Prod.mk.inj (classify_verdict_congr (View.ofClause_trailing hz ht) c)

/-- Nothing is understood of spaces and full stops alone. -/
theorem classify_of_trailing (hz : IsTrailing z) (c : Context) :
    (classify zoomStep (String.ofList z) c).1.map Descriptor.verdict =
      [(Descriptor.unknown "").verdict] := by
  rw [← List.nil_append z, (classify_trailing hz (by simp [EndsSolid]) c).1]
  rfl

end Verdict

end Teleop
