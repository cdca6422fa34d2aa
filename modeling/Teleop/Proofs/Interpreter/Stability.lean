import Teleop.Proofs.Interpreter.Reading
import Teleop.Proofs.Lexicon.Stable

/-!
# Interpreting a normalized utterance

An interpreter looks at an utterance through its normalized text alone; the utterance itself only comes
back as the source of an unknown. So under the built-in table, whose normalization is stable, an
utterance may be normalized before it is handed over.
-/

namespace Teleop.Interpreter

open Numeric Text

variable {i : Interpreter} {u v : String} {c : Context}

/-- Utterances with one normalized text are turned into the same commands. -/
theorem commands_congr (h : i.lexicon.normalize v = i.lexicon.normalize u) :
    (i.analyze v c).1.descriptors.map (·.command) =
      (i.analyze u c).1.descriptors.map (·.command) := by
  have hclauses : i.clausesOf v = i.clausesOf u := congrArg Clause.segment h
  have hcontext : (i.analyze v c).2 = (i.analyze u c).2 := by
    rw [context_analyze, context_analyze, hclauses]
  cases hall : (classifyAll i.settings.zoomStep (i.clausesOf u) c).1.all Descriptor.isUnknown with
  | false =>
    rw [descriptors_of_known hall, descriptors_of_known (by rwa [hclauses]), hclauses]
  | true =>
    rw [descriptors_of_unknown hall, descriptors_of_unknown (by rwa [hclauses]), hcontext, h]
    cases repetition? (i.lexicon.normalize u) (i.analyze u c).2 <;> rfl

theorem tokens_congr {r s : Reading}
    (h : r.descriptors.map (·.command) = s.descriptors.map (·.command)) : r.tokens = s.tokens := by
  rw [Reading.tokens, Token.ofDescriptors, h]
  rfl

/-- Under the built-in table an utterance can be normalized beforehand: normalizing it again changes
nothing, and the reading of its normalized text has the same normalized text, clauses, commands and
tokens, and leaves the same context. -/
theorem analyze_normalize (i : Interpreter) (hi : i.lexicon = .builtin) (u : String) (c : Context) :
    i.lexicon.normalize (i.lexicon.normalize u) = i.lexicon.normalize u ∧
    (i.analyze (i.lexicon.normalize u) c).1.normalized = (i.analyze u c).1.normalized ∧
    (i.analyze (i.lexicon.normalize u) c).1.clauses = (i.analyze u c).1.clauses ∧
    (i.analyze (i.lexicon.normalize u) c).1.descriptors.map (·.command) =
      (i.analyze u c).1.descriptors.map (·.command) ∧
    (i.analyze (i.lexicon.normalize u) c).1.tokens = (i.analyze u c).1.tokens ∧
    (i.analyze (i.lexicon.normalize u) c).2 = (i.analyze u c).2 := by
  have hnormal : i.lexicon.normalize (i.lexicon.normalize u) = i.lexicon.normalize u := by
    rw [hi]
    exact Lexicon.normalize_normalize_of_isApart Lexicon.isApart_builtin
      Lexicon.hasCollapsedEntries_builtin u
  have hclauses : i.clausesOf (i.lexicon.normalize u) = i.clausesOf u :=
    congrArg Clause.segment hnormal
  have hcommands := commands_congr (c := c) hnormal
  refine ⟨hnormal, ?_, ?_, hcommands, tokens_congr hcommands, ?_⟩
  · rw [normalized_analyze, normalized_analyze, hnormal]
  · rw [clauses_analyze, clauses_analyze, hclauses]
  · rw [context_analyze, context_analyze, hclauses]

theorem analyze_normalize_spoken : default.lexicon = .builtin ∧
    (default.analyze (default.lexicon.normalize "Aage chalo ۲ meter, phir ruko!") .initial).1.tokens =
      (default.analyze "Aage chalo ۲ meter, phir ruko!" .initial).1.tokens := by
  have hbuiltin : default.lexicon = .builtin := rfl
  obtain ⟨-, -, -, -, htokens, -⟩ :=
    analyze_normalize default hbuiltin "Aage chalo ۲ meter, phir ruko!" .initial
  exact ⟨hbuiltin, htokens⟩

end Teleop.Interpreter
