import Teleop.Interpreter
import Teleop.Proofs.Classification.Cascade

/-!
# Readings and their clauses

The context is handed from clause to clause, but what a clause is turned into does not depend on it
(`classify_fst_congr`), so the descriptors of an utterance are those of its clauses, one after the
other. The fallback to a repetition replaces them only where no clause was understood.
-/

namespace Teleop.Interpreter

open Numeric Text

variable {zoomStep : Binary64} {clauses : List String} {c : Context}

theorem classifyAll_append (zoomStep : Binary64) (clauses others : List String) (c : Context) :
    classifyAll zoomStep (clauses ++ others) c =
      ((classifyAll zoomStep clauses c).1 ++
          (classifyAll zoomStep others (classifyAll zoomStep clauses c).2).1,
        (classifyAll zoomStep others (classifyAll zoomStep clauses c).2).2) := by
  induction clauses generalizing c with
  | nil => rfl
  | cons clause rest ih =>
    simp only [List.cons_append, classifyAll, ih, List.append_assoc]

/-- The descriptors of some clauses, whatever the context. -/
theorem classifyAll_fst (zoomStep : Binary64) (clauses : List String) (c : Context) :
    (classifyAll zoomStep clauses c).1 =
      clauses.flatMap fun clause => (classify zoomStep clause .initial).1 := by
  induction clauses generalizing c with
  | nil => rfl
  | cons clause rest ih =>
    rw [classifyAll, List.flatMap_cons, ← ih (classify zoomStep clause c).2,
      classify_fst_congr .initial c]

/-- A clause of which something was understood, in any context. -/
def IsUnderstood (zoomStep : Binary64) (clause : String) : Prop :=
  ∃ c, ∃ d ∈ (classify zoomStep clause c).1, d.isUnknown = false

theorem isClosed_classifyAll :
    Token.IsClosed ((classifyAll zoomStep clauses c).1.map (·.command)) := by
  induction clauses generalizing c with
  | nil => exact .nil
  | cons clause rest ih =>
    rw [classifyAll, List.map_append]
    exact isClosed_classify.append ih

theorem not_all_unknown (h : ∃ clause ∈ clauses, IsUnderstood zoomStep clause) :
    (classifyAll zoomStep clauses c).1.all Descriptor.isUnknown = false := by
  obtain ⟨clause, hclause, c', d, hd, hknown⟩ := h
  rw [List.all_eq_false]
  refine ⟨d, ?_, by simp [hknown]⟩
  rw [classifyAll_fst, List.mem_flatMap]
  exact ⟨clause, hclause, classify_fst_congr c' .initial ▸ hd⟩

/-- The manner in which a direction is repeated: to a side it is the one of the last turn. -/
def repeatStyle (c : Context) : Direction → MoveStyle
  | .left | .right => c.lastTurnStyle.moveStyle
  | .forward | .backward | .stop => .normal

/-- Every level of confidence lies between zero and one, so a descriptor keeps the one it is given. -/
theorem clamp_levels : ∀ level ∈ Confidence.levels, level.clamp 0 1 = level := by
  decide +kernel

/-- The motion in the last direction, for an utterance that asks for a repetition. -/
theorem repetition?_eq (normalized : String) (c : Context) : repetition? normalized c =
    if asksToRepeat normalized then
      c.lastDirection.map fun direction =>
        ⟨.move (.toward direction (repeatStyle c direction)), Confidence.ellipsis, normalized⟩
    else none := by
  have hstyle (direction : Direction) :
      (if direction.isLateral then c.lastTurnStyle.moveStyle else .normal) =
        repeatStyle c direction := by
    cases direction <;> rfl
  have hmake (command : Command) : Descriptor.make command Confidence.ellipsis normalized =
      ⟨command, Confidence.ellipsis, normalized⟩ := by
    rw [Descriptor.make, clamp_levels _ (by simp [Confidence.levels])]
  cases hasks : asksToRepeat normalized with
  | false =>
    rw [repetition?, hasks]
    rfl
  | true =>
    cases hdirection : c.lastDirection with
    | none =>
      rw [repetition?, hasks, hdirection]
      rfl
    | some direction =>
      rw [repetition?, hasks, hdirection, if_pos rfl, Option.map_some, ← hstyle]
      exact congrArg some (hmake _)

section Analyze

variable {i : Interpreter} {utterance : String}

/-- The clauses that an interpreter cuts an utterance into. -/
def clausesOf (i : Interpreter) (utterance : String) : List String :=
  Clause.segment (i.lexicon.normalize utterance)

theorem utterance_analyze : (i.analyze utterance c).1.utterance = utterance := by
  simp only [analyze]

theorem normalized_analyze :
    (i.analyze utterance c).1.normalized = i.lexicon.normalize utterance := by
  simp only [analyze]

theorem clauses_analyze : (i.analyze utterance c).1.clauses = i.clausesOf utterance := by
  simp only [analyze, clausesOf]

theorem context_analyze : (i.analyze utterance c).2 =
    (classifyAll i.settings.zoomStep (i.clausesOf utterance) c).2 := by
  simp only [analyze, clausesOf]

theorem descriptors_of_known
    (h : (classifyAll i.settings.zoomStep (i.clausesOf utterance) c).1.all Descriptor.isUnknown =
      false) :
    (i.analyze utterance c).1.descriptors =
      (classifyAll i.settings.zoomStep (i.clausesOf utterance) c).1 := by
  simp only [analyze, clausesOf] at h ⊢
  rw [h]
  rfl

theorem descriptors_of_unknown
    (h : (classifyAll i.settings.zoomStep (i.clausesOf utterance) c).1.all Descriptor.isUnknown =
      true) :
    (i.analyze utterance c).1.descriptors =
      [(repetition? (i.lexicon.normalize utterance) (i.analyze utterance c).2).getD
        (.unknown (trimString utterance))] := by
  simp only [analyze, clausesOf] at h ⊢
  rw [h]
  rfl

/-- Where no clause was understood, the one descriptor is a motion or unknown. -/
theorem motion_or_unknown
    (h : (classifyAll i.settings.zoomStep (i.clausesOf utterance) c).1.all Descriptor.isUnknown =
      true) :
    ∃ d, (i.analyze utterance c).1.descriptors = [d] ∧
      (d.command = .unknown ∨ ∃ m, d.command = .move m) := by
  refine ⟨_, descriptors_of_unknown h, ?_⟩
  rw [repetition?_eq]
  split
  · cases (i.analyze utterance c).2.lastDirection with
    | none => exact Or.inl rfl
    | some direction => exact Or.inr ⟨_, rfl⟩
  · exact Or.inl rfl

end Analyze

/-- Some utterances and their canonical forms. -/
theorem normalize_spoken : ∀ p ∈ [("left", "left"), ("stop", "stop"), ("go, (STOP!)", "go, (stop!)"),
    ("hit e-stop", "hit e-stop"), ("go e-stop", "go e-stop"),
    ("go left for 2 seconds then wait 2 seconds then stop",
      "go left for 2 seconds then wait 2 seconds then stop")], Lexicon.builtin.normalize p.1 = p.2 := by
  decide +kernel

end Teleop.Interpreter
