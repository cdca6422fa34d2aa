import Teleop.Proofs.Classification.View
import Teleop.Proofs.Interpreter.Reading

/-!
# The shape of a reading

A reading has one of two shapes. Either a clause was understood, and the descriptors are those of the
clauses, group by group; or none was, and one descriptor stands for the whole utterance: the repetition
of the last direction where the utterance asks for one, and else an unknown. A clause that was not
understood leaves the context alone, so in the second shape the context is the one of before.
-/

namespace Teleop.Interpreter

open Numeric Text

/-! ## Asking for a repetition -/

/-- The words of an utterance without the punctuation at their ends. -/
def bareWords (normalized : String) : List (List Char) :=
  (words normalized.toList).map View.bareWord

/-- One of the bare words asks for a repetition, or those of a phrase that does follow each other. -/
def HasRepeatCue (normalized : String) : Prop :=
  (∃ cue ∈ repeatWords, cue.toList ∈ bareWords normalized) ∨
    ∃ phrase ∈ repeatPhrases, words phrase.toList <:+: bareWords normalized

theorem space_not_mem_bareWords {normalized : String} : ∀ w ∈ bareWords normalized, ' ' ∉ w := by
  intro w hw hspace
  obtain ⟨v, hv, rfl⟩ := List.mem_map.mp hw
  exact (areWords_words _).space_not_mem v hv (mem_of_mem_trimBoth hspace)

theorem repeatPhrases_words : ∀ phrase ∈ repeatPhrases,
    words phrase.toList ≠ [] ∧ unwords (words phrase.toList) = phrase.toList := by
  decide

theorem asksToRepeat_iff {normalized : String} :
    asksToRepeat normalized = true ↔ HasRepeatCue normalized := by
  have hphrase : ∀ phrase ∈ repeatPhrases,
      (containsPhrase (unwords (bareWords normalized)) phrase.toList = true ↔
        words phrase.toList <:+: bareWords normalized) := by
    intro phrase hmem
    obtain ⟨hne, hwords⟩ := repeatPhrases_words phrase hmem
    rw [← containsPhrase_iff space_not_mem_bareWords hne (areWords_words _), hwords]
  have hword : (bareWords normalized).any (fun w => repeatWords.any (·.toList == w)) = true ↔
      ∃ cue ∈ repeatWords, cue.toList ∈ bareWords normalized := by
    simp only [List.any_eq_true, beq_iff_eq]
    constructor
    · rintro ⟨w, hw, cue, hcue, rfl⟩
      exact ⟨cue, hcue, hw⟩
    · rintro ⟨cue, hcue, hw⟩
      exact ⟨_, hw, cue, hcue, rfl⟩
  have hphrases : (repeatPhrases.any fun p =>
        containsPhrase (unwords (bareWords normalized)) p.toList) = true ↔
      ∃ phrase ∈ repeatPhrases, words phrase.toList <:+: bareWords normalized := by
    rw [List.any_eq_true]
    exact exists_congr fun phrase => and_congr_right (hphrase phrase)
  rw [HasRepeatCue, ← hword, ← hphrases, ← Bool.or_eq_true]
  rfl

/-! ## Clauses and their groups -/

/-- Clauses classified in order, each in the context that the one before it leaves. Each clause has a
group of its own: at least one descriptor, and all of them with the clause as their source. -/
inductive Classified (zoomStep : Binary64) :
    List String → Context → List (List Descriptor) → Context → Prop
  | nil (c : Context) : Classified zoomStep [] c [] c
  | cons {clause : String} {rest : List String} {c between after : Context}
      {group : List Descriptor} {groups : List (List Descriptor)}
      (hgroup : classify zoomStep clause c = (group, between)) (hne : group ≠ [])
      (hraw : ∀ d ∈ group, d.raw = clause) (hrest : Classified zoomStep rest between groups after) :
      Classified zoomStep (clause :: rest) c (group :: groups) after

variable {zoomStep : Binary64} {clause : String} {clauses : List String} {c c' after : Context}

theorem exists_classified (zoomStep : Binary64) (clauses : List String) (c : Context) :
    ∃ groups, Classified zoomStep clauses c groups (classifyAll zoomStep clauses c).2 ∧
      (classifyAll zoomStep clauses c).1 = groups.flatten := by
  induction clauses generalizing c with
  | nil => exact ⟨[], .nil c, rfl⟩
  | cons clause rest ih =>
    obtain ⟨groups, hclassified, hflatten⟩ := ih (classify zoomStep clause c).2
    obtain ⟨hne, hraw⟩ := classify_group zoomStep clause c
    refine ⟨(classify zoomStep clause c).1 :: groups, .cons rfl hne hraw hclassified, ?_⟩
    rw [classifyAll, List.flatten_cons, ← hflatten]

/-- A clause that is not understood is unknown and leaves the context alone. -/
theorem classify_of_not_understood (h : ¬ IsUnderstood zoomStep clause) (c : Context) :
    classify zoomStep clause c = ([.unknown clause], c) := by
  obtain ⟨d, hd⟩ := List.exists_mem_of_ne_nil _ (classify_group zoomStep clause c).1
  cases hunknown : d.isUnknown with
  | true => exact classify_of_unknown hd hunknown
  | false => exact absurd ⟨c, d, hd, hunknown⟩ h

theorem classifyAll_of_not_understood (h : ∀ clause ∈ clauses, ¬ IsUnderstood zoomStep clause)
    (c : Context) : classifyAll zoomStep clauses c = (clauses.map .unknown, c) := by
  induction clauses with
  | nil => rfl
  | cons clause rest ih =>
    rw [classifyAll, classify_of_not_understood (h clause List.mem_cons_self)]
    simp only
    rw [ih fun other hother => h other (List.mem_cons_of_mem _ hother)]
    rfl

/-! ## The two shapes -/

/-- A reading of which a clause was understood: its descriptors are the groups of its clauses in order,
and the context after it is the one behind its last clause. -/
structure ReadByClause (zoomStep : Binary64) (c : Context) (r : Reading) (after : Context)
    (groups : List (List Descriptor)) : Prop where
  classified : Classified zoomStep r.clauses c groups after
  known : ∃ group ∈ groups, ∃ d ∈ group, d.isUnknown = false
  descriptors : r.descriptors = groups.flatten

structure ReadAsWhole (zoomStep : Binary64) (c : Context) (r : Reading) (after : Context) :
    Prop where
  unheard : ∀ clause ∈ r.clauses, ∀ c', classify zoomStep clause c' = ([.unknown clause], c')
  context : after = c
  repeated : ∀ direction, HasRepeatCue r.normalized → c.lastDirection = some direction →
    r.descriptors =
      [⟨.move (.toward direction (repeatStyle c direction)), Confidence.ellipsis, r.normalized⟩]
  unknown : ¬ (HasRepeatCue r.normalized ∧ c.lastDirection.isSome) →
    r.descriptors = [.unknown (trimString r.utterance)]

theorem ReadByClause.exists_known {r : Reading} {groups : List (List Descriptor)}
    (h : ReadByClause zoomStep c r after groups) : ∃ d ∈ r.descriptors, d.isUnknown = false := by
  obtain ⟨group, hgroup, d, hd, hknown⟩ := h.known
  exact ⟨d, h.descriptors ▸ List.mem_flatten.mpr ⟨group, hgroup, hd⟩, hknown⟩

theorem ReadAsWhole.exists_singleton {r : Reading} (h : ReadAsWhole zoomStep c r after) :
    ∃ d, r.descriptors = [d] := by
  by_cases hrepeat : HasRepeatCue r.normalized ∧ c.lastDirection.isSome
  · obtain ⟨direction, hdirection⟩ := Option.isSome_iff_exists.mp hrepeat.2
    exact ⟨_, h.repeated direction hrepeat.1 hdirection⟩
  · exact ⟨_, h.unknown hrepeat⟩

theorem readByClause_of_known {i : Interpreter} {utterance : String}
    (h : (classifyAll i.settings.zoomStep (i.clausesOf utterance) c).1.all Descriptor.isUnknown =
      false) :
    ∃ groups, ReadByClause i.settings.zoomStep c (i.analyze utterance c).1
      (i.analyze utterance c).2 groups := by
  obtain ⟨groups, hclassified, hflatten⟩ :=
    exists_classified i.settings.zoomStep (i.clausesOf utterance) c
  obtain ⟨d, hd, hknown⟩ := List.all_eq_false.mp h
  rw [hflatten, List.mem_flatten] at hd
  obtain ⟨group, hgroup, hd⟩ := hd
  refine ⟨groups, ?_, ⟨group, hgroup, d, hd, by simpa using hknown⟩, ?_⟩
  · rw [clauses_analyze, context_analyze]
    exact hclassified
  · rw [descriptors_of_known h, hflatten]

theorem readAsWhole_of_unknown {i : Interpreter} {utterance : String}
    (h : (classifyAll i.settings.zoomStep (i.clausesOf utterance) c).1.all Descriptor.isUnknown =
      true) :
    ReadAsWhole i.settings.zoomStep c (i.analyze utterance c).1 (i.analyze utterance c).2 := by
  have hunheard : ∀ clause ∈ i.clausesOf utterance, ¬ IsUnderstood i.settings.zoomStep clause := by
    intro clause hclause hunderstood
    rw [not_all_unknown ⟨clause, hclause, hunderstood⟩] at h
    exact Bool.noConfusion h
  have hafter : (i.analyze utterance c).2 = c := by
    rw [context_analyze, classifyAll_of_not_understood hunheard]
  have hdescriptors : (i.analyze utterance c).1.descriptors =
      [(repetition? (i.lexicon.normalize utterance) c).getD (.unknown (trimString utterance))] := by
    rw [descriptors_of_unknown h, hafter]
  refine ⟨?_, hafter, ?_, ?_⟩
  · rw [clauses_analyze]
    exact fun clause hclause c' => classify_of_not_understood (hunheard clause hclause) c'
  · intro direction hcue hdirection
    rw [normalized_analyze] at hcue ⊢
    rw [hdescriptors, repetition?_eq, if_pos (asksToRepeat_iff.mpr hcue), hdirection]
    rfl
  · intro hneither
    rw [normalized_analyze, ← asksToRepeat_iff] at hneither
    have hnone : repetition? (i.lexicon.normalize utterance) c = none := by
      rw [repetition?_eq]
      split
      · rename_i hasks
        cases hdirection : c.lastDirection with
        | none => rfl
        | some direction => exact absurd ⟨hasks, by simp [hdirection]⟩ hneither
      · rfl
    rw [hdescriptors, hnone, utterance_analyze]
    rfl

/-- The shape of every reading: the texts of the stages, one of the two shapes, never without a
descriptor, not understood exactly where a single unknown stands for it, and then without a trace in
the context. -/
theorem analyze_shape (i : Interpreter) (utterance : String) (c : Context) :
    (i.analyze utterance c).1.utterance = utterance ∧
    (i.analyze utterance c).1.normalized = i.lexicon.normalize utterance ∧
    (i.analyze utterance c).1.clauses = Clause.segment (i.lexicon.normalize utterance) ∧
    ((∃ groups, ReadByClause i.settings.zoomStep c (i.analyze utterance c).1
        (i.analyze utterance c).2 groups) ∨
      ReadAsWhole i.settings.zoomStep c (i.analyze utterance c).1 (i.analyze utterance c).2) ∧
    (i.analyze utterance c).1.descriptors ≠ [] ∧
    ((i.analyze utterance c).1.isUnknown = true ↔
      ∃ d, (i.analyze utterance c).1.descriptors = [d] ∧ d.isUnknown = true) ∧
    ((i.analyze utterance c).1.isUnknown = true → (i.analyze utterance c).2 = c) := by
  refine ⟨utterance_analyze, normalized_analyze, clauses_analyze, ?_⟩
  cases hall : (classifyAll i.settings.zoomStep (i.clausesOf utterance) c).1.all
      Descriptor.isUnknown with
  | false =>
    obtain ⟨groups, hshape⟩ := readByClause_of_known hall
    obtain ⟨d, hd, hknown⟩ := hshape.exists_known
    have hunderstood : (i.analyze utterance c).1.isUnknown = false :=
      List.all_eq_false.mpr ⟨d, hd, by simp [hknown]⟩
    refine ⟨Or.inl ⟨groups, hshape⟩, List.ne_nil_of_mem hd, ?_, ?_⟩
    · refine iff_of_false (by simp [hunderstood]) ?_
      rintro ⟨d', hsingle, hunknown⟩
      rw [hsingle, List.mem_singleton] at hd
      rw [hd, hunknown] at hknown
      exact Bool.noConfusion hknown
    · intro hunknown
      rw [hunderstood] at hunknown
      exact Bool.noConfusion hunknown
  | true =>
    have hshape := readAsWhole_of_unknown hall
    obtain ⟨d, hd⟩ := hshape.exists_singleton
    refine ⟨Or.inr hshape, by simp [hd], ?_, fun _ => hshape.context⟩
    rw [Reading.isUnknown, hd]
    simp

/-- The memory of a session that last went left, sharply. -/
def wentLeft : Context :=
  { Context.initial with lastDirection := some .left, lastTurnStyle := .sharp }

theorem analyze_shape_hello :
    (default.analyze "hello there" wentLeft).1.isUnknown = true ∧
      (default.analyze "hello there" wentLeft).2 = wentLeft := by
  have hunknown : (default.analyze "hello there" wentLeft).1.isUnknown = true := by decide +kernel
  obtain ⟨-, -, -, -, -, -, hcontext⟩ := analyze_shape default "hello there" wentLeft
  exact ⟨hunknown, hcontext hunknown⟩

end Teleop.Interpreter
