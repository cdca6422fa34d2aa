import Teleop.Proofs.Classification.Trailing
import Teleop.Proofs.Interpreter.Lowering
import Teleop.Proofs.Lexicon.Slice

/-!
# Clauses said alone

A clause of a reading is a normalized text and is its own only clause, up to a full stop at its end that
a text of its own does not keep (`exists_clausesOf_alone`). So a clause that is understood is taken alone
for what it was taken for among the others. Said in the context before it, it repeats its part of the
reading (`analyze_alone`); all such clauses, said one after another, repeat the reading
(`converse_alone`).
-/

namespace Teleop.Interpreter

open Text Clause

section Understood

variable {zoomStep : Numeric.Binary64} {clause other : String}

theorem IsUnderstood.congr (h : IsUnderstood zoomStep clause)
    (hsame : ∀ c, (classify zoomStep clause c).1.map Descriptor.verdict =
      (classify zoomStep other c).1.map Descriptor.verdict) : IsUnderstood zoomStep other := by
  obtain ⟨c, d, hd, hknown⟩ := h
  have hmem : d.verdict ∈ (classify zoomStep other c).1.map Descriptor.verdict := by
    rw [← hsame]
    exact List.mem_map_of_mem hd
  obtain ⟨e, he, hverdict⟩ := List.mem_map.mp hmem
  have hcommand : e.command = d.command := (Prod.mk.inj hverdict).1
  exact ⟨c, e, he, by rw [← hknown, Descriptor.isUnknown, Descriptor.isUnknown, hcommand]⟩

/-- Of a clause that is understood nothing is unknown. -/
theorem IsUnderstood.filter_known (h : IsUnderstood zoomStep clause) (c : Context) :
    (classify zoomStep clause c).1.filter (!·.isUnknown) = (classify zoomStep clause c).1 := by
  refine List.filter_eq_self.mpr fun d hd => ?_
  rw [Bool.not_eq_true']
  refine Bool.eq_false_iff.mpr fun hunknown => ?_
  obtain ⟨c', e, he, hknown⟩ := h
  rw [classify_fst_congr c' c, classify_of_unknown hd hunknown, List.mem_singleton] at he
  rw [he] at hknown
  exact Bool.noConfusion hknown

/-- Spaces and full stops alone are not understood. -/
theorem not_isUnderstood_of_trailing {z : List Char} (hz : IsTrailing z) :
    ¬ IsUnderstood zoomStep (String.ofList z) := by
  rintro ⟨c, d, hd, hknown⟩
  have hmem : d.verdict ∈ [(Descriptor.unknown "").verdict] := by
    rw [← classify_of_trailing hz c]
    exact List.mem_map_of_mem hd
  have hcommand : d.command = .unknown := (Prod.mk.inj (List.mem_singleton.mp hmem)).1
  simp [Descriptor.isUnknown, hcommand] at hknown

end Understood

section Alone

variable {i : Interpreter} {utterance clause : String} {c : Context}

/-- A clause said alone has itself as its only clause, without a full stop at its end. -/
theorem exists_clausesOf_alone (hi : i.lexicon = .builtin) (h : clause ∈ i.clausesOf utterance)
    (hknown : IsUnderstood i.settings.zoomStep clause) :
    ∃ t z, clause = String.ofList (t ++ z) ∧ EndsSolid t ∧ IsTrailing z ∧
      i.clausesOf clause = [String.ofList t] := by
  have hnormal : i.lexicon.normalize clause = clause := by
    rw [clausesOf, hi] at h
    rw [hi]
    exact Lexicon.normalize_clause Lexicon.isApart_builtin Lexicon.hasCollapsedEntries_builtin
      Lexicon.isClearOfCuts_builtin h
  rw [clausesOf, hnormal]
  have hcollapsed := Lexicon.isCollapsed_clause h
  obtain ⟨a, b, hat⟩ := exists_isClauseAt h
  obtain ⟨l, rfl⟩ : ∃ l, clause = String.ofList l := ⟨_, (String.ofList_toList).symm⟩
  rw [String.toList_ofList] at hat hcollapsed
  by_cases hstop : l.getLast? = some '.'
  · obtain ⟨init, rfl⟩ : ∃ init, l = init ++ ['.'] := List.getLast?_eq_some_iff.mp hstop
    obtain ⟨t, gap, rfl, ht, hgap⟩ := exists_blanks_behind init
    rw [List.append_assoc] at hat hcollapsed hknown ⊢
    have hz : IsTrailing (gap ++ ['.']) := by
      intro d hd
      rcases List.mem_append.mp hd with hd | hd
      · exact Or.inl (eq_space_of_spacing hcollapsed.spaced d (by simp [hd]) (hgap d hd))
      · exact Or.inr (List.mem_singleton.mp hd)
    by_cases hnil : t = []
    · subst hnil
      exact absurd hknown (not_isUnderstood_of_trailing hz)
    · exact ⟨t, gap ++ ['.'], rfl, ht, hz, hat.segment_stop hnil ht hgap⟩
  · exact ⟨l, [], by rw [List.append_nil], hat.ends, by simp [IsTrailing], hat.segment_eq hstop⟩

/-- A clause that is understood is taken alone for what it is taken for among others. -/
theorem verdict_analyze_alone (hi : i.lexicon = .builtin) (h : clause ∈ i.clausesOf utterance)
    (hknown : IsUnderstood i.settings.zoomStep clause) (c : Context) :
    (i.analyze clause c).1.descriptors.map Descriptor.verdict =
        (classify i.settings.zoomStep clause c).1.map Descriptor.verdict ∧
      (i.analyze clause c).2 = (classify i.settings.zoomStep clause c).2 := by
  obtain ⟨t, z, rfl, ht, hz, halone⟩ := exists_clausesOf_alone hi h hknown
  have hbare := hknown.congr fun c => (classify_trailing hz ht c).1
  obtain ⟨hverdict, hafter⟩ := classify_trailing hz ht c
  have hone : classifyAll i.settings.zoomStep [String.ofList t] c =
      classify i.settings.zoomStep (String.ofList t) c := by
    simp only [classifyAll, List.append_nil]
  rw [descriptors_of_known (not_all_unknown ⟨_, by rw [halone]; exact List.mem_singleton_self _, hbare⟩),
    context_analyze, halone, hone]
  exact ⟨hverdict.symm, hafter.symm⟩

/-- An understood clause of a reading, said alone in the context before it, repeats its part of the
reading: the same commands in the same order, with the same confidence, and the same context after
them. -/
theorem analyze_alone (i : Interpreter) (hi : i.lexicon = .builtin) (utterance : String) (c : Context)
    (before behind : List String) (clause : String)
    (hclauses : (i.analyze utterance c).1.clauses = before ++ clause :: behind)
    (hknown : IsUnderstood i.settings.zoomStep clause) :
    ∃ between group after, between = (classifyAll i.settings.zoomStep before c).2 ∧
      classify i.settings.zoomStep clause between = (group, after) ∧
      (i.analyze utterance c).1.descriptors = (classifyAll i.settings.zoomStep before c).1 ++ group ++
        (classifyAll i.settings.zoomStep behind after).1 ∧
      (i.analyze utterance c).2 = (classifyAll i.settings.zoomStep behind after).2 ∧
      (∀ d ∈ group, d.raw = clause ∧ d.isUnknown = false) ∧
      (i.analyze clause between).1.descriptors.map Descriptor.verdict =
        group.map Descriptor.verdict ∧
      (i.analyze clause between).2 = after := by
  rw [clauses_analyze] at hclauses
  have hmem : clause ∈ i.clausesOf utterance := by simp [hclauses]
  have hsplit := classifyAll_append i.settings.zoomStep before (clause :: behind) c
  obtain ⟨between, hbetween⟩ : ∃ between, between = (classifyAll i.settings.zoomStep before c).2 :=
    ⟨_, rfl⟩
  obtain ⟨group, after, hgroup⟩ : ∃ group after,
    classify i.settings.zoomStep clause between = (group, after) := ⟨_, _, rfl⟩
  rw [← hclauses, ← hbetween, classifyAll, hgroup] at hsplit
  have halone := verdict_analyze_alone hi hmem hknown between
  rw [hgroup] at halone
  refine ⟨between, group, after, hbetween, hgroup, ?_, ?_, fun d hd => ⟨?_, ?_⟩, halone.1, halone.2⟩
  · rw [descriptors_of_known (not_all_unknown ⟨clause, hmem, hknown⟩), hsplit, List.append_assoc]
  · rw [context_analyze, hsplit]
  · have hraw := (classify_group i.settings.zoomStep clause between).2
    rw [hgroup] at hraw
    exact hraw d hd
  · have hfilter := hknown.filter_known between
    rw [hgroup] at hfilter
    simpa using List.filter_eq_self.mp hfilter d hd

theorem analyze_alone_stop :
    (default.analyze "go, (STOP!)" .initial).1.clauses = ["go"] ++ "(stop!)" :: [] ∧
    IsUnderstood default.settings.zoomStep "(stop!)" ∧
    ∃ between group after,
      classify default.settings.zoomStep "(stop!)" between = (group, after) ∧
      (default.analyze "(stop!)" between).1.descriptors.map Descriptor.verdict =
        group.map Descriptor.verdict ∧
      (default.analyze "(stop!)" between).2 = after := by
  have hnormal := normalize_spoken ("go, (STOP!)", "go, (stop!)") (by decide)
  have hclauses : (default.analyze "go, (STOP!)" .initial).1.clauses = ["go"] ++ "(stop!)" :: [] := by
    rw [clauses_analyze, clausesOf, default, hnormal]
    decide
  have hknown : IsUnderstood default.settings.zoomStep "(stop!)" := ⟨.initial, by decide⟩
  obtain ⟨between, group, after, -, hgroup, -, -, -, hverdict, hafter⟩ :=
    analyze_alone default rfl "go, (STOP!)" .initial ["go"] [] "(stop!)" hclauses hknown
  exact ⟨hclauses, hknown, between, group, after, hgroup, hverdict, hafter⟩

/-! ## All of them -/

def verdictsOf (readings : List (Reading × Context)) : List (Command × Numeric.Binary32) :=
  readings.flatMap fun (r, _) => r.descriptors.map Descriptor.verdict

theorem verdictsOf_cons (r : Reading × Context) (rest : List (Reading × Context)) :
    verdictsOf (r :: rest) = r.1.descriptors.map Descriptor.verdict ++ verdictsOf rest := by
  rw [verdictsOf, verdictsOf, List.flatMap_cons]

theorem converse_understood (hi : i.lexicon = .builtin) (clauses : List String)
    (h : ∀ clause ∈ clauses, clause ∈ i.clausesOf utterance) (c : Context) :
    verdictsOf (i.converse (clauses.filter (isUnderstood i.settings.zoomStep)) c) =
        ((classifyAll i.settings.zoomStep clauses c).1.filter (!·.isUnknown)).map
          Descriptor.verdict ∧
      i.contextAfter (clauses.filter (isUnderstood i.settings.zoomStep)) c =
        (classifyAll i.settings.zoomStep clauses c).2 := by
  induction clauses generalizing c with
  | nil => exact ⟨rfl, rfl⟩
  | cons clause rest ih =>
    have hrest := ih fun other hother => h other (List.mem_cons_of_mem _ hother)
    rw [classifyAll]
    cases hclause : isUnderstood i.settings.zoomStep clause with
    | true =>
      have hknown := isUnderstood_iff.mp hclause
      obtain ⟨hverdict, hafter⟩ := verdict_analyze_alone hi (h clause List.mem_cons_self) hknown c
      obtain ⟨hverdicts, hcontext⟩ := hrest (classify i.settings.zoomStep clause c).2
      rw [List.filter_cons_of_pos hclause, converse_cons, verdictsOf_cons, contextAfter_cons, hverdict,
        hafter, hverdicts, hcontext, List.filter_append, List.map_append, hknown.filter_known]
      exact ⟨rfl, rfl⟩
    | false =>
      have hunknown : ¬ IsUnderstood i.settings.zoomStep clause := fun hknown => by
        rw [isUnderstood_iff.mpr hknown] at hclause
        exact Bool.noConfusion hclause
      rw [List.filter_cons_of_neg (by simp [hclause]), classify_of_not_understood hunknown]
      exact hrest c

/-- The understood clauses of a reading, said one after another, repeat the reading up to what it does not
understand. -/
theorem converse_alone (i : Interpreter) (hi : i.lexicon = .builtin) (utterance : String) (c : Context)
    (h : ∃ clause ∈ (i.analyze utterance c).1.clauses, IsUnderstood i.settings.zoomStep clause) :
    verdictsOf (i.converse
        ((i.analyze utterance c).1.clauses.filter (isUnderstood i.settings.zoomStep)) c) =
      ((i.analyze utterance c).1.descriptors.filter (!·.isUnknown)).map Descriptor.verdict ∧
    i.contextAfter ((i.analyze utterance c).1.clauses.filter (isUnderstood i.settings.zoomStep)) c =
      (i.analyze utterance c).2 := by
  rw [clauses_analyze] at h ⊢
  rw [descriptors_of_known (not_all_unknown h), context_analyze]
  exact converse_understood hi _ (fun _ hclause => hclause) c

end Alone

end Teleop.Interpreter
