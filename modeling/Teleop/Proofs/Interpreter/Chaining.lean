import Teleop.Proofs.Clause.Seam
import Teleop.Proofs.Interpreter.Reading
import Teleop.Proofs.Lexicon.Seam

/-!
# Utterances chained by `then`

Saying `u then v` is saying `u` and then `v`: under the built-in table every stage keeps the two apart.
The context goes from the one to the other as it does between clauses. Both utterances must have a
clause that is understood by itself, since the fallback to a repetition looks at an utterance as a
whole.
-/

namespace Teleop.Interpreter

open Text Clause

variable {i : Interpreter} {u v : String} {c : Context}

theorem normalize_ne_empty {clause : String} (h : clause ∈ i.clausesOf u) :
    i.lexicon.normalize u ≠ "" :=
  ne_empty_of_mem_segment h

/-- The clauses of two chained utterances. -/
theorem clausesOf_then (hl : i.lexicon.IsClearOfJoin) (hu : i.lexicon.normalize u ≠ "")
    (hv : i.lexicon.normalize v ≠ "") :
    i.clausesOf (u ++ " then " ++ v) = i.clausesOf u ++ i.clausesOf v := by
  have htext := Lexicon.normalize_then hl hu hv
  have hends : EndsSolid (i.lexicon.normalize u).toList := by
    rw [Lexicon.normalize, String.toList_ofList]
    exact endsSolid_collapse _
  have hbegins : BeginsSolid (i.lexicon.normalize v).toList := by
    rw [Lexicon.normalize, String.toList_ofList]
    exact beginsSolid_collapse _
  have hsegment := segment_joined hends hbegins
  rwa [← htext, String.ofList_toList, String.ofList_toList, String.ofList_toList] at hsegment

/-- The tokens of an utterance of which a clause is understood. -/
theorem tokens_of_understood
    (h : ∃ clause ∈ i.clausesOf u, IsUnderstood i.settings.zoomStep clause) :
    (i.analyze u c).1.tokens = Token.ofCommands
      ((classifyAll i.settings.zoomStep (i.clausesOf u) c).1.map (·.command)) := by
  have hknown := not_all_unknown (c := c) h
  obtain ⟨d, hd, hcommand⟩ := List.all_eq_false.mp hknown
  rw [Reading.tokens, descriptors_of_known hknown]
  refine Token.ofDescriptors_eq fun hnil => hcommand ?_
  have hunknown := Token.ofCommands_eq_nil_iff.mp hnil d.command (List.mem_map.mpr ⟨d, hd, rfl⟩)
  simpa [Descriptor.isUnknown] using hunknown

/-- Chaining by `then` is interpreting one utterance after the other. -/
theorem analyze_then (i : Interpreter) (hi : i.lexicon = .builtin) (u v : String) (c : Context)
    (hu : ∃ clause ∈ (i.analyze u c).1.clauses, IsUnderstood i.settings.zoomStep clause)
    (hv : ∃ clause ∈ (i.analyze v (i.analyze u c).2).1.clauses,
      IsUnderstood i.settings.zoomStep clause) :
    (i.analyze (u ++ " then " ++ v) c).1.clauses =
        (i.analyze u c).1.clauses ++ (i.analyze v (i.analyze u c).2).1.clauses ∧
      (i.analyze (u ++ " then " ++ v) c).1.descriptors =
        (i.analyze u c).1.descriptors ++ (i.analyze v (i.analyze u c).2).1.descriptors ∧
      (i.analyze (u ++ " then " ++ v) c).1.tokens =
        (i.analyze u c).1.tokens ++ (i.analyze v (i.analyze u c).2).1.tokens ∧
      (i.analyze (u ++ " then " ++ v) c).2 = (i.analyze v (i.analyze u c).2).2 := by
  rw [clauses_analyze] at hu hv
  have ⟨clause, hclause, hunderstood⟩ := hu
  have ⟨clause', hclause', _⟩ := hv
  have hclear : i.lexicon.IsClearOfJoin := by
    rw [hi]
    exact Lexicon.isClearOfJoin_builtin
  have hclauses : i.clausesOf (u ++ " then " ++ v) = i.clausesOf u ++ i.clausesOf v :=
    clausesOf_then hclear (normalize_ne_empty hclause) (normalize_ne_empty hclause')
  have hboth : ∃ clause ∈ i.clausesOf (u ++ " then " ++ v),
      IsUnderstood i.settings.zoomStep clause := by
    refine ⟨clause, ?_, hunderstood⟩
    rw [hclauses]
    exact List.mem_append_left _ hclause
  have hsplit := classifyAll_append i.settings.zoomStep (i.clausesOf u) (i.clausesOf v) c
  rw [← hclauses, ← context_analyze] at hsplit
  refine ⟨?_, ?_, ?_, ?_⟩
  · rw [clauses_analyze, hclauses, clauses_analyze, clauses_analyze]
  · rw [descriptors_of_known (not_all_unknown hboth), hsplit,
      descriptors_of_known (not_all_unknown hu), descriptors_of_known (not_all_unknown hv)]
  · rw [tokens_of_understood hboth, hsplit, List.map_append,
      isClosed_classifyAll.ofCommands_append, tokens_of_understood hu, tokens_of_understood hv]
  · have hafter : (i.analyze v (i.analyze u c).2).2 =
        (classifyAll i.settings.zoomStep (i.clausesOf v) (i.analyze u c).2).2 := context_analyze
    rw [hafter, context_analyze, hsplit]

theorem analyze_left_then_stop :
    (default.analyze ("left" ++ " then " ++ "stop") .initial).1.tokens =
      (default.analyze "left" .initial).1.tokens ++
        (default.analyze "stop" (default.analyze "left" .initial).2).1.tokens := by
  have hclauses {u : String} (hnormal : Lexicon.builtin.normalize u = u)
      (hwhole : Clause.segment u = [u]) : default.clausesOf u = [u] :=
    (congrArg Clause.segment hnormal).trans hwhole
  have hleft : "left" ∈ (default.analyze "left" .initial).1.clauses := by
    rw [clauses_analyze, hclauses (normalize_spoken ("left", "left") (by decide)) (by decide)]
    decide
  have hstop : "stop" ∈ (default.analyze "stop" (default.analyze "left" .initial).2).1.clauses := by
    rw [clauses_analyze, hclauses (normalize_spoken ("stop", "stop") (by decide)) (by decide)]
    decide
  have hu : IsUnderstood default.settings.zoomStep "left" := ⟨.initial, by decide⟩
  have hv : IsUnderstood default.settings.zoomStep "stop" := ⟨.initial, by decide⟩
  have h := analyze_then default rfl "left" "stop" .initial ⟨_, hleft, hu⟩ ⟨_, hstop, hv⟩
  exact h.2.2.1

end Teleop.Interpreter
