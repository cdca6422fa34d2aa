import Teleop.Proofs.Interpreter.Conversation

/-!
# What a session remembers

The context of a session is the one that replaying its commands leaves: clause by clause
(`classify_snd`), utterance by utterance, and over a whole conversation (`contextAfter_eq_replay`). The
repetition of the last direction records nothing new, and an utterance that is not understood has no
command to record.
-/

namespace Teleop

open Numeric

/-- The context after a clause is the one that its commands leave. -/
theorem classify_snd (zoomStep : Binary64) (clause : String) (c : Context) :
    (classify zoomStep clause c).2 =
      c.replay ((classify zoomStep clause c).1.map (·.command)) := by
  rcases classify_cases zoomStep clause c with ⟨rule, hrule⟩ | hunknown
  · obtain ⟨cmds, -, houtcome⟩ := Rule.exists_of_apply hrule
    rw [houtcome, Rule.map_command_describe]
  · rw [hunknown]
    rfl

namespace Interpreter

variable {i : Interpreter} {utterance : String} {c : Context}

theorem classifyAll_snd (zoomStep : Binary64) (clauses : List String) (c : Context) :
    (classifyAll zoomStep clauses c).2 =
      c.replay ((classifyAll zoomStep clauses c).1.map (·.command)) := by
  induction clauses generalizing c with
  | nil => rfl
  | cons clause rest ih =>
    simp only [classifyAll]
    rw [List.map_append, Context.replay_append isClosed_classify, ← classify_snd, ih]

/-- The commands of a reading leave no bracket open. -/
theorem isClosed_analyze :
    Token.IsClosed ((i.analyze utterance c).1.descriptors.map (·.command)) := by
  cases hall : (classifyAll i.settings.zoomStep (i.clausesOf utterance) c).1.all
      Descriptor.isUnknown with
  | false =>
    rw [descriptors_of_known hall]
    exact isClosed_classifyAll
  | true =>
    rw [descriptors_of_unknown hall, repetition?_eq]
    split
    · cases (i.analyze utterance c).2.lastDirection <;> exact .cons rfl .nil
    · exact .cons rfl .nil

/-- The context after an utterance is the one that its commands leave. -/
theorem analyze_snd (hc : c.lastDirection ≠ some .stop) :
    (i.analyze utterance c).2 =
      c.replay ((i.analyze utterance c).1.descriptors.map (·.command)) := by
  cases hall : (classifyAll i.settings.zoomStep (i.clausesOf utterance) c).1.all
      Descriptor.isUnknown with
  | false => rw [descriptors_of_known hall, context_analyze, classifyAll_snd]
  | true =>
    have hafter : (i.analyze utterance c).2 = c := by
      rw [context_analyze, classifyAll_snd]
      refine Context.replay_of_idle fun cmd hcmd => ?_
      obtain ⟨d, hd, rfl⟩ := List.mem_map.mp hcmd
      have hunknown : d.command = .unknown := by
        simpa [Descriptor.isUnknown] using List.all_eq_true.mp hall d hd
      rw [hunknown]
      exact ⟨rfl, fun _ => rfl⟩
    rw [descriptors_of_unknown hall, hafter, repetition?_eq]
    split
    · cases hdirection : c.lastDirection with
      | none => rfl
      | some direction =>
        have hmoving : direction ≠ .stop := fun hstop => hc (by rw [hdirection, hstop])
        exact (Context.replay_repeated hdirection hmoving _).symm
    · rfl

theorem lastDirection_analyze (hc : c.lastDirection ≠ some .stop) :
    (i.analyze utterance c).2.lastDirection ≠ some .stop := by
  rw [analyze_snd hc]
  exact Context.lastDirection_replay hc _

theorem contextAfter_replay (hc : c.lastDirection ≠ some .stop) (utterances : List String) :
    i.contextAfter utterances c = c.replay (commandsOf (i.converse utterances c)) := by
  induction utterances generalizing c with
  | nil => rfl
  | cons utterance rest ih =>
    rw [contextAfter_cons, ih (lastDirection_analyze hc), converse_cons, commandsOf_cons,
      Context.replay_append isClosed_analyze, ← analyze_snd hc]

/-- The context of a session is the one that the commands of all its readings leave, in order, where it
started with no stop for a direction. -/
theorem contextAfter_eq_replay (i : Interpreter) (c : Context) (hc : c.lastDirection ≠ some .stop)
    (utterances : List String) :
    i.contextAfter utterances c = c.replay (commandsOf (i.converse utterances c)) ∧
    ∀ (s : Station) (k : Nat), s.interpreter = i → s.contexts[k]? = some c →
      s.answers (utterances.map (.parse k)) =
          (i.converse utterances c).map (fun (r, after) => .parsed r after) ∧
        (s.afterAll (utterances.map (.parse k))).contexts[k]? =
          some (c.replay (commandsOf (i.converse utterances c))) := by
  refine ⟨contextAfter_replay hc utterances, ?_⟩
  rintro s k rfl hk
  rw [← contextAfter_replay hc utterances]
  exact Station.conversation hk utterances

theorem contextAfter_eq_replay_repeated :
    Context.initial.lastDirection ≠ some .stop ∧
    default.contextAfter ["go left for 2 seconds", "again", "rotate 90 degrees"] .initial =
      Context.initial.replay (commandsOf
        (default.converse ["go left for 2 seconds", "again", "rotate 90 degrees"] .initial)) ∧
    (((Station.ofInterpreter default).serve .openSession).2.afterAll
        [.parse 0 "turn right", .parse 0 "again"]).contexts[0]? =
      some (Context.initial.replay (commandsOf
        (default.converse ["turn right", "again"] .initial))) :=
  ⟨nofun, (contextAfter_eq_replay default .initial nofun _).1,
    ((contextAfter_eq_replay default .initial nofun ["turn right", "again"]).2 _ 0 rfl rfl).2⟩

end Interpreter

end Teleop
