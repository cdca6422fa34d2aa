import Teleop.Classification.Cascade
import Teleop.Proofs.Context.Replay

/-!
# What the rules of the cascade yield

A rule makes commands of a clause without looking at the context (`Rule.commands?`); its confidence and
the clause go into their descriptors, and the context after them is the one that the commands leave
(`Rule.apply_eq`). `Rule.Yields` lists, rule by rule, the commands a clause can be turned into. What the
library needs to know about single clauses is read off these: which clauses ask for an emergency stop,
that a stop word never goes unheard, and that the bracket of a timed motion is closed within its clause.
-/

namespace Teleop

open Numeric

namespace Rule

/-- The confidence that a rule has in its commands. -/
def confidence : Rule → Binary32
  | safety => Confidence.safety
  | stop => Confidence.stop
  | speed | wait | timedMove | distanceMove => Confidence.quantified
  | rotate | turn => Confidence.directional
  | cardinalMove => Confidence.cardinal
  | accessory => Confidence.accessory

/-- The commands that a rule makes of a clause, if it applies. The context has no part in it. -/
def commands? (zoomStep : Binary64) (v : View) : Rule → Option (List Command)
  | safety =>
    if v.has safetyWords || v.hasPhrase safetyPhrases then some [.emergencyStop] else none
  | stop => if v.has stopWords then some [.move .stop] else none
  | speed => do
    guard (v.has speedWords)
    let value ← v.quantity.value
    guard (v.quantity.unit = none ∨ v.quantity.unit = some .percent)
    return [.speed (Quantity.clampPercent value)]
  | wait => do
    guard (v.has waitWords)
    return [.wait (← v.quantity.asMillis?)]
  | timedMove => do
    guard (v.has durationWords)
    let duration ← v.quantity.asMillis?
    let direction ← v.direction?
    return [.move ((Motion.toward direction v.moveStyle).withDuration duration), .wait duration,
      .move .stop]
  | distanceMove => do
    let direction ← v.direction?
    let meters ← v.quantity.asMeters?
    return [.move ((Motion.toward direction v.moveStyle).withDistance meters)]
  | rotate => do return [.rotate ⟨v.spin, ← rotationDegrees? v, true⟩]
  | turn => do
    guard (v.has turnWords)
    return [.turn (← v.side?) v.turnStyle]
  | cardinalMove => do return [.move (.toward (← v.direction?) v.moveStyle)]
  | accessory =>
    match accessoryCommands zoomStep v with
    | [] => none
    | cmds => some cmds

/-- The commands that a rule can make of a clause. -/
def Yields : Rule → List Command → Prop
  | safety, cmds => cmds = [.emergencyStop]
  | stop, cmds => cmds = [.move .stop]
  | speed, cmds => ∃ percent, cmds = [.speed percent]
  | wait, cmds => ∃ t, cmds = [.wait t]
  | timedMove, cmds => ∃ direction style t,
      cmds = [.move ((Motion.toward direction style).withDuration t), .wait t, .move .stop]
  | distanceMove, cmds => ∃ direction style meters,
      cmds = [.move ((Motion.toward direction style).withDistance meters)]
  | rotate, cmds => ∃ r, cmds = [.rotate r]
  | turn, cmds => ∃ side style, cmds = [.turn side style]
  | cardinalMove, cmds => ∃ direction style, cmds = [.move (.toward direction style)]
  | accessory, cmds => cmds ≠ [] ∧ ∀ cmd ∈ cmds,
      (∃ action, cmd = .camera action) ∨ cmd = .siren ∨ cmd = .lights ∨ cmd = .spray ∨ cmd = .taser

variable {zoomStep : Binary64} {v : View} {c c' : Context} {ds : List Descriptor}

theorem mem_accessoryCommands {cmd : Command} (h : cmd ∈ accessoryCommands zoomStep v) :
    (∃ action, cmd = .camera action) ∨ cmd = .siren ∨ cmd = .lights ∨ cmd = .spray ∨
      cmd = .taser := by
  simp only [accessoryCommands, List.mem_append, List.mem_map] at h
  rcases h with (((⟨action, -, rfl⟩ | h) | h) | h) | h
  · exact Or.inl ⟨action, rfl⟩
  all_goals
    split at h
    · simp at h
      simp [h]
    · simp at h

theorem map_command_describe (cmds : List Command) (confidence : Binary32) :
    (cmds.map (v.describe · confidence)).map (·.command) = cmds := by
  rw [List.map_map]
  exact List.map_id cmds

theorem map_bind_eq {α β γ : Type} {o : Option α} {k : α → Option γ} {k' : α → Option β}
    {f : β → γ} (h : ∀ a, k a = (k' a).map f) : (o >>= k) = (o >>= k').map f := by
  cases o with
  | none => rfl
  | some a => exact h a

/-- A rule describes the commands it makes with its confidence and the clause, and the context after it
is the one that these commands leave. -/
theorem apply_eq (zoomStep : Binary64) (v : View) (c : Context) (rule : Rule) :
    apply zoomStep v c rule = (commands? zoomStep v rule).map fun cmds =>
      (cmds.map (v.describe · rule.confidence), c.replay cmds) := by
  cases rule with
  | safety =>
    simp only [apply, applySafety, commands?]
    split <;> rfl
  | stop =>
    simp only [apply, applyStop, commands?]
    split <;> rfl
  | speed => exact map_bind_eq fun _ => map_bind_eq fun _ => map_bind_eq fun _ => rfl
  | wait => exact map_bind_eq fun _ => map_bind_eq fun _ => rfl
  | timedMove =>
    refine map_bind_eq fun _ => map_bind_eq fun t => map_bind_eq fun direction => ?_
    have hbracket : Command.isBracket (.move ((Motion.toward direction v.moveStyle).withDuration t))
        (.wait t) (.move .stop) = true :=
      Command.isBracket_iff.mpr ⟨_, t, _, rfl, rfl, rfl, rfl, rfl⟩
    simp only [Option.pure_def, Option.map_some, Context.replay_bracket hbracket]
    rfl
  | distanceMove => exact map_bind_eq fun _ => map_bind_eq fun _ => rfl
  | rotate =>
    refine map_bind_eq fun degrees => ?_
    simp only [Option.pure_def, Option.map_some]
    cases v.spin <;> rfl
  | turn =>
    refine map_bind_eq fun _ => map_bind_eq fun side => ?_
    cases side <;> rfl
  | cardinalMove => exact map_bind_eq fun _ => rfl
  | accessory =>
    have hidle : c.replay (accessoryCommands zoomStep v) = c := by
      refine Context.replay_of_idle fun cmd hcmd => ?_
      rcases mem_accessoryCommands hcmd with ⟨action, rfl⟩ | rfl | rfl | rfl | rfl <;>
        exact ⟨rfl, fun _ => rfl⟩
    simp only [apply, applyAccessory, commands?]
    cases hcmds : accessoryCommands zoomStep v with
    | nil => rfl
    | cons first rest =>
      rw [hcmds] at hidle
      simp only [Option.map_some, hidle]
      rfl

theorem exists_of_apply {rule : Rule} {outcome : Outcome}
    (h : apply zoomStep v c rule = some outcome) :
    ∃ cmds, commands? zoomStep v rule = some cmds ∧
      outcome = (cmds.map (v.describe · rule.confidence), c.replay cmds) := by
  rw [apply_eq, Option.map_eq_some_iff] at h
  obtain ⟨cmds, hcmds, houtcome⟩ := h
  exact ⟨cmds, hcmds, houtcome.symm⟩

theorem of_guard_bind {α : Type} {p : Prop} [Decidable p] {k : Unit → Option α} {a : α}
    (h : (guard p >>= k) = some a) : k () = some a := by
  rw [Option.bind_eq_bind, Option.bind_eq_some_iff] at h
  obtain ⟨_, -, hk⟩ := h
  exact hk

theorem guard_bind_of_not {α : Type} {p : Prop} [Decidable p] (h : ¬ p) {k : Unit → Option α} :
    (guard p >>= k) = none := by
  have hguard : (guard p : Option Unit) = none := if_neg h
  rw [hguard]
  rfl

theorem yields_of_commands? {rule : Rule} {cmds : List Command}
    (h : commands? zoomStep v rule = some cmds) : rule.Yields cmds := by
  cases rule with
  | safety | stop =>
    simp only [commands?, Option.ite_none_right_eq_some, Option.some.injEq] at h
    exact h.2.symm
  | speed =>
    obtain ⟨value, -, hvalue⟩ := Option.bind_eq_some_iff.mp (of_guard_bind h)
    cases of_guard_bind hvalue
    exact ⟨_, rfl⟩
  | wait =>
    obtain ⟨t, -, hcmds⟩ := Option.bind_eq_some_iff.mp (of_guard_bind h)
    cases hcmds
    exact ⟨t, rfl⟩
  | timedMove =>
    obtain ⟨t, -, htimed⟩ := Option.bind_eq_some_iff.mp (of_guard_bind h)
    obtain ⟨direction, -, hcmds⟩ := Option.bind_eq_some_iff.mp htimed
    cases hcmds
    exact ⟨direction, _, t, rfl⟩
  | distanceMove =>
    obtain ⟨direction, -, hdistance⟩ := Option.bind_eq_some_iff.mp h
    obtain ⟨meters, -, hcmds⟩ := Option.bind_eq_some_iff.mp hdistance
    cases hcmds
    exact ⟨direction, _, meters, rfl⟩
  | rotate =>
    obtain ⟨degrees, -, hcmds⟩ := Option.bind_eq_some_iff.mp h
    cases hcmds
    exact ⟨_, rfl⟩
  | turn =>
    obtain ⟨side, -, hcmds⟩ := Option.bind_eq_some_iff.mp (of_guard_bind h)
    cases hcmds
    exact ⟨side, _, rfl⟩
  | cardinalMove =>
    obtain ⟨direction, -, hcmds⟩ := Option.bind_eq_some_iff.mp h
    cases hcmds
    exact ⟨direction, _, rfl⟩
  | accessory =>
    simp only [commands?] at h
    split at h
    · simp at h
    · rename_i cmds' hne
      obtain rfl := Option.some.inj h
      exact ⟨hne, fun cmd => mem_accessoryCommands⟩

theorem yields_of_apply {rule : Rule} {outcome : Outcome}
    (h : apply zoomStep v c rule = some outcome) : rule.Yields (outcome.1.map (·.command)) := by
  obtain ⟨cmds, hcmds, rfl⟩ := exists_of_apply h
  rw [map_command_describe]
  exact yields_of_commands? hcmds

/-- A rule that applies has something to say, and knows what it says. -/
theorem Yields.known {rule : Rule} {cmds : List Command} (h : rule.Yields cmds) :
    cmds ≠ [] ∧ Command.unknown ∉ cmds := by
  cases rule with
  | accessory =>
    refine ⟨h.1, fun hmem => ?_⟩
    rcases h.2 _ hmem with ⟨action, he⟩ | he | he | he | he <;> cases he
  | safety | stop =>
    cases h
    simp
  | speed | wait | rotate =>
    obtain ⟨x, rfl⟩ := h
    simp
  | turn | cardinalMove =>
    obtain ⟨x, y, rfl⟩ := h
    simp
  | timedMove | distanceMove =>
    obtain ⟨x, y, z, rfl⟩ := h
    simp

/-- A rule leaves every bracket closed that it opens. -/
theorem Yields.isClosed {rule : Rule} {cmds : List Command} (h : rule.Yields cmds) :
    Token.IsClosed cmds := by
  cases rule with
  | timedMove =>
    obtain ⟨direction, style, t, rfl⟩ := h
    refine .bracket ?_ .nil
    exact Command.isBracket_iff.mpr ⟨_, t, _, rfl, rfl, rfl, rfl, rfl⟩
  | accessory =>
    apply Token.IsClosed.of_untimed
    intro cmd hcmd
    rcases h.2 cmd hcmd with ⟨action, rfl⟩ | rfl | rfl | rfl | rfl <;> rfl
  | distanceMove =>
    obtain ⟨direction, style, meters, rfl⟩ := h
    exact .cons rfl .nil
  | turn =>
    obtain ⟨side, style, rfl⟩ := h
    exact .cons rfl .nil
  | cardinalMove =>
    obtain ⟨direction, style, rfl⟩ := h
    exact .cons rfl .nil
  | speed | wait | rotate =>
    obtain ⟨x, rfl⟩ := h
    exact .cons rfl .nil
  | safety | stop =>
    cases h
    exact .cons rfl .nil

theorem Yields.eq_safety {rule : Rule} {cmds : List Command} (h : rule.Yields cmds)
    (hstop : Command.emergencyStop ∈ cmds) : rule = safety := by
  cases rule with
  | safety => rfl
  | accessory =>
    rcases h.2 _ hstop with ⟨action, he⟩ | he | he | he | he <;> cases he
  | stop =>
    cases h
    simp at hstop
  | speed | wait | rotate =>
    obtain ⟨x, rfl⟩ := h
    simp at hstop
  | turn | cardinalMove =>
    obtain ⟨x, y, rfl⟩ := h
    simp at hstop
  | timedMove | distanceMove =>
    obtain ⟨x, y, z, rfl⟩ := h
    simp at hstop

/-- The context does not bear on what a rule makes of a clause, only on the context after it. -/
theorem map_fst_apply (rule : Rule) :
    (apply zoomStep v c rule).map Prod.fst = (apply zoomStep v c' rule).map Prod.fst := by
  rw [apply_eq, apply_eq, Option.map_map, Option.map_map]
  rfl

end Rule

/-- Whether a clause asks for an emergency stop. -/
def View.isAlarm (v : View) : Bool :=
  v.has Rule.safetyWords || v.hasPhrase Rule.safetyPhrases

section Classify

variable {zoomStep : Binary64} {clause : String} {c : Context}

/-- A clause is turned into what one rule yields, or is unknown. -/
theorem classify_cases (zoomStep : Binary64) (clause : String) (c : Context) :
    (∃ rule, Rule.apply zoomStep (.ofClause clause) c rule = some (classify zoomStep clause c)) ∨
      classify zoomStep clause c = ([.unknown clause], c) := by
  rw [classify]
  cases h : Rule.cascade.findSome? (Rule.apply zoomStep (.ofClause clause) c) with
  | none => exact Or.inr rfl
  | some outcome =>
    obtain ⟨rule, -, hrule⟩ := List.exists_of_findSome?_eq_some h
    exact Or.inl ⟨rule, hrule⟩

/-- The descriptors of a clause: at least one, and all of them with the clause as their source. -/
theorem classify_group (zoomStep : Binary64) (clause : String) (c : Context) :
    (classify zoomStep clause c).1 ≠ [] ∧
      ∀ d ∈ (classify zoomStep clause c).1, d.raw = clause := by
  rcases classify_cases zoomStep clause c with ⟨rule, hrule⟩ | hunknown
  · obtain ⟨cmds, hcmds, houtcome⟩ := Rule.exists_of_apply hrule
    rw [houtcome]
    refine ⟨by simpa using (Rule.yields_of_commands? hcmds).known.1, fun d hd => ?_⟩
    obtain ⟨cmd, -, rfl⟩ := List.mem_map.mp hd
    rfl
  · rw [hunknown]
    refine ⟨by simp, fun d hd => ?_⟩
    rw [List.mem_singleton.mp hd]
    rfl

/-- A clause of which something is unknown is unknown as a whole and leaves the context alone. -/
theorem classify_of_unknown {d : Descriptor} (hd : d ∈ (classify zoomStep clause c).1)
    (hunknown : d.isUnknown = true) : classify zoomStep clause c = ([.unknown clause], c) := by
  rcases classify_cases zoomStep clause c with ⟨rule, hrule⟩ | hnone
  · have hmem := List.mem_map_of_mem (f := (·.command)) hd
    rw [show d.command = .unknown by simpa [Descriptor.isUnknown] using hunknown] at hmem
    exact absurd hmem (Rule.yields_of_apply hrule).known.2
  · exact hnone

theorem classify_of_isAlarm (h : (View.ofClause clause).isAlarm = true) :
    classify zoomStep clause c =
      ([(View.ofClause clause).describe .emergencyStop Confidence.safety], c) := by
  have hsafety : Rule.apply zoomStep (.ofClause clause) c .safety =
      some ([(View.ofClause clause).describe .emergencyStop Confidence.safety], c) := if_pos h
  rw [classify, Rule.cascade, List.findSome?_cons, hsafety]
  rfl

theorem classify_of_stop (hsafe : (View.ofClause clause).isAlarm = false)
    (h : (View.ofClause clause).has Rule.stopWords = true) :
    classify zoomStep clause c =
      ([(View.ofClause clause).describe (.move .stop) Confidence.stop], c.recordStop) := by
  have hsafety : Rule.apply zoomStep (.ofClause clause) c .safety = none := by
    refine if_neg ?_
    simpa [View.isAlarm] using hsafe
  have hstop : Rule.apply zoomStep (.ofClause clause) c .stop =
      some ([(View.ofClause clause).describe (.move .stop) Confidence.stop], c.recordStop) :=
    if_pos h
  rw [classify, Rule.cascade, List.findSome?_cons, hsafety, List.findSome?_cons, hstop]
  rfl

/-- Exactly the clauses with a safety cue become emergency stops. -/
theorem emergencyStop_mem_classify :
    Command.emergencyStop ∈ (classify zoomStep clause c).1.map (·.command) ↔
      (View.ofClause clause).isAlarm = true := by
  constructor
  · intro h
    rcases classify_cases zoomStep clause c with ⟨rule, hrule⟩ | hunknown
    · obtain rfl := (Rule.yields_of_apply hrule).eq_safety h
      simp only [Rule.apply, Rule.applySafety, Option.ite_none_right_eq_some] at hrule
      exact hrule.1
    · rw [hunknown] at h
      simp [Descriptor.unknown, Descriptor.make] at h
  · intro h
    rw [classify_of_isAlarm h]
    exact List.mem_singleton_self _

theorem isClosed_classify : Token.IsClosed ((classify zoomStep clause c).1.map (·.command)) := by
  rcases classify_cases zoomStep clause c with ⟨rule, hrule⟩ | hunknown
  · exact (Rule.yields_of_apply hrule).isClosed
  · rw [hunknown]
    exact .cons rfl .nil

/-- The descriptors of a clause do not depend on the context. -/
theorem classify_fst_congr (c c' : Context) :
    (classify zoomStep clause c).1 = (classify zoomStep clause c').1 := by
  have hmap (c : Context) : (classify zoomStep clause c).1 =
      (Rule.cascade.findSome? fun rule =>
        (Rule.apply zoomStep (.ofClause clause) c rule).map Prod.fst).getD [.unknown clause] := by
    have hcomp : (fun rule => (Rule.apply zoomStep (.ofClause clause) c rule).map Prod.fst) =
        Option.map Prod.fst ∘ Rule.apply zoomStep (.ofClause clause) c := rfl
    rw [classify, hcomp, ← List.map_findSome?]
    cases Rule.cascade.findSome? (Rule.apply zoomStep (.ofClause clause) c) <;> rfl
  rw [hmap c, hmap c']
  congr 2
  funext rule
  exact Rule.map_fst_apply rule

end Classify

end Teleop
