import Teleop.Proofs.Classification.Cascade
import Teleop.Proofs.Command.WellFormed
import Teleop.Proofs.Quantity.Magnitude

/-!
# Clauses are turned into well-formed commands

The commands of a rule are well formed because the quantity of a clause is a magnitude and no word names
a stop as a direction. A rule that applies has found a word in the clause, so the clause that its
descriptors name as their source is not empty.
-/

namespace Teleop

open Numeric

theorem View.direction?_ne_stop {v : View} {direction : Direction} (h : v.direction? = some direction) :
    direction ≠ .stop := by
  obtain ⟨word, -, hword⟩ := List.exists_of_findSome?_eq_some h
  rintro rfl
  simp only [directionOf?] at hword
  split at hword
  · cases hword
  split at hword
  · cases hword
  split at hword
  · cases hword
  split at hword <;> cases hword

namespace Rule

variable {zoomStep : Binary64} {v : View} {rule : Rule} {cmds : List Command}

theorem isMagnitude_rotationDegrees {degrees : Binary64} (hv : v.quantity.IsMagnitude)
    (h : rotationDegrees? v = some degrees) : degrees.IsMagnitude := by
  unfold rotationDegrees? at h
  split at h
  · exact hv.asDegrees h
  · split at h
    · simp only [Option.some.injEq] at h
      subst h
      exact Binary.isMagnitude_ofNat _
    · simp at h

/-- The commands of a rule, where the quantity of the clause is a magnitude. -/
theorem isWellFormed_of_commands? (hv : v.quantity.IsMagnitude)
    (h : commands? zoomStep v rule = some cmds) : ∀ cmd ∈ cmds, cmd.IsWellFormed := by
  cases rule with
  | safety =>
    simp only [commands?, Option.ite_none_right_eq_some, Option.some.injEq] at h
    obtain ⟨-, rfl⟩ := h
    simp [Command.IsWellFormed]
  | stop =>
    simp only [commands?, Option.ite_none_right_eq_some, Option.some.injEq] at h
    obtain ⟨-, rfl⟩ := h
    simpa [Command.IsWellFormed] using Motion.isWellFormed_stop
  | speed =>
    obtain ⟨value, hvalue, hunit⟩ := Option.bind_eq_some_iff.mp (of_guard_bind h)
    cases of_guard_bind hunit
    simpa [Command.IsWellFormed] using Quantity.isWithin_clampPercent (hv value hvalue).number
  | wait =>
    obtain ⟨t, -, hcmds⟩ := Option.bind_eq_some_iff.mp (of_guard_bind h)
    cases hcmds
    simp [Command.IsWellFormed]
  | timedMove =>
    obtain ⟨t, -, htimed⟩ := Option.bind_eq_some_iff.mp (of_guard_bind h)
    obtain ⟨direction, hdirection, hcmds⟩ := Option.bind_eq_some_iff.mp htimed
    cases hcmds
    have hmotion : ((Motion.toward direction v.moveStyle).withDuration t).IsWellFormed :=
      Motion.isWellFormed_withDuration (View.direction?_ne_stop hdirection) t
    simpa [Command.IsWellFormed] using ⟨hmotion, Motion.isWellFormed_stop⟩
  | distanceMove =>
    obtain ⟨direction, hdirection, hdistance⟩ := Option.bind_eq_some_iff.mp h
    obtain ⟨meters, hmeters, hcmds⟩ := Option.bind_eq_some_iff.mp hdistance
    cases hcmds
    have hmotion : ((Motion.toward direction v.moveStyle).withDistance meters).IsWellFormed :=
      Motion.isWellFormed_withDistance (View.direction?_ne_stop hdirection) (hv.asMeters hmeters)
    simpa [Command.IsWellFormed] using hmotion
  | rotate =>
    obtain ⟨degrees, hdegrees, hcmds⟩ := Option.bind_eq_some_iff.mp h
    cases hcmds
    simpa [Command.IsWellFormed] using isMagnitude_rotationDegrees hv hdegrees
  | turn =>
    obtain ⟨side, -, hcmds⟩ := Option.bind_eq_some_iff.mp (of_guard_bind h)
    cases hcmds
    simp [Command.IsWellFormed]
  | cardinalMove =>
    obtain ⟨direction, hdirection, hcmds⟩ := Option.bind_eq_some_iff.mp h
    cases hcmds
    have hmotion : (Motion.toward direction v.moveStyle).IsWellFormed :=
      Motion.isWellFormed_toward (View.direction?_ne_stop hdirection)
    simpa [Command.IsWellFormed] using hmotion
  | accessory =>
    intro cmd hcmd
    rcases (yields_of_commands? h).2 cmd hcmd with ⟨action, rfl⟩ | rfl | rfl | rfl | rfl <;> trivial

theorem confidence_mem_levels (rule : Rule) : rule.confidence ∈ Confidence.levels := by
  cases rule <;> simp [confidence, Confidence.levels]

/-- No rule applies to an empty clause. -/
theorem commands?_empty (zoomStep : Binary64) (rule : Rule) :
    commands? zoomStep (.ofClause "") rule = none := by
  cases rule <;> rfl

end Rule

/-- The descriptors of a clause are well formed. -/
theorem isWellFormed_classify {zoomStep : Binary64} {clause : String} {c : Context} {d : Descriptor}
    (hd : d ∈ (classify zoomStep clause c).1) : d.IsWellFormed := by
  rcases classify_cases zoomStep clause c with ⟨rule, hrule⟩ | hunknown
  · obtain ⟨cmds, hcmds, houtcome⟩ := Rule.exists_of_apply hrule
    rw [houtcome] at hd
    obtain ⟨cmd, hcmd, rfl⟩ := List.mem_map.mp hd
    refine ⟨Descriptor.isWithin_make (Confidence.number_of_mem_levels rule.confidence_mem_levels), fun _ hraw => ?_, ?_⟩
    · obtain rfl : clause = "" := hraw
      rw [Rule.commands?_empty] at hcmds
      cases hcmds
    · exact Rule.isWellFormed_of_commands? (Quantity.isMagnitude_extract clause) hcmds cmd hcmd
  · rw [hunknown, List.mem_singleton] at hd
    rw [hd]
    exact Descriptor.isWellFormed_unknown clause

end Teleop
