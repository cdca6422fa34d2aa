import Teleop.Proofs.Context.Replay
import Teleop.Proofs.Numeric.Order

/-!
# Well-formed commands and sound contexts

What a consumer of commands may rely on. A motion has a manner exactly if it is not a stop, at most one
bound, and is relative exactly if it has one; distances and angles are magnitudes and percentages lie
between nought and a hundred. A context is sound if it remembers no stop as a direction and a speed that
is a percentage; well-formed commands keep it sound (`Context.IsSound.replay`).
-/

namespace Teleop

open Numeric

structure Motion.IsWellFormed (m : Motion) : Prop where
  style_iff : m.style.isSome = true ↔ m.direction ≠ .stop
  one_bound : m.distance = none ∨ m.duration = none
  relative_iff : m.relative = true ↔ m.distance.isSome = true ∨ m.duration.isSome = true
  unbounded_stop : m.direction = .stop → m.distance = none ∧ m.duration = none
  distance : ∀ meters, m.distance = some meters → meters.IsMagnitude

/-- What holds of every command that is made. -/
def Command.IsWellFormed : Command → Prop
  | .move m => m.IsWellFormed
  | .rotate r => r.relative = true ∧ r.degrees.IsMagnitude
  | .speed percent => percent.IsWithin 0 100
  | _ => True

structure Descriptor.IsWellFormed (d : Descriptor) : Prop where
  confidence : d.confidence.IsWithin 0 1
  raw : d.isUnknown = false → d.raw ≠ ""
  command : d.command.IsWellFormed

structure Context.IsSound (c : Context) : Prop where
  direction : c.lastDirection ≠ some .stop
  speed : c.lastSpeedPercent.IsWithin 0 100

/-! ## Motions -/

namespace Motion

variable {direction : Direction} {style : MoveStyle}

theorem isWellFormed_stop : stop.IsWellFormed where
  style_iff := by decide
  one_bound := Or.inl rfl
  relative_iff := by decide
  unbounded_stop := fun _ => ⟨rfl, rfl⟩
  distance := by simp [stop]

theorem isWellFormed_toward (h : direction ≠ .stop) : (toward direction style).IsWellFormed where
  style_iff := iff_of_true rfl h
  one_bound := Or.inl rfl
  relative_iff := by simp [toward]
  unbounded_stop := fun hstop => absurd hstop h
  distance := by simp [toward]

theorem isWellFormed_withDuration (h : direction ≠ .stop) (duration : Millis) :
    ((toward direction style).withDuration duration).IsWellFormed where
  style_iff := iff_of_true rfl h
  one_bound := Or.inl rfl
  relative_iff := by simp [withDuration]
  unbounded_stop := fun hstop => absurd hstop h
  distance := by simp [withDuration, toward]

theorem isWellFormed_withDistance (h : direction ≠ .stop) {meters : Binary64}
    (hmeters : meters.IsMagnitude) : ((toward direction style).withDistance meters).IsWellFormed where
  style_iff := iff_of_true rfl h
  one_bound := Or.inr rfl
  relative_iff := by simp [withDistance]
  unbounded_stop := fun hstop => absurd hstop h
  distance := by
    intro x hx
    obtain rfl := Option.some.inj hx
    exact hmeters

end Motion

/-! ## Descriptors -/

theorem Confidence.number_of_mem_levels {level : Binary32} (h : level ∈ levels) :
    level.isNaN = false := by
  have hall : levels = [99, 95, 90, 85, 85, 75, 40, 20].map hundredths := rfl
  rw [hall] at h
  obtain ⟨n, -, rfl⟩ := List.mem_map.mp h
  rw [hundredths, Binary.ofRatio]
  exact (Binary.isMagnitude_ofQuanta _ _).number

/-- A confidence is brought between nought and one. -/
theorem Descriptor.isWithin_make {command : Command} {confidence : Binary32} {raw : String}
    (h : confidence.isNaN = false) : (make command confidence raw).confidence.IsWithin 0 1 := by
  have hbounds : (0 : Binary32).le 1 = true :=
    Binary.ofNat_le_ofNat (by decide) (by decide) (by decide)
  simp only [make]
  exact Binary.isWithin_clamp h hbounds

theorem Descriptor.isWellFormed_unknown (raw : String) : (unknown raw).IsWellFormed where
  confidence := by
    have hnumber : Confidence.unknown.isNaN = false :=
      Confidence.number_of_mem_levels (by simp [Confidence.levels])
    rw [unknown]
    exact isWithin_make hnumber
  raw := by simp [isUnknown, unknown, make]
  command := trivial

/-! ## Contexts -/

namespace Context

variable {c : Context}

theorem isSound_initial : initial.IsSound where
  direction := nofun
  speed := ⟨Binary.ofNat_le_ofNat (by decide) (by decide) (by decide),
    Binary.ofNat_le_ofNat (by decide) (by decide) (by decide)⟩

theorem IsSound.record (h : c.IsSound) {cmd : Command} (hcmd : cmd.IsWellFormed) :
    (c.record cmd).IsSound where
  direction := lastDirection_record h.direction cmd
  speed := by
    cases cmd with
    | speed percent => exact hcmd
    | rotate r =>
      obtain ⟨spin, degrees, relative⟩ := r
      cases spin <;> exact h.speed
    | _ => exact h.speed

/-- Well-formed commands leave a sound context behind. -/
theorem IsSound.replay (h : c.IsSound) {cmds : List Command} (hcmds : ∀ cmd ∈ cmds, cmd.IsWellFormed) :
    (c.replay cmds).IsSound := by
  induction cmds using Token.ofCommands.induct generalizing c with
  | case1 first second third rest ihBehind ih =>
    have hfirst := h.record (hcmds first List.mem_cons_self)
    rw [Context.replay]
    split
    · exact ihBehind hfirst fun cmd hcmd => hcmds cmd (by simp [hcmd])
    · exact ih hfirst fun cmd hcmd => hcmds cmd (List.mem_cons_of_mem _ hcmd)
  | case2 first rest hshort ih =>
    rw [Context.replay]
    · exact ih (h.record (hcmds first List.mem_cons_self))
        fun cmd hcmd => hcmds cmd (List.mem_cons_of_mem _ hcmd)
    · exact hshort
  | case3 => exact h

end Context

end Teleop
