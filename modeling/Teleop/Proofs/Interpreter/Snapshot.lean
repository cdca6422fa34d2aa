import Teleop.Proofs.Context.Snapshot
import Teleop.Proofs.Interpreter.Invariant
import Teleop.Proofs.Interpreter.Rotation

/-!
# Sessions rebuilt from snapshots

Whatever was said in a session, the speed of its context is a percentage, and a percentage is finite. The
heading is a running sum and may leave the range of its format; once lost, it stays lost. So the snapshot
of a context that utterances lead to is restored exactly if the heading is finite, as long as the document
keeps finite numbers, and a session that is opened with what was restored answers as the first one would
have (`restore?_snapshot_of_isReachable`).
-/

namespace Teleop

open Numeric

/-! ## The heading as a running sum -/

namespace Context

variable {c : Context}

theorem isFinite_of_record {cmd : Command} (h : (c.record cmd).lastHeadingDegrees.isFinite = true) :
    c.lastHeadingDegrees.isFinite = true := by
  cases cmd with
  | rotate r =>
    obtain ⟨spin, degrees, relative⟩ := r
    cases spin <;> exact (Binary.isFinite_of_add h).1
  | _ => exact h

theorem isFinite_of_replay {cmds : List Command}
    (h : (c.replay cmds).lastHeadingDegrees.isFinite = true) :
    c.lastHeadingDegrees.isFinite = true := by
  induction cmds using Token.ofCommands.induct generalizing c with
  | case1 first second third rest ihBehind ih =>
    rw [replay] at h
    split at h
    · exact isFinite_of_record (ihBehind h)
    · exact isFinite_of_record (ih h)
  | case2 first rest hshort ih =>
    rw [replay] at h
    · exact isFinite_of_record (ih h)
    · exact hshort
  | case3 => exact h

/-! ## Contexts that utterances lead to -/

/-- A context that utterances lead to from the initial one, each read by an interpreter of its own. -/
inductive IsReachable : Context → Prop
  | initial : IsReachable .initial
  | analyze {c : Context} (i : Interpreter) (utterance : String) (before : IsReachable c) :
      IsReachable (i.analyze utterance c).2

namespace IsReachable

theorem contextAfter (h : c.IsReachable) (i : Interpreter) (utterances : List String) :
    (i.contextAfter utterances c).IsReachable := by
  induction utterances generalizing c with
  | nil => exact h
  | cons utterance rest ih =>
    rw [Interpreter.contextAfter_cons]
    exact ih (.analyze i utterance h)

theorem isSound (h : c.IsReachable) : c.IsSound := by
  induction h with
  | initial => exact isSound_initial
  | analyze i utterance _ ih => exact Interpreter.isSound_analyze ih

/-- The speed is a percentage, so it is finite. -/
theorem isFinite_speed (h : c.IsReachable) : c.lastSpeedPercent.isFinite = true :=
  Binary.isFinite_of_isWithin h.isSound.speed (Binary.isFinite_ofNat (by decide) (by decide))
    (Binary.isFinite_ofNat (by decide) (by decide))

/-- A heading that is not finite never becomes finite again. -/
theorem isFinite_of_contextAfter (h : c.IsReachable) {i : Interpreter} {utterances : List String}
    (hafter : (i.contextAfter utterances c).lastHeadingDegrees.isFinite = true) :
    c.lastHeadingDegrees.isFinite = true := by
  rw [Interpreter.contextAfter_replay h.isSound.direction] at hafter
  exact isFinite_of_replay hafter

end IsReachable

end Context

/-! ## Sessions -/

namespace Station

variable {s t : Station} {k : Nat} {c : Context}

/-- A session that is opened with the context of another answers as that one does. -/
theorem answers_openWith (hsame : t.interpreter = s.interpreter) (hk : s.contexts[k]? = some c)
    (utterances : List String) :
    (t.serve (.openWith c)).2.answers (utterances.map (.parse t.contexts.length)) =
      s.answers (utterances.map (.parse k)) := by
  have hopened : (t.serve (.openWith c)).2.contexts[t.contexts.length]? = some c := by
    simp [serve]
  have hinterpreter : (t.serve (.openWith c)).2.interpreter = t.interpreter := rfl
  rw [(conversation hopened utterances).1, (conversation hk utterances).1, hinterpreter, hsame]

end Station

namespace Context

/-- The snapshot of a context that utterances lead to gives the context back if its heading is finite;
where it is not, nothing is restored, then and later. What is restored continues the session. -/
theorem restore?_snapshot_of_isReachable {c : Context} (hc : c.IsReachable)
    (hspeed : Json.ReadsBack c.lastSpeedPercent) (hheading : Json.ReadsBack c.lastHeadingDegrees) :
    (c.lastHeadingDegrees.isFinite = true → restore? c.snapshot = some c) ∧
    (c.lastHeadingDegrees.isFinite = false → ∀ (i : Interpreter) (utterances : List String),
      restore? (i.contextAfter utterances c).snapshot = none) ∧
    ∀ restored, restore? c.snapshot = some restored →
      ∀ (s t : Station) (k : Nat), t.interpreter = s.interpreter → s.contexts[k]? = some c →
        ∀ utterances : List String,
          (t.serve (.openWith restored)).2.answers (utterances.map (.parse t.contexts.length)) =
            s.answers (utterances.map (.parse k)) := by
  have hkept (hfinite : c.lastHeadingDegrees.isFinite = true) : restore? c.snapshot = some c :=
    restore?_snapshot_eq_some_iff.mpr ⟨hspeed hc.isFinite_speed, hheading hfinite⟩
  refine ⟨hkept, fun hlost i utterances => restore?_snapshot_of_not_finite ?_, ?_⟩
  · cases hafter : (i.contextAfter utterances c).lastHeadingDegrees.isFinite with
    | false => rfl
    | true => exact absurd (hc.isFinite_of_contextAfter hafter) (by simp [hlost])
  · intro restored hrestored s t k hsame hk utterances
    cases hfinite : c.lastHeadingDegrees.isFinite with
    | false =>
      rw [restore?_snapshot_of_not_finite hfinite] at hrestored
      exact absurd hrestored (by simp)
    | true =>
      obtain rfl : c = restored := Option.some.inj ((hkept hfinite).symm.trans hrestored)
      exact Station.answers_openWith hsame hk utterances

theorem restore?_snapshot_rotated :
    (Interpreter.default.analyze "rotate 90 degrees" .initial).2 =
        { initial with lastHeadingDegrees := 90 } ∧
      IsReachable { initial with lastHeadingDegrees := 90 } ∧
      Json.ReadsBack defaultSpeedPercent ∧ Json.ReadsBack 90 ∧
      restore? (snapshot { initial with lastHeadingDegrees := 90 }) =
        some { initial with lastHeadingDegrees := 90 } := by
  have hdigits : IsDigits ['9', '0'] := ⟨by simp, by simp [isAsciiDigit_iff]⟩
  have hsum : (0 : Binary64) + Binary.ofInt (ofDigits ['9', '0']) = 90 :=
    Binary.ofInt_add_ofInt (m := 0) (n := 90) (by decide) (by decide)
  have hafter : (Interpreter.default.analyze "rotate 90 degrees" .initial).2 =
      { initial with lastHeadingDegrees := 90 } := by
    rw [← hsum]
    exact context_rotationRequest hdigits .initial
  have hreached := hafter ▸ IsReachable.initial.analyze .default "rotate 90 degrees"
  have hspeed : Json.ReadsBack defaultSpeedPercent := Json.readsBack_ofNat (by decide)
  have hheading : Json.ReadsBack 90 := Json.readsBack_ofNat (by decide)
  exact ⟨hafter, hreached, hspeed, hheading, (restore?_snapshot_of_isReachable hreached hspeed
    hheading).1 (Binary.isFinite_ofNat (by decide) (by decide))⟩

/-- The heading is lost to a rotation by a one with 342 zeros, and the context with it. -/
theorem restore?_snapshot_overlong :
    ¬ ∀ c : Context, c.IsReachable → Json.ReadsBack c.lastSpeedPercent →
      Json.ReadsBack c.lastHeadingDegrees → restore? c.snapshot = some c := by
  intro h
  have hone : IsDigits ['1'] := ⟨by simp, by simp [isAsciiDigit_iff]⟩
  have hdigits : IsDigits ('1' :: List.replicate 342 '0') := hone.append_zeros 342
  have hreached := IsReachable.initial.analyze .default (rotationRequest ('1' :: List.replicate 342 '0'))
  have hlost := not_isFinite_rotationRequest hdigits (two_pow_le_ofDigits_one_zeros (by decide)) .initial
  rw [context_rotationRequest hdigits] at hreached hlost
  have hspeed : Json.ReadsBack defaultSpeedPercent := Json.readsBack_ofNat (by decide)
  have hrestored := h _ hreached hspeed fun hfinite =>
    Bool.noConfusion (hlost.symm.trans hfinite)
  exact Option.some_ne_none _ (hrestored.symm.trans (restore?_snapshot_of_not_finite hlost))

end Context

end Teleop
