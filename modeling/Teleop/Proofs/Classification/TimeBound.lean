import Teleop.Proofs.Classification.WellFormed
import Teleop.Proofs.Quantity.Measured
import Teleop.Settings

/-!
# Motions with a spoken time bound

A clause has one quantity. Where a clause with a direction and the word `for` names a time, the time bounds
the motion if it is that quantity; but a percentage anywhere in the clause comes before it, and so does a
numeral with a unit in front of it. What is read then depends on the other unit: a length bounds the motion
as well, while a percentage or an angle leaves it open, unless the clause is a rotation or a turn
(`exists_outcome_of_time`).
-/

namespace Teleop

open Numeric Text

/-- A clause without a cue for safety, a stop, the speed or a wait. -/
structure View.IsQuiet (v : View) : Prop where
  safety : v.isAlarm = false
  stop : v.has Rule.stopWords = false
  speed : v.has Rule.speedWords = false
  wait : v.has Rule.waitWords = false

/-! ## The commands of a clause -/

section Commands

variable {zoomStep : Binary64} {clause : String} {c : Context} {v : View} {d : Direction}

/-- The commands of a clause are those of the first rule that makes any. -/
theorem commands_classify (zoomStep : Binary64) (clause : String) (c : Context) :
    (classify zoomStep clause c).1.map (·.command) =
      (Rule.cascade.findSome? (Rule.commands? zoomStep (.ofClause clause))).getD [.unknown] := by
  have hrule : Option.map (fun outcome => outcome.1.map (·.command)) ∘
      Rule.apply zoomStep (.ofClause clause) c = Rule.commands? zoomStep (.ofClause clause) := by
    funext rule
    rw [Function.comp_apply, Rule.apply_eq, Option.map_map]
    cases Rule.commands? zoomStep (.ofClause clause) rule with
    | none => rfl
    | some cmds => exact congrArg some (Rule.map_command_describe cmds rule.confidence)
  rw [classify, ← hrule, ← List.map_findSome?]
  cases Rule.cascade.findSome? (Rule.apply zoomStep (.ofClause clause) c) <;> rfl

/-- The rules that are left to a quiet clause. -/
theorem View.IsQuiet.findSome?_cascade (h : v.IsQuiet) :
    Rule.cascade.findSome? (Rule.commands? zoomStep v) =
      [Rule.timedMove, .distanceMove, .rotate, .turn, .cardinalMove, .accessory].findSome?
        (Rule.commands? zoomStep v) := by
  have hsafety : Rule.commands? zoomStep v .safety = none := by
    refine if_neg ?_
    simpa [View.isAlarm] using h.safety
  have hstop : Rule.commands? zoomStep v .stop = none := if_neg (by simp [h.stop])
  have hspeed : Rule.commands? zoomStep v .speed = none := Rule.guard_bind_of_not (by simp [h.speed])
  have hwait : Rule.commands? zoomStep v .wait = none := Rule.guard_bind_of_not (by simp [h.wait])
  rw [Rule.cascade, List.findSome?_cons, hsafety, List.findSome?_cons, hstop, List.findSome?_cons, hspeed,
    List.findSome?_cons, hwait]

theorem Rule.guard_bind_of {α : Type} {p : Prop} [Decidable p] (h : p) {k : Unit → Option α} :
    (guard p >>= k) = k () := by
  have hguard : (guard p : Option Unit) = some () := if_pos h
  rw [hguard]
  rfl

def View.turnSide? (v : View) : Option Side :=
  if v.has Rule.turnWords then v.side? else none

/-- What becomes of a quiet clause with a direction and the word for a bound in time: the first of the
quantities it needs decides. -/
theorem View.IsQuiet.commands_eq (h : v.IsQuiet) (hfor : v.has Rule.durationWords = true)
    (hdirection : v.direction? = some d) :
    (Rule.cascade.findSome? (Rule.commands? zoomStep v)).getD [.unknown] =
      (v.quantity.asMillis?.map fun t => [.move ((Motion.toward d v.moveStyle).withDuration t), .wait t,
        .move .stop]).getD
      ((v.quantity.asMeters?.map fun meters =>
        [.move ((Motion.toward d v.moveStyle).withDistance meters)]).getD
      (((Rule.rotationDegrees? v).map fun degrees => [.rotate ⟨v.spin, degrees, true⟩]).getD
      ((v.turnSide?.map fun side => [.turn side v.turnStyle]).getD
        [.move (.toward d v.moveStyle)]))) := by
  have htimed : Rule.commands? zoomStep v .timedMove = v.quantity.asMillis?.map fun t =>
      [.move ((Motion.toward d v.moveStyle).withDuration t), .wait t, .move .stop] := by
    rw [Rule.commands?, Rule.guard_bind_of hfor, hdirection]
    cases v.quantity.asMillis? <;> rfl
  have hdistance : Rule.commands? zoomStep v .distanceMove = v.quantity.asMeters?.map fun meters =>
      [.move ((Motion.toward d v.moveStyle).withDistance meters)] := by
    rw [Rule.commands?, hdirection]
    cases v.quantity.asMeters? <;> rfl
  have hrotate : Rule.commands? zoomStep v .rotate = (Rule.rotationDegrees? v).map fun degrees =>
      [.rotate ⟨v.spin, degrees, true⟩] := by
    rw [Rule.commands?]
    cases Rule.rotationDegrees? v <;> rfl
  have hturn : Rule.commands? zoomStep v .turn = v.turnSide?.map fun side =>
      [.turn side v.turnStyle] := by
    rw [Rule.commands?, View.turnSide?]
    cases hturn : v.has Rule.turnWords with
    | true =>
      rw [Rule.guard_bind_of rfl, if_pos rfl]
      cases v.side? <;> rfl
    | false => exact Rule.guard_bind_of_not Bool.false_ne_true
  have hcardinal : Rule.commands? zoomStep v .cardinalMove = some [.move (.toward d v.moveStyle)] := by
    rw [Rule.commands?, hdirection]
    rfl
  rw [h.findSome?_cascade, List.findSome?_cons, htimed, List.findSome?_cons, hdistance,
    List.findSome?_cons, hrotate, List.findSome?_cons, hturn, List.findSome?_cons, hcardinal]
  cases v.quantity.asMillis? with
  | some t => rfl
  | none =>
    cases v.quantity.asMeters? with
    | some meters => rfl
    | none =>
      cases Rule.rotationDegrees? v with
      | some degrees => rfl
      | none => cases v.turnSide? <;> rfl

/-- Without the word for a bound in time there is none. -/
theorem Rule.commands?_timedMove_eq_none (hfor : v.has durationWords = false) :
    commands? zoomStep v .timedMove = none :=
  guard_bind_of_not (by simp [hfor])

/-- A quiet clause with a direction and a length is a motion over it. -/
theorem View.IsQuiet.commands_of_distance (h : v.IsQuiet) (hfor : v.has Rule.durationWords = false)
    (hdirection : v.direction? = some d) {meters : Binary64} (hmeters : v.quantity.asMeters? = some meters) :
    (Rule.cascade.findSome? (Rule.commands? zoomStep v)).getD [.unknown] =
      [.move ((Motion.toward d v.moveStyle).withDistance meters)] := by
  have hmove : Rule.commands? zoomStep v .distanceMove =
      some [.move ((Motion.toward d v.moveStyle).withDistance meters)] := by
    rw [Rule.commands?, hdirection, hmeters]
    rfl
  rw [h.findSome?_cascade, List.findSome?_cons, Rule.commands?_timedMove_eq_none hfor,
    List.findSome?_cons, hmove]
  rfl

/-- A quiet clause with an angle and no direction is a rotation by it. -/
theorem View.IsQuiet.commands_of_rotation (h : v.IsQuiet) (hfor : v.has Rule.durationWords = false)
    (hdirection : v.direction? = none) {degrees : Binary64}
    (hdegrees : Rule.rotationDegrees? v = some degrees) :
    (Rule.cascade.findSome? (Rule.commands? zoomStep v)).getD [.unknown] =
      [.rotate ⟨v.spin, degrees, true⟩] := by
  have hdistance : Rule.commands? zoomStep v .distanceMove = none := by
    rw [Rule.commands?, hdirection]
    rfl
  have hrotate : Rule.commands? zoomStep v .rotate = some [.rotate ⟨v.spin, degrees, true⟩] := by
    rw [Rule.commands?, hdegrees]
    rfl
  rw [h.findSome?_cascade, List.findSome?_cons, Rule.commands?_timedMove_eq_none hfor,
    List.findSome?_cons, hdistance, List.findSome?_cons, hrotate]
  rfl

/-- A clause that names the speed and a percentage, and neither a danger nor a stop, sets the speed. -/
theorem commands_of_speed (hsafety : v.isAlarm = false) (hstop : v.has Rule.stopWords = false)
    (hspeed : v.has Rule.speedWords = true) {percent : Binary64}
    (hquantity : v.quantity = ⟨some percent, some .percent⟩) :
    (Rule.cascade.findSome? (Rule.commands? zoomStep v)).getD [.unknown] =
      [.speed (Quantity.clampPercent percent)] := by
  have halarm : Rule.commands? zoomStep v .safety = none := by
    refine if_neg ?_
    simpa [View.isAlarm] using hsafety
  have hnostop : Rule.commands? zoomStep v .stop = none := if_neg (by simp [hstop])
  have hset : Rule.commands? zoomStep v .speed = some [.speed (Quantity.clampPercent percent)] := by
    rw [Rule.commands?, Rule.guard_bind_of hspeed, hquantity]
    rfl
  rw [Rule.cascade, List.findSome?_cons, halarm, List.findSome?_cons, hnostop, List.findSome?_cons, hset]
  rfl

end Commands

/-! ## The quantity that decides -/

/-- The angle of a clause that has a number. -/
theorem Rule.rotationDegrees?_eq {v : View} {x : Binary64} {w : Measure}
    (h : v.quantity = ⟨some x, some w⟩) :
    rotationDegrees? v = if v.has rotateWords = true ∧ w = .degrees then some x else none := by
  rw [rotationDegrees?, h]
  cases v.has rotateWords with
  | true =>
    rw [if_pos rfl]
    cases w <;> rfl
  | false => simp

end Teleop
