import Teleop.Proofs.Record.Fields
import Teleop.Record.Context

/-!
# Snapshots of contexts

A context is kept as the text of its document. Restoring it reads the text: the direction and the manner
of turning come back as they were, and the two numbers as what the document's notation makes of them
(`restore?_snapshot`). So a context is restored exactly if both numbers read back, which whole numbers of
at most fourteen digits do, and a heading that is not finite makes the text unreadable.
-/

namespace Teleop

open Numeric

namespace Context

def snapshot (c : Context) : String :=
  c.toJson.compactString

def restore? (text : String) : Option Context :=
  (Json.readString? text).bind ofJson?

variable {c : Context}

theorem isWellWritten_toJson (c : Context) : c.toJson.IsWellWritten := by
  refine Json.isWellWritten_ofMembers fun m hm => ?_
  simp only [members, List.mem_cons, List.not_mem_nil, or_false] at hm
  rcases hm with rfl | rfl | rfl | rfl
  · cases c.lastDirection with
    | none => exact .null
    | some direction => exact Json.isWellWritten_ofString _
  · exact Json.isWellWritten_ofBinary64 _
  · exact Json.isWellWritten_ofBinary64 _
  · exact Json.isWellWritten_ofString _

theorem nodup_names_members (c : Context) : (c.members.map Prod.fst).Nodup := by
  change fieldNames.Nodup
  decide

theorem fields_toJson (c : Context) :
    Fields.ofJson? fieldNames c.toJson = some ⟨c.members, false⟩ := by
  change (Json.ofMembers c.members).members?.bind (Fields.ofMembers? fieldNames) = _
  rw [Json.members?_ofMembers, Option.bind_some, Fields.ofMembers?,
    if_pos (Fields.isUnique_of_nodup c.nodup_names_members _)]

/-- What the document of a context is read as. -/
theorem ofJson?_toJson (c : Context) : ofJson? c.toJson =
    (Json.rewritten? c.lastSpeedPercent).bind fun speed =>
      (Json.rewritten? c.lastHeadingDegrees).map fun heading =>
        { c with lastSpeedPercent := speed, lastHeadingDegrees := heading } := by
  have hrequired (i : Nat) {name : String} {value : Json} {α : Type} {read : Json → Option α}
      (h : c.members[i]? = some (name, value)) :
      Fields.required? ⟨c.members, false⟩ name read = read value :=
    Fields.required?_of_mem c.nodup_names_members (List.mem_of_getElem? h) read
  have hdirection : Fields.optional? ⟨c.members, false⟩ "last_direction"
      (Json.asChoice? Json.isNull Direction.all Direction.name) = some c.lastDirection := by
    rw [Fields.optional?_of_mem c.nodup_names_members List.mem_cons_self]
    cases c.lastDirection with
    | none => rfl
    | some direction =>
      have hchoice : Json.asChoice? Json.isNull Direction.all Direction.name
          (.ofString direction.name) = some direction :=
        Json.asChoice?_ofString (by cases direction <;> rfl)
      exact congrArg (Option.map some) hchoice
  have hstyle : Json.asChoice? Json.isNull TurnStyle.all TurnStyle.name
      (.ofString c.lastTurnStyle.name) = some c.lastTurnStyle :=
    Json.asChoice?_ofString (by cases c.lastTurnStyle <;> rfl)
  rw [ofJson?, fields_toJson]
  simp only [Option.bind_eq_bind, Option.bind_some, Option.pure_def]
  rw [hdirection, hrequired 1 rfl, hrequired 2 rfl, hrequired 3 rfl, hstyle, ← Json.rewritten?,
    ← Json.rewritten?]
  cases Json.rewritten? c.lastSpeedPercent <;> cases Json.rewritten? c.lastHeadingDegrees <;> rfl

/-- What is restored from the snapshot of a context. -/
theorem restore?_snapshot (c : Context) : restore? c.snapshot =
    (Json.rewritten? c.lastSpeedPercent).bind fun speed =>
      (Json.rewritten? c.lastHeadingDegrees).map fun heading =>
        { c with lastSpeedPercent := speed, lastHeadingDegrees := heading } := by
  rw [restore?, snapshot, Json.readString?_compactString (isWellWritten_toJson c), Option.bind_some,
    ofJson?_toJson]

/-- A context is restored exactly if both of its numbers read back. -/
theorem restore?_snapshot_eq_some_iff : restore? c.snapshot = some c ↔
    Json.rewritten? c.lastSpeedPercent = some c.lastSpeedPercent ∧
      Json.rewritten? c.lastHeadingDegrees = some c.lastHeadingDegrees := by
  obtain ⟨direction, speed, heading, style⟩ := c
  rw [restore?_snapshot]
  cases Json.rewritten? speed <;> cases Json.rewritten? heading <;> simp

/-- Nothing is restored where the heading is not finite. -/
theorem restore?_snapshot_of_not_finite (h : c.lastHeadingDegrees.isFinite = false) :
    restore? c.snapshot = none := by
  rw [restore?_snapshot, Json.rewritten?_of_not_finite h]
  cases Json.rewritten? c.lastSpeedPercent <;> rfl

end Context

end Teleop
