import Teleop.Proofs.Interpreter.Memory
import Teleop.Proofs.Interpreter.Request
import Teleop.Proofs.Numeric.Order

/-!
# Requests for a rotation

A request for a rotation by a whole number of degrees is understood whatever the number is: it is one
clause, and its command is the rotation by the number (`commands_rotationRequest`). So the heading moves by
what the digits denote (`context_rotationRequest`), and is lost where they denote more than the format has
numbers for (`not_isFinite_rotationRequest`).
-/

namespace Teleop

open Numeric Text

def rotationRequest (digits : List Char) : String :=
  String.ofList ("rotate ".toList ++ (digits ++ " degrees".toList))

def SpokenRequest.rotation : SpokenRequest where
  front := ["rotate"]
  mark := []
  behind := ["degrees"]
  spoken := by decide
  sign := SpokenRequest.sign_nil
  oneVerb := by decide

variable {digits : List Char}

theorem text_rotation (digits : List Char) : SpokenRequest.rotation.text digits = rotationRequest digits := by
  have hfront : SpokenRequest.rotation.leading = "rotate ".toList := by decide
  have hbehind : SpokenRequest.rotation.trailing = " degrees".toList := by decide
  refine congrArg String.ofList ?_
  rw [SpokenRequest.unwords_words, hfront, hbehind]

/-- The command of the request. -/
theorem commands_rotationRequest (hdigits : IsDigits digits) (zoomStep : Binary64) (c : Context) :
    (classify zoomStep (rotationRequest digits) c).1.map (·.command) =
      [.rotate ⟨.clockwise, Binary.ofInt (ofDigits digits), true⟩] := by
  have hheard (cues : List String) (heard : Bool)
      (hcues : cues.all (fun w => w.toList.all (!isAsciiDigit ·)) = true)
      (hwords : ["rotate", "degrees"].any cues.contains = heard) :
      (View.ofClause (SpokenRequest.rotation.text digits)).has cues = heard :=
    (SpokenRequest.has_text hdigits (isDigitless_of_all hcues)).trans hwords
  have hquiet := SpokenRequest.isQuiet_text (r := .rotation) hdigits (by decide)
  have hfor := hheard Rule.durationWords false (by decide) (by decide)
  have hdirection : (View.ofClause (SpokenRequest.rotation.text digits)).direction? = none :=
    SpokenRequest.direction?_text hdigits
  have hquantity := SpokenRequest.quantity_measured (r := .rotation) hdigits (u := .degrees) rfl rfl
  have hrotate := hheard Rule.rotateWords true (by decide) (by decide)
  have hdegrees := (Rule.rotationDegrees?_eq hquantity).trans (if_pos ⟨hrotate, rfl⟩)
  have hspin : (View.ofClause (SpokenRequest.rotation.text digits)).spin = .clockwise := by
    have hphrases := SpokenRequest.hasPhrase_of_foreign (r := .rotation) hdigits
      View.counterclockwisePhrases (by decide)
    rw [View.spin, hheard View.counterclockwiseWords false (by decide) (by decide), hphrases]
    rfl
  rw [← text_rotation, commands_classify, hquiet.commands_of_rotation hfor hdirection hdegrees, hspin]

/-- A request for a rotation moves the heading by what its digits denote. -/
theorem context_rotationRequest (hdigits : IsDigits digits) (c : Context) :
    (Interpreter.default.analyze (rotationRequest digits) c).2 =
      c.recordRotation (Binary.ofInt (ofDigits digits)) := by
  have hclauses : Interpreter.default.clausesOf (rotationRequest digits) = [rotationRequest digits] := by
    rw [← text_rotation]
    exact SpokenRequest.clausesOf_text hdigits
  have hsingle (zoomStep : Binary64) (clause : String) :
      (Interpreter.classifyAll zoomStep [clause] c).2 = (classify zoomStep clause c).2 := rfl
  rw [Interpreter.context_analyze, hclauses, hsingle, classify_snd, commands_rotationRequest hdigits]
  rfl

/-- After a rotation by more degrees than the format has numbers for, the heading is lost. -/
theorem not_isFinite_rotationRequest (hdigits : IsDigits digits)
    (hlarge : 2 ^ (binary64.width - binary64.unitShift) ≤ ofDigits digits) (c : Context) :
    (Interpreter.default.analyze (rotationRequest digits) c).2.lastHeadingDegrees.isFinite = false := by
  have hinfinite : (Binary.ofInt (ofDigits digits) : Binary64) = .infinite false :=
    Binary.ofInt_large hlarge
  rw [context_rotationRequest hdigits, hinfinite]
  cases hfinite : (c.recordRotation (.infinite false)).lastHeadingDegrees.isFinite with
  | false => rfl
  | true => exact Bool.noConfusion (Binary.isFinite_of_add hfinite).2

end Teleop
