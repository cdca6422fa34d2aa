import Teleop.Proofs.Interpreter.Lowering
import Teleop.Proofs.Interpreter.Rotation
import Teleop.Proofs.Token.Number

/-!
# Numbers from the utterance to the wire

A number that is spoken in a request stands in the tokens as it is: a time in milliseconds, a distance in
meters, an angle in degrees, or a percentage that is brought into its range. Products, rounding and the
texts of numbers are exact up to the bounds that the format and the text of a number set.
-/

namespace Teleop

open Numeric Text

/-! ## The texts of tokens -/

namespace Token

variable {t : Token} {name label : String} {argument : List Char}

theorem text_of_argument (h : t.parts = (name, some argument))
    (hlabel : label.toList = name.toList ++ [':']) : t.text = label ++ String.ofList argument := by
  refine String.toList_inj.mp ?_
  rw [text, String.toList_ofList, chars, h, String.toList_append, String.toList_ofList, hlabel,
    List.append_assoc]
  rfl

theorem text_move (d : Direction) : (move d).text = "move." ++ d.name := by
  have hchars : (move d).chars = ("move." ++ d.name).toList := rfl
  rw [text, hchars, String.ofList_toList]

theorem text_moveDuration (t : Millis) :
    (moveDuration t).text = "move.duration:" ++ String.ofList (toDigits t.toNat) :=
  text_of_argument rfl (by decide)

theorem text_wait (t : Millis) : (wait t).text = "wait:" ++ String.ofList (toDigits t.toNat) :=
  text_of_argument rfl (by decide)

theorem text_moveDistance {n : Nat} (hn : n < 10 ^ (15 : Nat)) : (moveDistance (Binary.ofInt n)).text =
    "move.distance:" ++ String.ofList (toDigits n) ++ "m" := by
  have htext : (moveDistance (Binary.ofInt n)).text =
      "move.distance:" ++ String.ofList (numberText (Binary.ofInt n) ++ ['m']) :=
    text_of_argument rfl (by decide)
  have hmeter : String.ofList ['m'] = "m" := by decide
  rw [htext, numberText_ofInt hn, String.ofList_append, hmeter, String.append_assoc]

/-- A token whose argument is a whole number of at most fifteen digits has them behind its name. -/
theorem text_of_number {n : Nat} (hn : n < 10 ^ (15 : Nat))
    (h : t.parts = (name, some (numberText (Binary.ofInt n))))
    (hlabel : label.toList = name.toList ++ [':']) : t.text = label ++ String.ofList (toDigits n) := by
  rw [text_of_argument h hlabel, numberText_ofInt hn]

/-- A timed motion brings its own bracket, and the wait and the stop behind it are that of the bracket. -/
theorem ofCommands_timed (d : Direction) (style : MoveStyle) (t : Millis) :
    ofCommands [.move ((Motion.toward d style).withDuration t), .wait t, .move .stop] =
      [.move d, .moveDuration t, .wait t, .move .stop] := by
  have hbracket : (Command.move ((Motion.toward d style).withDuration t)).isBracket
      (.wait t) (.move .stop) = true :=
    Command.isBracket_iff.mpr ⟨_, t, _, rfl, rfl, rfl, rfl, rfl⟩
  exact ofCommands_bracket hbracket []

end Token

theorem Motion.tokens_withDistance (d : Direction) (style : MoveStyle) (x : Binary64) :
    ((toward d style).withDistance x).tokens = [.move d, .moveDistance x] := rfl

namespace Command

theorem tokens_rotate (r : Rotation) : (rotate r).tokens = [.rotate r.spin r.degrees] := rfl

theorem tokens_speed (percent : Binary64) : (speed percent).tokens = [.moveSpeed percent] := rfl

end Command

namespace SpokenRequest

variable {digits : List Char} {d : Direction}

/-! ## The requests -/

theorem name_mem_spokenWords (hd : d ≠ .stop) : d.name ∈ spokenWords := by
  cases d with
  | stop => exact absurd rfl hd
  | _ => decide

theorem not_isVerb_name (hd : d ≠ .stop) : Clause.actionVerbs.contains d.name = false := by
  cases d with
  | stop => exact absurd rfl hd
  | _ => decide

/-- A motion for some time. -/
def timedMotion (d : Direction) (hd : d ≠ .stop) (unit : String) (hunit : unit ∈ ["seconds", "minutes"]) :
    SpokenRequest where
  front := ["move", d.name, "for"]
  mark := []
  behind := [unit]
  spoken := by
    have hspoken : ∀ w ∈ ["move", "for", "seconds", "minutes"], w ∈ spokenWords := by decide
    intro w hw
    simp only [List.cons_append, List.nil_append, List.mem_cons, List.not_mem_nil, or_false] at hw
    rcases hw with rfl | rfl | rfl | rfl
    · exact hspoken _ (by simp)
    · exact name_mem_spokenWords hd
    · exact hspoken _ (by simp)
    · exact hspoken _ (List.mem_cons_of_mem _ (List.mem_cons_of_mem _ hunit))
  sign := sign_nil
  oneVerb := by
    have hmove : Clause.actionVerbs.contains "move" = true := by decide
    have hothers : ∀ w ∈ ["for", "seconds", "minutes"], Clause.actionVerbs.contains w = false := by decide
    rw [List.cons_append, List.cons_append, List.cons_append, List.nil_append, List.countP_cons,
      List.countP_cons, List.countP_cons, List.countP_singleton, hmove, not_isVerb_name hd,
      hothers "for" (by simp), hothers unit (List.mem_cons_of_mem _ hunit)]
    decide

/-- A motion over some meters. -/
def measuredMotion (d : Direction) (hd : d ≠ .stop) : SpokenRequest where
  front := ["move", d.name]
  mark := []
  behind := ["meters"]
  spoken := by
    intro w hw
    simp only [List.cons_append, List.nil_append, List.mem_cons, List.not_mem_nil, or_false] at hw
    rcases hw with rfl | rfl | rfl
    · decide
    · exact name_mem_spokenWords hd
    · decide
  sign := sign_nil
  oneVerb := by
    have hmove : Clause.actionVerbs.contains "move" = true := by decide
    have hmeters : Clause.actionVerbs.contains "meters" = false := by decide
    rw [List.cons_append, List.cons_append, List.nil_append, List.countP_cons, List.countP_cons,
      List.countP_singleton, hmove, not_isVerb_name hd, hmeters]
    decide

def speed : SpokenRequest where
  front := ["set", "speed"]
  mark := ['%']
  behind := []
  spoken := by decide
  sign := Or.inr rfl
  oneVerb := by decide

/-! ## The tokens of a request -/

section Tokens

variable {r : SpokenRequest} {unit : String} {n : Nat}

/-- A request is compiled to the tokens of its commands. -/
theorem compile_text (hdigits : IsDigits digits) {cmds : List Command}
    (hcommands : Interpreter.clauseCommands Settings.default.zoomStep (r.text digits) = cmds)
    (hknown : ∃ cmd ∈ cmds, cmd ≠ .unknown) :
    Interpreter.compile (r.text digits) = (Token.ofCommands cmds).map Token.text := by
  have hunderstood : Interpreter.IsUnderstood Settings.default.zoomStep (r.text digits) := by
    obtain ⟨cmd, hcmd, hne⟩ := hknown
    rw [← hcommands] at hcmd
    obtain ⟨descriptor, hmem, rfl⟩ := List.mem_map.mp hcmd
    exact ⟨.initial, descriptor, hmem, by simpa [Descriptor.isUnknown] using hne⟩
  have hclauses : Interpreter.default.clausesOf (r.text digits) = [r.text digits] := clausesOf_text hdigits
  have htokens : (Interpreter.default.analyze (r.text digits) .initial).1.tokens =
      (Interpreter.default.clausesOf (r.text digits)).flatMap
        (Interpreter.clauseTokens Settings.default.zoomStep) :=
    Interpreter.tokens_eq_flatMap ⟨_, by rw [hclauses]; exact List.mem_singleton_self _, hunderstood⟩
  rw [Interpreter.compile, Reading.wire, htokens, hclauses, List.flatMap_singleton,
    Interpreter.clauseTokens_eq, hcommands]

/-- A request of one command is compiled to the tokens of it. -/
theorem compile_text_single (hdigits : IsDigits digits) {cmd : Command} {tokens : List Token}
    (hcommands : Interpreter.clauseCommands Settings.default.zoomStep (r.text digits) = [cmd])
    (htokens : cmd.tokens = tokens) (hne : tokens ≠ []) :
    Interpreter.compile (r.text digits) = tokens.map Token.text := by
  have hknown : cmd ≠ .unknown := fun hunknown => hne (by rw [← htokens, hunknown]; rfl)
  have hsingle : Token.ofCommands [cmd] = cmd.tokens := List.append_nil _
  rw [compile_text hdigits hcommands ⟨cmd, List.mem_cons_self, hknown⟩, hsingle, htokens]

theorem directionOf?_name (hd : d ≠ .stop) : View.directionOf? d.name = some d := by
  cases d with
  | stop => exact absurd rfl hd
  | _ => rfl

theorem name_ne_speed (d : Direction) : d.name ≠ "speed" := by
  cases d <;> decide

/-- The direction is the first that the words in front of the number name. -/
theorem direction?_of_front (hdigits : IsDigits digits) (hd : d ≠ .stop) {others : List String}
    (hfront : r.front = "move" :: d.name :: others) :
    (View.ofClause (r.text digits)).direction? = some d := by
  have hmove : View.directionOf? "move" = none := rfl
  rw [direction?_text hdigits, hfront, List.cons_append, List.cons_append, List.findSome?_cons, hmove,
    List.findSome?_cons, directionOf?_name hd]

/-- The commands of a motion for some time. -/
theorem commands_timedMotion (hdigits : IsDigits digits) (hd : d ≠ .stop)
    (hunit : unit ∈ ["seconds", "minutes"]) {u : Measure}
    (hmeasure : (Mention.wordBehind (' ' :: unit.toList)).1.bind Measure.ofText? = some u) {t : Millis}
    (hmillis : Quantity.asMillis? ⟨some (Binary.ofInt (ofDigits digits)), some u⟩ = some t) :
    Interpreter.clauseCommands Settings.default.zoomStep ((timedMotion d hd unit hunit).text digits) =
      [.move ((Motion.toward d .normal).withDuration t), .wait t, .move .stop] := by
  have hquiet : (View.ofClause ((timedMotion d hd unit hunit).text digits)).IsQuiet := by
    refine isQuiet_text hdigits fun hmem => ?_
    have hunits : unit ≠ "speed" := fun heq => absurd (heq ▸ hunit) (by decide)
    simp [timedMotion, (name_ne_speed d).symm, hunits.symm] at hmem
  have hfor : (View.ofClause ((timedMotion d hd unit hunit).text digits)).has Rule.durationWords =
      true := by
    rw [has_text hdigits (isDigitless_of_all (by decide))]
    exact List.any_eq_true.mpr ⟨"for", by simp [timedMotion], by decide⟩
  have htrailing : (timedMotion d hd unit hunit).trailing = ' ' :: unit.toList := List.append_nil _
  have hnopercent : ∀ w ∈ ["seconds", "minutes"],
      Mention.isPercentBehind (some '0') (' ' :: w.toList) = false := by decide
  have hquantity := quantity_measured (r := timedMotion d hd unit hunit) hdigits
    (by rw [htrailing]; exact hmeasure) (by rw [htrailing]; exact hnopercent unit hunit)
  rw [Interpreter.clauseCommands, commands_classify,
    hquiet.commands_eq hfor (direction?_of_front hdigits hd rfl), hquantity, hmillis,
    moveStyle_text hdigits]
  rfl

theorem compile_timedMotion (hdigits : IsDigits digits) (hd : d ≠ .stop)
    (hunit : unit ∈ ["seconds", "minutes"]) {u : Measure}
    (hmeasure : (Mention.wordBehind (' ' :: unit.toList)).1.bind Measure.ofText? = some u)
    (hmillis : Quantity.asMillis? ⟨some (Binary.ofInt (ofDigits digits)), some u⟩ = some (.ofNat n))
    (hn : n < 2 ^ binary64.precision) :
    Interpreter.compile ((timedMotion d hd unit hunit).text digits) =
      ["move." ++ d.name, "move.duration:" ++ String.ofList (toDigits n),
        "wait:" ++ String.ofList (toDigits n), "move.stop"] := by
  have hcommands := commands_timedMotion hdigits hd hunit hmeasure hmillis
  have hstop : (Token.move .stop).text = "move.stop" := by
    rw [Token.text_move]
    decide
  have hnumber : (UInt64.ofNat n).toNat = n :=
    UInt64.toNat_ofNat_of_lt' (Nat.lt_trans hn (by decide))
  rw [compile_text hdigits hcommands ⟨_, List.mem_cons_self, nofun⟩, Token.ofCommands_timed,
    List.map_cons, List.map_cons, List.map_cons, List.map_singleton, Token.text_move,
    Token.text_moveDuration, Token.text_wait, hstop, hnumber]

theorem compile_measuredMotion (hdigits : IsDigits digits) (hd : d ≠ .stop)
    (hn : ofDigits digits < 10 ^ (15 : Nat)) :
    Interpreter.compile ((measuredMotion d hd).text digits) =
      ["move." ++ d.name, "move.distance:" ++ String.ofList (toDigits (ofDigits digits)) ++ "m"] := by
  have hquiet : (View.ofClause ((measuredMotion d hd).text digits)).IsQuiet := by
    refine isQuiet_text hdigits fun hmem => ?_
    simp [measuredMotion, (name_ne_speed d).symm] at hmem
  have hfor : (View.ofClause ((measuredMotion d hd).text digits)).has Rule.durationWords = false := by
    rw [has_text hdigits (isDigitless_of_all (by decide))]
    cases d with
    | stop => exact absurd rfl hd
    | _ => rfl
  have htrailing : (measuredMotion d hd).trailing = " meters".toList := by rfl
  have hquantity := quantity_measured (r := measuredMotion d hd) hdigits (u := .meters)
    (by rw [htrailing]; rfl) (by rw [htrailing]; rfl)
  have hmeters : (View.ofClause ((measuredMotion d hd).text digits)).quantity.asMeters? =
      some (Binary.ofInt (ofDigits digits)) := by
    rw [hquantity]
    rfl
  have hcommands : Interpreter.clauseCommands Settings.default.zoomStep
      ((measuredMotion d hd).text digits) =
        [.move ((Motion.toward d .normal).withDistance (Binary.ofInt (ofDigits digits)))] := by
    rw [Interpreter.clauseCommands, commands_classify,
      hquiet.commands_of_distance hfor (direction?_of_front hdigits hd rfl) hmeters,
      moveStyle_text hdigits]
  rw [compile_text_single hdigits hcommands (Motion.tokens_withDistance _ _ _) (by simp), List.map_cons,
    List.map_singleton, Token.text_move, Token.text_moveDistance hn]

theorem compile_rotation (hdigits : IsDigits digits) (hn : ofDigits digits < 10 ^ (15 : Nat)) :
    Interpreter.compile (rotation.text digits) =
      ["rotate.cw.deg:" ++ String.ofList (toDigits (ofDigits digits))] := by
  have hcommands : Interpreter.clauseCommands Settings.default.zoomStep (rotation.text digits) =
      [.rotate ⟨.clockwise, Binary.ofInt (ofDigits digits), true⟩] := by
    rw [text_rotation]
    exact commands_rotationRequest hdigits _ _
  have htext : (Token.rotate .clockwise (Binary.ofInt (ofDigits digits))).text =
      "rotate.cw.deg:" ++ String.ofList (toDigits (ofDigits digits)) :=
    Token.text_of_number hn rfl (by decide)
  rw [compile_text_single hdigits hcommands (Command.tokens_rotate _) (by simp), List.map_singleton, htext]

theorem compile_speed (hdigits : IsDigits digits) : Interpreter.compile (speed.text digits) =
    ["move.speed:" ++ String.ofList (toDigits (min (ofDigits digits) 100))] := by
  have hspeed : (View.ofClause (speed.text digits)).has Rule.speedWords = true :=
    (has_text hdigits (isDigitless_of_all (by decide))).trans (by decide)
  have hquantity := quantity_percentage (r := speed) hdigits rfl
  have hclamp : Quantity.clampPercent (Binary.ofInt (min (ofDigits digits) 100 : Nat)) =
      Binary.ofInt (min (ofDigits digits) 100 : Nat) := by
    rw [Quantity.clampPercent_ofInt, Nat.min_assoc, Nat.min_self]
  have hcommands : Interpreter.clauseCommands Settings.default.zoomStep (speed.text digits) =
      [.speed (Binary.ofInt (min (ofDigits digits) 100 : Nat))] := by
    rw [Interpreter.clauseCommands, commands_classify,
      commands_of_speed (isAlarm_text hdigits) (has_stopWords_text hdigits) hspeed hquantity, hclamp]
  have hn : min (ofDigits digits) 100 < 10 ^ (15 : Nat) :=
    Nat.lt_of_le_of_lt (Nat.min_le_right _ _) (by decide)
  have htext : (Token.moveSpeed (Binary.ofInt (min (ofDigits digits) 100 : Nat))).text =
      "move.speed:" ++ String.ofList (toDigits (min (ofDigits digits) 100)) :=
    Token.text_of_number hn rfl (by decide)
  rw [compile_text_single hdigits hcommands (Command.tokens_speed _) (by simp), List.map_singleton, htext]

end Tokens

/-! ## The texts of requests -/

section Texts

variable {unit behind : String}

theorem text_timedMotion (hd : d ≠ .stop) (hunit : unit ∈ ["seconds", "minutes"])
    (hbehind : ' ' :: unit.toList = behind.toList) (digits : List Char) :
    (timedMotion d hd unit hunit).text digits =
      "move " ++ d.name ++ " for " ++ String.ofList digits ++ behind := by
  have hfront : ["move", d.name, "for"].flatMap (·.toList ++ [' ']) =
      ("move " ++ d.name ++ " for ").toList := by
    cases d <;> decide
  exact text_eq (r := timedMotion d hd unit hunit) hfront ((List.append_nil _).trans hbehind) digits

theorem text_measuredMotion (hd : d ≠ .stop) (digits : List Char) :
    (measuredMotion d hd).text digits =
      "move " ++ d.name ++ " " ++ String.ofList digits ++ " meters" := by
  have hfront : ["move", d.name].flatMap (·.toList ++ [' ']) = ("move " ++ d.name ++ " ").toList := by
    cases d <;> decide
  exact text_eq (r := measuredMotion d hd) hfront (by rfl) digits

end Texts

end SpokenRequest

/-! ## The wire -/

open SpokenRequest in
/-- Whatever number a request names, the same number stands in its tokens: a time of at most `2 ^ 53`
milliseconds in milliseconds, a distance and an angle of at most fifteen digits as they are, and a
percentage, however long, as far as a hundred. -/
theorem Interpreter.compile_quantified {digits : List Char} {n : Nat} (hdigits : IsDigits digits)
    (hvalue : ofDigits digits = n) :
    (∀ d : Direction, d ≠ .stop →
      (60000 * n ≤ 2 ^ (53 : Nat) →
        compile ("move " ++ d.name ++ " for " ++ String.ofList digits ++ " seconds") =
          ["move." ++ d.name, "move.duration:" ++ String.ofList (toDigits (1000 * n)),
            "wait:" ++ String.ofList (toDigits (1000 * n)), "move.stop"] ∧
        compile ("move " ++ d.name ++ " for " ++ String.ofList digits ++ " minutes") =
          ["move." ++ d.name, "move.duration:" ++ String.ofList (toDigits (60000 * n)),
            "wait:" ++ String.ofList (toDigits (60000 * n)), "move.stop"]) ∧
      (n < 10 ^ (15 : Nat) →
        compile ("move " ++ d.name ++ " " ++ String.ofList digits ++ " meters") =
          ["move." ++ d.name, "move.distance:" ++ String.ofList (toDigits n) ++ "m"])) ∧
    (n < 10 ^ (15 : Nat) →
      compile ("rotate " ++ String.ofList digits ++ " degrees") =
        ["rotate.cw.deg:" ++ String.ofList (toDigits n)]) ∧
    compile ("set speed " ++ String.ofList digits ++ "%") =
      ["move.speed:" ++ String.ofList (toDigits (min n 100))] := by
  subst hvalue
  refine ⟨fun d hd => ⟨fun hbound => ⟨?_, ?_⟩, fun hn => ?_⟩, fun hn => ?_, ?_⟩
  · have hproduct : 1000 * ofDigits digits < 2 ^ binary64.precision := by
      change _ < 2 ^ (53 : Nat)
      omega
    have hunit : "seconds" ∈ ["seconds", "minutes"] := by decide
    rw [← text_timedMotion hd hunit (by decide)]
    exact compile_timedMotion hdigits hd hunit rfl (Quantity.asMillis?_seconds hproduct) hproduct
  · have hproduct : 60000 * ofDigits digits < 2 ^ binary64.precision := by
      change _ < 2 ^ (53 : Nat)
      omega
    have hunit : "minutes" ∈ ["seconds", "minutes"] := by decide
    rw [← text_timedMotion hd hunit (by decide)]
    exact compile_timedMotion hdigits hd hunit rfl (Quantity.asMillis?_minutes hproduct) hproduct
  · rw [← text_measuredMotion hd]
    exact compile_measuredMotion hdigits hd hn
  · have hfront : rotation.leading = "rotate ".toList := by decide
    have hbehind : rotation.trailing = " degrees".toList := by decide
    rw [← text_eq hfront hbehind]
    exact compile_rotation hdigits hn
  · have hfront : speed.leading = "set speed ".toList := by decide
    have hbehind : speed.trailing = "%".toList := by decide
    rw [← text_eq hfront hbehind]
    exact compile_speed hdigits

/-- A time that is written with a nought in front stands in its tokens without it. -/
theorem Interpreter.compile_quantified_nought :
    IsDigits ['0', '1', '2'] ∧ ofDigits ['0', '1', '2'] = 12 ∧ 60000 * 12 ≤ 2 ^ (53 : Nat) ∧
      compile "move left for 012 seconds" =
        ["move.left", "move.duration:12000", "wait:12000", "move.stop"] := by
  have hdigits : IsDigits ['0', '1', '2'] := ⟨by simp, by simp [isAsciiDigit_iff]⟩
  have hvalue : ofDigits ['0', '1', '2'] = 12 := by decide
  have hbound : 60000 * 12 ≤ 2 ^ (53 : Nat) := by decide
  have hseconds := (((compile_quantified hdigits hvalue).1 .left (by decide)).1 hbound).1
  have hutterance : "move " ++ Direction.left.name ++ " for " ++ String.ofList ['0', '1', '2'] ++
      " seconds" = "move left for 012 seconds" := by decide
  have htokens : ["move." ++ Direction.left.name, "move.duration:" ++ String.ofList (toDigits (1000 * 12)),
      "wait:" ++ String.ofList (toDigits (1000 * 12)), "move.stop"] =
        ["move.left", "move.duration:12000", "wait:12000", "move.stop"] := by decide
  rw [hutterance, htokens] at hseconds
  exact ⟨hdigits, hvalue, hbound, hseconds⟩

end Teleop
