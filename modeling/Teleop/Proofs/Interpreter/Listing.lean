import Teleop.Proofs.Classification.WellFormed
import Teleop.Proofs.Interpreter.Reading
import Teleop.Proofs.Token.Listing

/-!
# The wire texts of a reading are a listing of its tokens

The numbers of commands come from the words of a clause, which hold no value that is not a number, or
are the zoom step of the settings. So where the zoom step is a number, no token of a reading holds
anything else, and the wire texts of a reading, one a line, are read as its tokens.
-/

namespace Teleop

open Numeric Text

/-- No token of the command holds what is not a number. -/
def Command.HoldsNumbers (cmd : Command) : Prop :=
  ∀ t ∈ cmd.tokens, t.holdsNaN = false

/-- A well-formed command holds numbers if it does not zoom by something else. -/
theorem Command.IsWellFormed.holdsNumbers {cmd : Command} (h : cmd.IsWellFormed)
    (hzoom : ∀ value, cmd = .camera (.zoom value) → value.isNaN = false) : cmd.HoldsNumbers := by
  cases cmd with
  | move m =>
    have hdistance : ∀ meters, m.distance = some meters → meters.isNaN = false :=
      fun meters hmeters => (h.distance meters hmeters).number
    cases hd : m.distance <;> cases ht : m.duration <;>
      simp [HoldsNumbers, tokens, Motion.tokens, hd, ht, Token.holdsNaN, Token.number?, hdistance]
  | rotate r => simpa [HoldsNumbers, tokens, Token.holdsNaN, Token.number?] using h.2.number
  | speed percent =>
    have hnumber := (Binary.isNaN_eq_false_of_le h.2).1
    simpa [HoldsNumbers, tokens, Token.holdsNaN, Token.number?] using hnumber
  | camera action =>
    cases action with
    | zoom value =>
      simpa [HoldsNumbers, tokens, CameraAction.token, Token.holdsNaN, Token.number?] using hzoom value rfl
    | _ => simp [HoldsNumbers, tokens, CameraAction.token, Token.holdsNaN, Token.number?]
  | _ => simp [HoldsNumbers, tokens, Token.holdsNaN, Token.number?]

namespace Rule

variable {zoomStep : Binary64} {v : View} {rule : Rule} {cmds : List Command}

/-- A clause zooms by its own number, or else by the zoom step. -/
theorem zoom_of_commands? {value : Binary64} (h : commands? zoomStep v rule = some cmds)
    (hmem : .camera (.zoom value) ∈ cmds) : value = v.quantity.value.getD zoomStep := by
  have hyields := yields_of_commands? h
  cases rule with
  | accessory =>
    simp only [commands?] at h
    split at h
    · cases h
    · obtain rfl := Option.some.inj h
      have haction : cameraAction? zoomStep v = some (.zoom value) := by
        simpa [accessoryCommands] using hmem
      simp only [cameraAction?] at haction
      split at haction
      · cases haction
        rfl
      · split at haction
        · cases haction
        · split at haction <;> cases haction
  | safety | stop =>
    cases hyields
    simp at hmem
  | speed | wait | rotate =>
    obtain ⟨x, rfl⟩ := hyields
    simp at hmem
  | turn | cardinalMove =>
    obtain ⟨x, y, rfl⟩ := hyields
    simp at hmem
  | timedMove | distanceMove =>
    obtain ⟨x, y, z, rfl⟩ := hyields
    simp at hmem

end Rule

namespace Interpreter

variable {i : Interpreter} {zoomStep : Binary64} {utterance clause : String} {c : Context}
  {d : Descriptor}

theorem holdsNumbers_classify (hzoom : zoomStep.isNaN = false)
    (hd : d ∈ (classify zoomStep clause c).1) : d.command.HoldsNumbers := by
  refine (isWellFormed_classify hd).command.holdsNumbers fun value hvalue => ?_
  rcases classify_cases zoomStep clause c with ⟨rule, hrule⟩ | hunknown
  · obtain ⟨cmds, hcmds, houtcome⟩ := Rule.exists_of_apply hrule
    have hmem : d.command ∈ cmds := by
      rw [← Rule.map_command_describe (v := .ofClause clause) cmds rule.confidence]
      rw [houtcome] at hd
      exact List.mem_map_of_mem hd
    have hnumber : (View.ofClause clause).quantity.IsMagnitude := Quantity.isMagnitude_extract clause
    rw [hvalue] at hmem
    rw [Rule.zoom_of_commands? hcmds hmem]
    cases hquantity : (View.ofClause clause).quantity.value with
    | none => exact hzoom
    | some x => exact (hnumber x hquantity).number
  · rw [hunknown, List.mem_singleton] at hd
    rw [hd] at hvalue
    cases hvalue

/-- No descriptor of a reading holds anything but numbers, whatever the context. -/
theorem holdsNumbers_descriptors (hzoom : i.settings.zoomStep.isNaN = false)
    (hd : d ∈ (i.analyze utterance c).1.descriptors) : d.command.HoldsNumbers := by
  cases hall : (classifyAll i.settings.zoomStep (i.clausesOf utterance) c).1.all
      Descriptor.isUnknown with
  | false =>
    rw [descriptors_of_known hall, classifyAll_fst, List.mem_flatMap] at hd
    obtain ⟨clause, -, hclause⟩ := hd
    exact holdsNumbers_classify hzoom hclause
  | true =>
    -- a repetition has no number, also where the context remembers a stop
    rw [descriptors_of_unknown hall, repetition?_eq, List.mem_singleton] at hd
    rw [hd]
    split
    · cases (i.analyze utterance c).2.lastDirection <;>
        simp [Command.HoldsNumbers, Descriptor.unknown, Descriptor.make, Command.tokens,
          Motion.tokens, Motion.toward, Token.holdsNaN, Token.number?]
    · simp [Command.HoldsNumbers, Descriptor.unknown, Descriptor.make, Command.tokens]

/-- No token of a reading holds what is not a number. -/
theorem holdsNaN_tokens (hzoom : i.settings.zoomStep.isNaN = false) {t : Token}
    (ht : t ∈ (i.analyze utterance c).1.tokens) : t.holdsNaN = false := by
  cases hunknown : decide (t = .unknown) with
  | true =>
    rw [of_decide_eq_true hunknown]
    rfl
  | false =>
    rw [Reading.tokens, Token.mem_ofDescriptors (of_decide_eq_false hunknown)] at ht
    obtain ⟨cmd, hcmd, ht⟩ := Token.exists_of_mem_ofCommands ht
    obtain ⟨d, hd, rfl⟩ := List.mem_map.mp hcmd
    exact holdsNumbers_descriptors hzoom hd t ht

/-- A listing of tokens that hold numbers is read as tokens that are equal to them and have the same
texts, whatever blanks and remarks it has. A break of lines joins two listings, and a listing is refused
exactly with the first of its lines that is misread. The wire texts of a reading are a listing of its
tokens. -/
theorem listings_read_back :
    (∀ (ts : List Token) (lines : List String), (∀ t ∈ ts, t.holdsNaN = false) →
      Token.Lists ts lines → (∀ line ∈ lines, '\n' ∉ line.toList) →
      ∃ back, Token.ofListing ("\n".intercalate lines) = .ok back ∧
        Token.AreEqual ts back ∧
        back.map Token.text = ts.map Token.text) ∧
    (∀ a b : String, Token.ofListing (a ++ "\n" ++ b) =
      (Token.ofListing a).bind fun ts => (Token.ofListing b).map (ts ++ ·)) ∧
    (∀ text : String,
      ((∃ bad, Token.ofListing text = .error bad) ↔
        ∃ line ∈ Token.rawLines text, Token.IsMisread line) ∧
      ∀ bad, Token.ofListing text = .error bad ↔
        ∃ before line behind, Token.rawLines text = before ++ line :: behind ∧
          (∀ l ∈ before, ¬ Token.IsMisread l) ∧ Token.IsMisread line ∧
          String.ofList (trim line) = bad) ∧
    ∀ (i : Interpreter) (utterance : String) (c : Context), i.settings.zoomStep.isNaN = false →
      ∃ back, Token.ofListing ("\n".intercalate (i.analyze utterance c).1.wire) = .ok back ∧
        Token.AreEqual (i.analyze utterance c).1.tokens back := by
  refine ⟨fun ts lines hts hlists hlines => ?_, Token.ofListing_append,
    fun text => ⟨Token.exists_error_iff, fun bad => Token.ofListing_eq_error_iff⟩, fun i utterance c hzoom => ?_⟩
  · refine ⟨_, hlists.ofListing hlines, Token.areEqual_plainZero hts, ?_⟩
    rw [List.map_map]
    exact List.map_congr_left fun t _ => congrArg String.ofList (Token.chars_plainZero t)
  · refine ⟨_, (Token.lists_text _).ofListing fun line hline => ?_,
      Token.areEqual_plainZero fun t ht => holdsNaN_tokens hzoom ht⟩
    obtain ⟨t, -, rfl⟩ := List.mem_map.mp hline
    exact Token.not_mem_text t

theorem listings_read_back_remarks :
    (∃ back, Token.ofListing ("\n".intercalate ["# plan", "\tmove.forward ", "", "wait:1500\r"]) =
        .ok back ∧
      Token.AreEqual [.move .forward, .wait 1500] back ∧
      back.map Token.text = [Token.move .forward, .wait 1500].map Token.text) ∧
    ∃ back, Token.ofListing ("\n".intercalate (default.analyze "go left" .initial).1.wire) = .ok back ∧
      Token.AreEqual (default.analyze "go left" .initial).1.tokens
        back := by
  obtain ⟨hlists, -, -, hwire⟩ := listings_read_back
  have hmove : "\tmove.forward " = "\t" ++ ((Token.move .forward).text ++ " ") := by decide
  have hwait : "wait:1500\r" = "" ++ ((Token.wait 1500).text ++ "\r") := by decide
  have hzoom : default.settings.zoomStep.isNaN = false := (Binary.isMagnitude_ofNat _).number
  refine ⟨hlists [.move .forward, .wait 1500] _ (by decide) ?_ (by decide),
    hwire default "go left" .initial hzoom⟩
  have hempty : ∀ c ∈ "".toList, isBlank c = true := List.all_eq_true.mp (by decide)
  refine .remark (Or.inr ⟨[], " plan".toList, rfl, hempty⟩) ?_
  rw [hmove, hwait]
  refine .token (.move .forward) (List.all_eq_true.mp (by decide)) (List.all_eq_true.mp (by decide)) ?_
  refine .remark (Or.inl hempty) ?_
  exact .token (.wait 1500) hempty (List.all_eq_true.mp (by decide)) .nil

end Interpreter

end Teleop
