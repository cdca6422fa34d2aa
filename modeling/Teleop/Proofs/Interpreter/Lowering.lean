import Teleop.Proofs.Dispatch.History
import Teleop.Proofs.Interpreter.Shape
import Teleop.Proofs.Interpreter.Stop

/-!
# Clauses are lowered one by one

What a clause is turned into opens no bracket that another clause could close, so the stream of an
utterance is made of the streams of its clauses, and a clause that is not understood may be put in or
left out anywhere. Of the waits that the descriptors of a reading name none is lost and none is added: a
wait and a stop that are spoken behind a timed motion come in addition to those of its own bracket.
-/

namespace Teleop

open Numeric

/-- The milliseconds that a command asks to wait by itself. -/
def Command.waitMillis : Command → Nat
  | wait t => t.toNat
  | _ => 0

def spokenMillis : List Command → Nat
  | [] => 0
  | cmd :: rest => cmd.waitMillis + spokenMillis rest

namespace Token

theorem waitedMillis_tokens {cmd : Command} (h : cmd.isTimed = false) :
    waitedMillis cmd.tokens = cmd.waitMillis := by
  cases cmd with
  | move m =>
    have hduration : m.duration = none := by simpa [Command.isTimed] using h
    cases hd : m.distance <;>
      simp [Command.tokens, Motion.tokens, Command.waitMillis, hduration, hd, delayMillis]
  | camera action =>
    cases action <;>
      simp [Command.tokens, CameraAction.token, Command.waitMillis, delayMillis]
  | _ => simp [Command.tokens, Command.waitMillis, delayMillis]

/-- A row that closes its brackets waits as long as its waits say, those of brackets included. -/
theorem IsClosed.waitedMillis_ofCommands {cmds : List Command} (h : IsClosed cmds) :
    waitedMillis (ofCommands cmds) = spokenMillis cmds := by
  induction h with
  | nil => rfl
  | cons untimed _ ih =>
    rw [ofCommands_cons_of_not_isTimed untimed, waitedMillis_append, waitedMillis_tokens untimed, ih,
      spokenMillis]
  | bracket opened _ ih =>
    rw [ofCommands_bracket opened, waitedMillis_append, ih]
    obtain ⟨m, t, s, rfl, rfl, rfl, hduration, -⟩ := Command.isBracket_iff.mp opened
    have hmotion : waitedMillis (Command.move m).tokens = t.toNat := by
      cases hd : m.distance <;>
        simp [Command.tokens, Motion.tokens, hduration, hd, delayMillis]
    simp only [hmotion, spokenMillis, Command.waitMillis, Nat.zero_add]

/-- The tokens of the descriptors of a clause by themselves; a clause that is unknown has none. -/
def ofGroup (group : List Descriptor) : List Token :=
  if group.all Descriptor.isUnknown then [] else ofDescriptors group

theorem ofGroup_eq (group : List Descriptor) :
    ofGroup group = ofCommands (group.map (·.command)) := by
  have hunknown : ofCommands (group.map (·.command)) = [] ↔ group.all Descriptor.isUnknown = true := by
    rw [ofCommands_eq_nil_iff, List.all_eq_true]
    simp [Descriptor.isUnknown]
  rw [ofGroup]
  split
  · rename_i hall
    exact (hunknown.mpr hall).symm
  · rename_i hknown
    exact ofDescriptors_eq fun hnil => hknown (hunknown.mp hnil)

end Token

namespace Interpreter

variable {i : Interpreter} {zoomStep : Binary64} {utterance : String} {clauses : List String}
  {c after : Context} {groups : List (List Descriptor)}

/-- The commands that a clause is turned into, in any context. -/
def clauseCommands (zoomStep : Binary64) (clause : String) : List Command :=
  (classify zoomStep clause .initial).1.map (·.command)

/-- Whether something of a clause is understood. -/
def isUnderstood (zoomStep : Binary64) (clause : String) : Bool :=
  !(classify zoomStep clause .initial).1.all Descriptor.isUnknown

def clauseTokens (zoomStep : Binary64) (clause : String) : List Token :=
  Token.ofGroup (classify zoomStep clause .initial).1

theorem clauseTokens_eq (clause : String) :
    clauseTokens zoomStep clause = Token.ofCommands (clauseCommands zoomStep clause) :=
  Token.ofGroup_eq _

theorem isUnderstood_iff {clause : String} :
    isUnderstood zoomStep clause = true ↔ IsUnderstood zoomStep clause := by
  rw [isUnderstood, Bool.not_eq_true', List.all_eq_false]
  constructor
  · rintro ⟨d, hd, hknown⟩
    exact ⟨.initial, d, hd, by simpa using hknown⟩
  · rintro ⟨c, d, hd, hknown⟩
    rw [classify_fst_congr c .initial] at hd
    exact ⟨d, hd, by simp [hknown]⟩

theorem clauseTokens_of_unknown {clause : String} (h : isUnderstood zoomStep clause = false) :
    clauseTokens zoomStep clause = [] := by
  rw [clauseTokens, Token.ofGroup, if_pos (by simpa [isUnderstood] using h)]

theorem flatMap_clauseTokens_filter (clauses : List String) :
    (clauses.filter (isUnderstood zoomStep)).flatMap (clauseTokens zoomStep) =
      clauses.flatMap (clauseTokens zoomStep) := by
  induction clauses with
  | nil => rfl
  | cons clause rest ih =>
    cases hclause : isUnderstood zoomStep clause with
    | true => rw [List.filter_cons_of_pos hclause, List.flatMap_cons, List.flatMap_cons, ih]
    | false =>
      rw [List.filter_cons_of_neg (by simp [hclause]), List.flatMap_cons,
        clauseTokens_of_unknown hclause, List.nil_append, ih]

/-- The stream of some clauses is made of the streams of each. -/
theorem ofCommands_classifyAll :
    Token.ofCommands ((classifyAll zoomStep clauses c).1.map (·.command)) =
      clauses.flatMap (clauseTokens zoomStep) := by
  induction clauses generalizing c with
  | nil => rfl
  | cons clause rest ih =>
    rw [classifyAll, List.map_append, isClosed_classify.ofCommands_append, List.flatMap_cons,
      clauseTokens_eq, clauseCommands, classify_fst_congr c .initial, ih]

theorem ofDescriptors_classifyAll (h : ∃ clause ∈ clauses, IsUnderstood zoomStep clause) :
    Token.ofDescriptors (classifyAll zoomStep clauses c).1 =
      clauses.flatMap (clauseTokens zoomStep) := by
  obtain ⟨d, hd, hknown⟩ := List.all_eq_false.mp (not_all_unknown (c := c) h)
  rw [← ofCommands_classifyAll (c := c)]
  refine Token.ofDescriptors_eq fun hnil => hknown ?_
  have hunknown := Token.ofCommands_eq_nil_iff.mp hnil d.command (List.mem_map.mpr ⟨d, hd, rfl⟩)
  simpa [Descriptor.isUnknown] using hunknown

/-- The stream of some clauses is made of the streams of their groups. -/
theorem Classified.flatMap_ofGroup (h : Classified zoomStep clauses c groups after) :
    groups.flatMap Token.ofGroup = clauses.flatMap (clauseTokens zoomStep) := by
  induction h with
  | nil => rfl
  | @cons clause rest c between after group groups hgroup hne hraw hrest ih =>
    have hfirst : group = (classify zoomStep clause .initial).1 := by
      rw [← classify_fst_congr c, hgroup]
    rw [List.flatMap_cons, List.flatMap_cons, ih, clauseTokens, hfirst]

/-- The tokens of an utterance of which a clause is understood are those of its clauses. -/
theorem tokens_eq_flatMap
    (h : ∃ clause ∈ i.clausesOf utterance, IsUnderstood i.settings.zoomStep clause) :
    (i.analyze utterance c).1.tokens =
      (i.clausesOf utterance).flatMap (clauseTokens i.settings.zoomStep) := by
  rw [Reading.tokens, descriptors_of_known (not_all_unknown h), ofDescriptors_classifyAll h]

/-- Where two rows have the same understood clauses, one is understood if one of the other is. -/
theorem exists_understood_congr {others : List String}
    (hsame : others.filter (isUnderstood zoomStep) = clauses.filter (isUnderstood zoomStep))
    (h : ∃ clause ∈ clauses, IsUnderstood zoomStep clause) :
    ∃ clause ∈ others, IsUnderstood zoomStep clause := by
  obtain ⟨clause, hclause, hknown⟩ := h
  have hmem : clause ∈ others.filter (isUnderstood zoomStep) := by
    rw [hsame]
    exact List.mem_filter.mpr ⟨hclause, isUnderstood_iff.mpr hknown⟩
  exact ⟨clause, (List.mem_filter.mp hmem).1, hknown⟩

/-- Where a clause is understood, the stream of an utterance is that of its clauses in order, each
lowered by itself. So it depends on the understood clauses only, it waits as long as the waits among the
descriptors say, and a wait and a stop behind a timed motion of the same duration are kept beside the
bracket of that motion. -/
theorem tokens_by_clause (i : Interpreter) (utterance : String) (c : Context)
    (h : ∃ clause ∈ (i.analyze utterance c).1.clauses, IsUnderstood i.settings.zoomStep clause) :
    (∃ groups, ReadByClause i.settings.zoomStep c (i.analyze utterance c).1
        (i.analyze utterance c).2 groups ∧
      (i.analyze utterance c).1.tokens = groups.flatMap Token.ofGroup) ∧
    (∀ (clauses : List String) (c' : Context),
      clauses.filter (isUnderstood i.settings.zoomStep) =
          (i.analyze utterance c).1.clauses.filter (isUnderstood i.settings.zoomStep) →
        Token.ofDescriptors (classifyAll i.settings.zoomStep clauses c').1 =
          (i.analyze utterance c).1.tokens) ∧
    (∀ (other : String) (c' : Context),
      (i.analyze other c').1.clauses.filter (isUnderstood i.settings.zoomStep) =
          (i.analyze utterance c).1.clauses.filter (isUnderstood i.settings.zoomStep) →
        (i.analyze other c').1.tokens = (i.analyze utterance c).1.tokens) ∧
    waitedMillis (i.analyze utterance c).1.tokens =
      spokenMillis ((i.analyze utterance c).1.descriptors.map (·.command)) ∧
    ∀ (before behind : List String) (timed waiting stopping : String) (m : Motion) (t : Millis),
      (i.analyze utterance c).1.clauses = before ++ timed :: waiting :: stopping :: behind →
      m.duration = some t →
      clauseCommands i.settings.zoomStep timed = [.move m, .wait t, .move .stop] →
      clauseCommands i.settings.zoomStep waiting = [.wait t] →
      clauseCommands i.settings.zoomStep stopping = [.move .stop] →
      (i.analyze utterance c).1.tokens =
        before.flatMap (clauseTokens i.settings.zoomStep) ++ m.tokens ++ [.wait t, .move .stop] ++
          behind.flatMap (clauseTokens i.settings.zoomStep) := by
  rw [clauses_analyze] at h
  have hknown := not_all_unknown (c := c) h
  have htokens := tokens_eq_flatMap (c := c) h
  refine ⟨?_, fun clauses c' hsame => ?_, fun other c' hsame => ?_, ?_, ?_⟩
  · obtain ⟨groups, hgroups⟩ := readByClause_of_known hknown
    have hclassified := hgroups.classified
    rw [clauses_analyze] at hclassified
    exact ⟨groups, hgroups, by rw [hclassified.flatMap_ofGroup, htokens]⟩
  · rw [clauses_analyze] at hsame
    rw [ofDescriptors_classifyAll (exists_understood_congr hsame h), htokens,
      ← flatMap_clauseTokens_filter, hsame, flatMap_clauseTokens_filter]
  · rw [clauses_analyze, clauses_analyze] at hsame
    rw [tokens_eq_flatMap (exists_understood_congr hsame h), htokens,
      ← flatMap_clauseTokens_filter, hsame, flatMap_clauseTokens_filter]
  · rw [htokens, descriptors_of_known hknown, ← isClosed_classifyAll.waitedMillis_ofCommands,
      ofCommands_classifyAll]
  · intro before behind timed waiting stopping m t hclauses hduration htimed hwaiting hstopping
    rw [clauses_analyze] at hclauses
    have hbracket : (Command.move m).isBracket (.wait t) (.move .stop) = true :=
      Command.isBracket_iff.mpr ⟨m, t, _, rfl, rfl, rfl, hduration, rfl⟩
    have hmotion : clauseTokens i.settings.zoomStep timed = m.tokens := by
      rw [clauseTokens_eq, htimed, Token.ofCommands_bracket hbracket, Token.ofCommands,
        List.append_nil]
      rfl
    have hwait : clauseTokens i.settings.zoomStep waiting = [.wait t] := by
      rw [clauseTokens_eq, hwaiting]
      rfl
    have hstop : clauseTokens i.settings.zoomStep stopping = [.move .stop] := by
      rw [clauseTokens_eq, hstopping]
      rfl
    rw [htokens, hclauses, List.flatMap_append, List.flatMap_cons, List.flatMap_cons,
      List.flatMap_cons, hmotion, hwait, hstop]
    simp only [List.append_assoc, List.cons_append, List.nil_append]

set_option maxRecDepth 20000 in
/-- A wait and a stop that are spoken behind a motion of two seconds are executed beside its bracket, so the
stream waits for four seconds. -/
theorem tokens_by_clause_waitBehindMotion :
    (default.analyze "go left for 2 seconds then wait 2 seconds then stop" .initial).1.clauses =
      ["go left for 2 seconds", "wait 2 seconds", "stop"] ∧
    (default.analyze "go left for 2 seconds then wait 2 seconds then stop" .initial).1.tokens =
      [.move .left, .moveDuration 2000, .wait 2000, .move .stop, .wait 2000, .move .stop] ∧
    waitedMillis (default.analyze "go left for 2 seconds then wait 2 seconds then stop" .initial).1.tokens =
      4000 ∧
    spokenMillis ((default.analyze "go left for 2 seconds then wait 2 seconds then stop"
      .initial).1.descriptors.map (·.command)) = 4000 := by
  have hnormal := normalize_spoken ("go left for 2 seconds then wait 2 seconds then stop", _)
    (List.mem_of_getElem? (i := 5) rfl)
  have hclauses : (default.analyze "go left for 2 seconds then wait 2 seconds then stop"
      .initial).1.clauses = ["go left for 2 seconds", "wait 2 seconds", "stop"] := by
    rw [clauses_analyze, clausesOf, default, hnormal]
    rfl
  obtain ⟨htimed, hwaiting, hstopping⟩ :
      clauseCommands default.settings.zoomStep "go left for 2 seconds" =
          [.move ((Motion.toward .left .normal).withDuration 2000), .wait 2000, .move .stop] ∧
        clauseCommands default.settings.zoomStep "wait 2 seconds" = [.wait 2000] ∧
        clauseCommands default.settings.zoomStep "stop" = [.move .stop] := by
    decide +kernel
  have hknown : IsUnderstood default.settings.zoomStep "stop" := ⟨.initial, by decide⟩
  have hstop : "stop" ∈ (default.analyze "go left for 2 seconds then wait 2 seconds then stop"
      .initial).1.clauses := by
    rw [hclauses]
    decide
  obtain ⟨-, -, -, hwaits, hbehind⟩ := tokens_by_clause default
    "go left for 2 seconds then wait 2 seconds then stop" .initial ⟨_, hstop, hknown⟩
  have htokens := hbehind [] [] _ _ _ _ _ hclauses rfl htimed hwaiting hstopping
  have hmillis : waitedMillis (default.analyze "go left for 2 seconds then wait 2 seconds then stop"
      .initial).1.tokens = 4000 := by
    rw [htokens]
    decide
  exact ⟨hclauses, htokens, hmillis, hwaits.symm.trans hmillis⟩

end Interpreter

end Teleop
