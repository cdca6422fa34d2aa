import Teleop.CommandLine.Outcome
import Teleop.Proofs.Dispatch.History
import Teleop.Proofs.Interpreter.Conversation
import Teleop.Proofs.Lexicon.Apart
import Teleop.Proofs.Text.Lines
import Teleop.Proofs.Text.Words
import Teleop.Proofs.Token.Listing

/-!
# The ways from an utterance to its tokens

An utterance is lowered to lines, dispatched to a recorder, or read from a line of a session. The three ways
agree (`paths_agree`): what is dispatched is what is lowered without the waits and what is unknown, up to the
first emergency stop, and a session answers each line of its input that is not blank with the tokens of that
line, in the context that the lines before it leave.
-/

namespace Teleop

open Text

/-- The elements of a list up to the first one that is marked, which is the last one kept. -/
def upTo {α : Type} (mark : α → Bool) : List α → List α
  | [] => []
  | x :: rest => if mark x then [x] else x :: upTo mark rest

theorem upTo_map {α β : Type} {mark : β → Bool} (f : α → β) (xs : List α) :
    upTo mark (xs.map f) = (upTo (mark ∘ f) xs).map f := by
  induction xs with
  | nil => rfl
  | cons x rest ih =>
    rw [List.map_cons, upTo, upTo, ih, Function.comp_apply]
    split <;> rfl

namespace Token

/-- Whether a line is the wire text of a token that is sent: of neither a wait nor what is unknown. -/
def isSent (line : String) : Bool :=
  line ≠ "unknown" && !"wait:".toList.isPrefixOf line.toList

theorem toList_text (t : Token) : t.text.toList = t.chars :=
  String.toList_ofList

theorem isSent_of_head {line : String} {c : Char} {rest : List Char} (h : line.toList = c :: rest)
    (hunknown : c ≠ 'u') (hwait : c ≠ 'w') : isSent line = true := by
  have hne : line ≠ "unknown" := by
    rintro rfl
    exact hunknown (List.cons.inj h).1.symm
  simp [isSent, hne, h, List.isPrefixOf, Ne.symm hwait]

/-- The tokens that are sent can be told by their texts. -/
theorem isSent_text (t : Token) : isSent t.text = t.isOffered := by
  cases t with
  | wait d =>
    have hwait : isSent (wait d).text = false := by simp [isSent, toList_text, chars, parts]
    exact hwait
  | unknown => rfl
  | move d => cases d <;> exact isSent_of_head (toList_text _) (by decide) (by decide)
  | turn s => cases s <;> exact isSent_of_head (toList_text _) (by decide) (by decide)
  | rotate s x => cases s <;> exact isSent_of_head (toList_text _) (by decide) (by decide)
  | _ => exact isSent_of_head (toList_text _) (by decide) (by decide)

theorem text_eq_stop_iff {t : Token} : t.text = "safety.estop" ↔ t = .emergencyStop := by
  constructor
  · intro h
    have hchars : t.chars = emergencyStop.chars := by
      rw [← toList_text, h, ← toList_text]
      rfl
    have hread := ofChars?_chars t
    rw [hchars, ofChars?_chars, Option.some.injEq] at hread
    cases t <;> first | rfl | cases hread
  · rintro rfl
    rfl

/-- The wire text of a token has no blank in it. -/
theorem solid_text (t : Token) : ∀ c ∈ t.text.toList, isBlank c = false := by
  rw [toList_text]
  exact solid_chars t

/-- The wire texts of what is sent of a stream up to an emergency stop. -/
theorem map_text_sent (tokens : List Token) :
    ((upTo (· = .emergencyStop) tokens).filter isOffered).map text =
      (upTo (· = "safety.estop") (tokens.map text)).filter isSent := by
  have hstop : (fun line => decide (line = "safety.estop")) ∘ text =
      fun t => decide (t = .emergencyStop) := by
    funext t
    simp only [Function.comp_apply, text_eq_stop_iff]
  have hsent : isSent ∘ text = isOffered := funext isSent_text
  rw [upTo_map, hstop, List.filter_map, hsent]

end Token

/-! ## Dispatch -/

namespace Recorder

/-- What a recorder that refuses nothing keeps of a stream. -/
theorem dispatchFrom_open (name : String) (report : DispatchReport) (tokens : List Token)
    (kept : List Delivery) : ∃ report', (sink ⟨name, none⟩).dispatchFrom report tokens kept =
      (.ok report', kept ++ deliveries report.waitedMillis (upTo (· = .emergencyStop) tokens)) := by
  have hsend (d : Delivery) (kept : List Delivery) :
      (sink ⟨name, none⟩).send d kept = (.ok (), kept ++ [d]) := rfl
  induction tokens generalizing report kept with
  | nil => exact ⟨report, congrArg (Prod.mk _) (List.append_nil kept).symm⟩
  | cons token rest ih =>
    cases hoffered : token.isOffered with
    | false =>
      obtain ⟨report', hrest⟩ := ih { report with
        skipped := report.skipped + [token].count .unknown
        waitedMillis := report.waitedMillis + token.delayMillis } kept
      have hgoes : token ≠ .emergencyStop := by
        rintro rfl
        exact Bool.noConfusion hoffered
      refine ⟨report', ?_⟩
      rw [Sink.dispatchFrom_passed hoffered, hrest, upTo, if_neg (by simpa using hgoes), deliveries,
        if_neg (by simp [hoffered])]
    | true =>
      by_cases hstop : token = .emergencyStop
      · subst hstop
        rw [Sink.dispatchFrom_halted (hsend _ _)]
        exact ⟨_, rfl⟩
      · obtain ⟨report', hrest⟩ := ih { report with sent := report.sent + 1 }
          (kept ++ [⟨token, report.waitedMillis⟩])
        refine ⟨report', ?_⟩
        rw [Sink.dispatchFrom_taken hoffered hstop (hsend _ _), hrest, upTo, if_neg (by simpa using hstop),
          deliveries, if_pos hoffered, List.append_assoc, List.singleton_append]

end Recorder

/-! ## Sessions -/

/-- Whether a line is not blank. -/
def isSpoken (line : String) : Bool :=
  line.toList.any (!isBlank ·)

theorem isEmpty_trimString (line : String) : (trimString line).isEmpty = !isSpoken line := by
  rw [Bool.eq_iff_iff, String.isEmpty_iff, trimString, String.ofList_eq_empty_iff, trim_eq_nil_iff]
  simp [isSpoken]

namespace CommandLine

/-- The lines of a session that are read. -/
theorem readLines_encode (i : Interpreter) (lines : List (List Char)) (c : Context) :
    readLines i c (lines.map encode) =
      (i.converse ((lines.map String.ofList).filter isSpoken) c, true) := by
  induction lines generalizing c with
  | nil => rfl
  | cons line rest ih =>
    rw [List.map_cons, readLines, decode?_encode, List.map_cons, List.filter_cons]
    simp only [isEmpty_trimString, Bool.not_eq_true']
    split
    · rename_i hblank
      rw [hblank, ih]
      rfl
    · rename_i hspoken
      rw [Bool.not_eq_false] at hspoken
      rw [if_pos hspoken, Interpreter.converse_cons, ih]

/-! ## Arguments -/

/-- The options that name a settings file. -/
def options (file : Option String) : List String :=
  file.toList.map ("--config=" ++ ·)

theorem ofString_config (file : String) :
    Argument.ofString ("--config=" ++ file) = .long "config" (some file) := by
  have hchars : ("--config=" ++ file).toList = '-' :: '-' :: 'c' :: ("onfig".toList ++ '=' :: file.toList) :=
    String.toList_append
  have hsolid : ∀ c ∈ "config".toList, decide (c ≠ '=') = true := List.all_eq_true.mp (by decide)
  have hname : ("config".toList ++ '=' :: file.toList).takeWhile (· ≠ '=') = "config".toList := by
    rw [List.takeWhile_append_of_pos hsolid, List.takeWhile_cons_of_neg (by simp), List.append_nil]
  have hvalue : ("config".toList ++ '=' :: file.toList).dropWhile (· ≠ '=') = '=' :: file.toList := by
    rw [List.dropWhile_append_of_pos hsolid, List.dropWhile_cons_of_neg (by simp)]
  rw [Argument.ofString, hchars]
  change Argument.long (String.ofList (("config".toList ++ '=' :: file.toList).takeWhile (· ≠ '=')))
    ((("config".toList ++ '=' :: file.toList).dropWhile (· ≠ '=')).tail?.map String.ofList) = _
  rw [hname, hvalue, List.tail?_cons, Option.map_some, String.ofList_toList, String.ofList_toList]

theorem read_verb (g : Given) (verb : Verb) (rest : List String) :
    g.read none (verb.name :: rest) = .ok (g, verb.name :: rest) := by
  have hword : Argument.ofString verb.name = .word := by cases verb <;> rfl
  rw [Given.read.eq_def]
  simp only [hword]
  rfl

/-- The options in front of a verb are read up to the verb. -/
theorem read_options {file : Option String} (hfile : file ≠ some "") (verb : Verb) (rest : List String) :
    Given.nothing.read none (options file ++ verb.name :: rest) = .ok (⟨file, [], []⟩, verb.name :: rest) := by
  cases file with
  | none => exact read_verb .nothing verb rest
  | some file =>
    have hname : file.isEmpty = false := String.isEmpty_eq_false_iff.mpr fun hempty => hfile (hempty ▸ rfl)
    have hadd : Given.nothing.addSettingsFile file = .ok ⟨some file, [], []⟩ := by
      rw [Given.addSettingsFile, hname]
      rfl
    change Given.nothing.read none (("--config=" ++ file) :: verb.name :: rest) = _
    rw [Given.read.eq_def]
    simp only [ofString_config, hadd, Except.bind, read_verb]

/-- The invocation for a verb, given what is read behind the verb. -/
theorem ofArguments_verb {file : Option String} (hfile : file ≠ some "") {verb : Verb} {rest : List String}
    {words : List String} (hrest : Given.nothing.read (some verb) rest = .ok (⟨none, [], words⟩, []))
    (hwords : (verb.takesWords && words.isEmpty) = false) :
    Invocation.ofArguments (options file ++ verb.name :: rest) =
      .ok ⟨file, false, verb.task ⟨none, [], words⟩⟩ := by
  have hverb : Verb.ofName? verb.name = some verb := by cases verb <;> rfl
  rw [Invocation.ofArguments, read_options hfile]
  simp only [bind, Except.bind, hverb, hrest, hwords]
  rfl

theorem ofString_word {word : String} (h : word.toList.head? ≠ some '-') :
    Argument.ofString word = .word := by
  rw [Argument.ofString]
  split
  · rename_i hw
    simp [hw] at h
  · rename_i hw
    simp [hw] at h
  · rename_i hw
    simp [hw] at h
  · rfl

section Words

variable {verb : Verb} {utterance : List String}

/-- Words behind a verb that is about an utterance are taken one by one. -/
theorem read_words (hverb : verb.takesWords = true) (g : Given)
    (h : ∀ w ∈ utterance, w.toList.head? ≠ some '-') :
    g.read (some verb) utterance = .ok ({ g with words := g.words ++ utterance }, []) := by
  induction utterance generalizing g with
  | nil =>
    rw [List.append_nil]
    rfl
  | cons word rest ih =>
    obtain ⟨hword, hrest⟩ := List.forall_mem_cons.mp h
    have hadd : g.addWords (some verb) [word] = .ok { g with words := g.words ++ [word] } := by
      rw [Given.addWords, Option.any_some, hverb]
      rfl
    rw [Given.read.eq_def]
    simp only [ofString_word hword, hadd, Except.bind, ih _ hrest, List.append_assoc]
    rfl

/-- Behind the double hyphen all words are taken at once, whatever they begin with. -/
theorem read_escaped (hverb : verb.takesWords = true) (g : Given) :
    g.read (some verb) ("--" :: utterance) = .ok ({ g with words := g.words ++ utterance }, []) := by
  have hescape : Argument.ofString "--" = .escape := by rfl
  rw [Given.read.eq_def]
  simp [hescape, Given.addWords, hverb, Except.map]

end Words

theorem ofArguments_session {file : Option String} (hfile : file ≠ some "") :
    Invocation.ofArguments (options file ++ [Verb.session.name]) = .ok ⟨file, false, .session false⟩ :=
  ofArguments_verb hfile rfl rfl

/-! ## What is printed -/

/-- The program is called with some arguments, fails in nothing and prints some lines. -/
def Prints (fileText : String → Option String) (input : List UInt8) (stamp : Nat → String)
    (arguments : List String) (lines : List String) : Prop :=
  ∃ v, Invocation.ofArguments arguments = .ok v ∧ (v.outcome fileText input).failure = none ∧
    bareLines ((v.outcome fileText input).output stamp) = lines

/-- The token of a line that shows the time at which it is sent: what is behind the tab. -/
def sentToken (line : String) : String :=
  String.ofList (line.toList.dropWhile (· ≠ '\t')).tail

/-- A text without a line feed and without a carriage return. -/
def IsLine (text : String) : Prop :=
  '\n' ∉ text.toList ∧ '\r' ∉ text.toList

theorem isLine_text (t : Token) : IsLine t.text := by
  constructor <;> exact fun h => absurd (t.solid_text _ h) (by decide)

theorem isLine_of_mem_wire {r : Reading} {line : String} (h : line ∈ r.wire) : IsLine line := by
  obtain ⟨t, -, rfl⟩ := List.mem_map.mp h
  exact isLine_text t

theorem IsLine.append {s t : String} (hs : IsLine s) (ht : IsLine t) : IsLine (s ++ t) := by
  simp only [IsLine, String.toList_append, List.mem_append, not_or]
  exact ⟨⟨hs.1, ht.1⟩, hs.2, ht.2⟩

theorem isLine_intercalate {lines : List String} (h : ∀ line ∈ lines, IsLine line) :
    IsLine (" ".intercalate lines) := by
  induction lines with
  | nil => exact ⟨by simp, by simp⟩
  | cons line rest ih =>
    obtain ⟨hline, hrest⟩ := List.forall_mem_cons.mp h
    cases rest with
    | nil => rwa [String.intercalate_singleton]
    | cons next rest =>
      have hspace : IsLine " " := ⟨by decide, by decide⟩
      rw [String.intercalate_cons_cons]
      exact (hline.append hspace).append (ih hrest)

section Agreement

variable {file : Option String} {fileText : String → Option String} {i : Interpreter} {stamp : Nat → String}

theorem prints_of {v : Invocation} {arguments lines : List String} {input : List UInt8}
    (hcall : Invocation.ofArguments arguments = .ok v) (h : v.interpreter fileText = .ok i)
    (hfailure : (v.task.outcome i input).failure = none)
    (hlines : bareLines ((v.task.outcome i input).output stamp) = lines) :
    Prints fileText input stamp arguments lines := by
  have houtcome : v.outcome fileText input = v.task.outcome i input := by
    rw [Invocation.outcome, h]
  exact ⟨v, hcall, houtcome ▸ hfailure, houtcome ▸ hlines⟩

theorem bareLines_output {o : Outcome} {lines : List String} (hprinted : o.printed = lines.map .line)
    (hlines : ∀ line ∈ lines, IsLine line) : bareLines (o.output stamp) = lines := by
  rw [Outcome.output, hprinted, List.map_map]
  exact bareLines_join hlines

def sentLine (stamp : Nat → String) (d : Delivery) : String :=
  stamp d.afterMillis ++ "\t" ++ d.token.text

theorem isLine_sentLine (hstamp : ∀ n, ∀ c ∈ (stamp n).toList, 32 ≤ c.toNat) (d : Delivery) :
    IsLine (sentLine stamp d) := by
  have htime : IsLine (stamp d.afterMillis) := by
    constructor <;> exact fun h => absurd (hstamp _ _ h) (by decide)
  have htab : IsLine "\t" := ⟨by decide, by decide⟩
  exact (htime.append htab).append (isLine_text d.token)

theorem sentToken_sentLine (hstamp : ∀ n, ∀ c ∈ (stamp n).toList, 32 ≤ c.toNat) (d : Delivery) :
    sentToken (sentLine stamp d) = d.token.text := by
  have htime : ∀ c ∈ (stamp d.afterMillis).toList, decide (c ≠ '\t') = true := by
    intro c hc
    rw [decide_eq_true_eq]
    rintro rfl
    exact absurd (hstamp _ _ hc) (by decide)
  have hchars : (sentLine stamp d).toList =
      (stamp d.afterMillis).toList ++ '\t' :: d.token.text.toList := by
    rw [sentLine, String.toList_append, String.toList_append, List.append_assoc]
    rfl
  rw [sentToken, hchars, List.dropWhile_append_of_pos htime, List.dropWhile_cons_of_neg (by simp),
    List.tail_cons, String.ofList_toList]

/-- What is printed for an utterance that is lowered. -/
theorem bareLines_lower (i : Interpreter) (input : List UInt8) (utterance : String) :
    bareLines (((Task.lower utterance).outcome i input).output stamp) =
      (i.analyze utterance .initial).1.wire := by
  refine bareLines_output ?_ fun line hline => isLine_of_mem_wire hline
  rw [Task.outcome, Task.once]

/-- What is printed for an utterance that is dispatched. -/
theorem bareLines_dispatch (i : Interpreter) (input : List UInt8) (utterance : String)
    (hstamp : ∀ n, ∀ c ∈ (stamp n).toList, 32 ≤ c.toNat) :
    ((Task.dispatch utterance).outcome i input).failure = none ∧
      (bareLines (((Task.dispatch utterance).outcome i input).output stamp)).map sentToken =
        (upTo (· = "safety.estop") (i.analyze utterance .initial).1.wire).filter Token.isSent := by
  rw [Task.outcome, Task.send, Reading.wire]
  generalize (i.analyze utterance .initial).1 = reading
  obtain ⟨report, hreport⟩ := Recorder.dispatchFrom_open "dry-run" .empty reading.tokens []
  have hsink : (Recorder.sink ⟨"dry-run", none⟩).dispatch reading.tokens [] =
      (.ok report, deliveries 0 (upTo (· = .emergencyStop) reading.tokens)) := hreport
  simp only [hsink, true_and]
  generalize hdeliveries : deliveries 0 (upTo (· = .emergencyStop) reading.tokens) = ds
  have houtput : String.join ((ds.map Printed.sent).map (·.text stamp)) =
      String.join ((ds.map (sentLine stamp)).map (· ++ "\n")) := by
    rw [List.map_map, List.map_map]
    rfl
  have hlines : ∀ line ∈ ds.map (sentLine stamp), IsLine line := by
    intro line hline
    obtain ⟨d, -, rfl⟩ := List.mem_map.mp hline
    exact isLine_sentLine hstamp d
  have htokens : sentToken ∘ sentLine stamp = Token.text ∘ (·.token) :=
    funext (sentToken_sentLine hstamp)
  rw [Outcome.output, houtput, bareLines_join hlines, List.map_map, htokens, ← List.map_map, ← hdeliveries,
    map_token_deliveries, Token.map_text_sent]

theorem readLines_text (i : Interpreter) (text : String) :
    readLines i .initial (byteLines text.toUTF8.toList) =
      (i.converse ((bareLines text).filter isSpoken) .initial, true) := by
  rw [toList_toUTF8, byteLines_encode, readLines_encode, bareLines]

/-- What is printed for the lines of a session. -/
theorem bareLines_session (i : Interpreter) (text : String) :
    bareLines (((Task.session false).outcome i text.toUTF8.toList).output stamp) =
      (i.converse ((bareLines text).filter isSpoken) .initial).map fun (reading, _) =>
        " ".intercalate reading.wire := by
  rw [Task.outcome, Task.converse, readLines_text]
  generalize i.converse ((bareLines text).filter isSpoken) .initial = readings
  refine bareLines_output ?_ fun line hline => ?_
  · rw [List.map_map]
    rfl
  · obtain ⟨⟨reading, after⟩, -, rfl⟩ := List.mem_map.mp hline
    exact isLine_intercalate fun token htoken => isLine_of_mem_wire htoken

/-- Without a settings file the default settings are used. -/
theorem interpreter_default {v : Invocation} (h : v.settingsFile = none) :
    v.interpreter fileText = .ok .default := by
  have hsettings : Interpreter.ofSettings .default = .ok .default := by
    have hlexicon : Settings.default.lexicon = [] := rfl
    rw [Interpreter.ofSettings, hlexicon, Lexicon.withExtra_nil]
    rfl
  -- with the settings as a variable, so that no step evaluates the lexicon
  have hbind (settings : Settings) (f : Settings → Except Failure Interpreter) :
      (Except.ok settings >>= f) = f settings := rfl
  rw [Invocation.interpreter, h]
  dsimp only
  rw [hbind, hsettings]
  rfl

/-- The ways from an utterance to its tokens agree, whatever settings are used. The words of an utterance
stand behind the double hyphen, or right behind the verb where none of them begins with a hyphen. -/
theorem paths_agree (hfile : file ≠ some "")
    (h : ∀ v : Invocation, v.settingsFile = file → v.interpreter fileText = .ok i) (input : List UInt8)
    (hstamp : ∀ n, ∀ c ∈ (stamp n).toList, 32 ≤ c.toNat) :
    (∀ utterance : List String, utterance ≠ [] → ∃ lowered sent : List String,
      Prints fileText input stamp (options file ++ "lower" :: "--" :: utterance) lowered ∧
      lowered = (i.analyze (" ".intercalate utterance) .initial).1.wire ∧
      (file = none → lowered = Interpreter.compile (" ".intercalate utterance)) ∧
      Prints fileText input stamp (options file ++ "dispatch" :: "--" :: utterance) sent ∧
      sent.map sentToken = (upTo (· = "safety.estop") lowered).filter Token.isSent ∧
      ((∀ w ∈ utterance, w.toList.head? ≠ some '-') →
        Prints fileText input stamp (options file ++ "lower" :: utterance) lowered ∧
        Prints fileText input stamp (options file ++ "dispatch" :: utterance) sent)) ∧
    ∀ text : String, Prints fileText text.toUTF8.toList stamp (options file ++ ["session"])
      ((i.converse ((bareLines text).filter isSpoken) .initial).map fun (reading, _) =>
        " ".intercalate reading.wire) := by
  constructor
  · intro utterance hutterance
    obtain ⟨hfailure, hsent⟩ := bareLines_dispatch i input (" ".intercalate utterance) hstamp
    have hlower (arguments : List String)
        (hcall : Invocation.ofArguments arguments = .ok ⟨file, false, .lower (" ".intercalate utterance)⟩) :
        Prints fileText input stamp arguments (i.analyze (" ".intercalate utterance) .initial).1.wire :=
      prints_of hcall (h _ rfl) rfl (bareLines_lower i input _)
    have hdispatch (arguments : List String)
        (hcall : Invocation.ofArguments arguments =
          .ok ⟨file, false, .dispatch (" ".intercalate utterance)⟩) :
        Prints fileText input stamp arguments _ :=
      prints_of hcall (h _ rfl) hfailure rfl
    have hsome (verb : Verb) : (verb.takesWords && utterance.isEmpty) = false := by simp [hutterance]
    refine ⟨_, _, hlower _ ?_, rfl, ?_, hdispatch _ ?_, hsent, fun hplain => ⟨hlower _ ?_, hdispatch _ ?_⟩⟩
    · exact ofArguments_verb hfile (read_escaped rfl _) (hsome .lower)
    · rintro rfl
      have hdefault : (Except.ok i : Except Failure Interpreter) = .ok .default :=
        (h ⟨none, false, .lexicon⟩ rfl).symm.trans (interpreter_default rfl)
      rw [Except.ok.inj hdefault, Interpreter.compile]
    · exact ofArguments_verb hfile (read_escaped rfl _) (hsome .dispatch)
    · exact ofArguments_verb hfile (read_words rfl _ hplain) (hsome .lower)
    · exact ofArguments_verb hfile (read_words rfl _ hplain) (hsome .dispatch)
  · intro text
    have hfailure : ((Task.session false).outcome i text.toUTF8.toList).failure = none := by
      rw [Task.outcome, Task.converse, readLines_text]
      rfl
    exact prints_of (ofArguments_session hfile) (h _ rfl) hfailure (bareLines_session i text)

end Agreement

/-- Without a settings file: an utterance of two words, and a session with a blank line in it. -/
theorem paths_agree_go_left :
    (∀ v : Invocation, v.settingsFile = none → v.interpreter (fun _ => none) = .ok .default) ∧
      (∃ lowered sent : List String,
        Prints (fun _ => none) [] (fun _ => "0") ["lower", "--", "go", "left"] lowered ∧
          lowered = Interpreter.compile "go left" ∧
          Prints (fun _ => none) [] (fun _ => "0") ["dispatch", "--", "go", "left"] sent ∧
          sent.map sentToken = (upTo (· = "safety.estop") lowered).filter Token.isSent ∧
          Prints (fun _ => none) [] (fun _ => "0") ["lower", "go", "left"] lowered ∧
          Prints (fun _ => none) [] (fun _ => "0") ["dispatch", "go", "left"] sent) ∧
      Prints (fun _ => none) "go left\n \r\nstop".toUTF8.toList (fun _ => "0") ["session"]
        ((Interpreter.default.converse ["go left", "stop"] .initial).map fun (reading, _) =>
          " ".intercalate reading.wire) := by
  have hdefault : ∀ v : Invocation, v.settingsFile = none → v.interpreter (fun _ => none) = .ok .default :=
    fun v hv => interpreter_default hv
  have hstamp : ∀ n : Nat, ∀ c ∈ ((fun _ => "0") n).toList, 32 ≤ c.toNat := by
    intro n c hc
    obtain rfl : c = '0' := by simpa using hc
    decide
  have hlines : (bareLines "go left\n \r\nstop").filter isSpoken = ["go left", "stop"] := by decide
  have hwords : " ".intercalate ["go", "left"] = "go left" := by decide
  obtain ⟨hutterances, hsessions⟩ := paths_agree (show none ≠ some "" by simp) hdefault [] hstamp
  obtain ⟨lowered, sent, hlower, -, hcompile, hdispatch, hsent, hplain⟩ :=
    hutterances ["go", "left"] (by simp)
  have hhyphens : ∀ w ∈ ["go", "left"], w.toList.head? ≠ some '-' := by decide
  have hsession := hsessions "go left\n \r\nstop"
  rw [hlines] at hsession
  exact ⟨hdefault, ⟨lowered, sent, hlower, hwords ▸ hcompile rfl, hdispatch, hsent, hplain hhyphens⟩,
    hsession⟩

end CommandLine

end Teleop
