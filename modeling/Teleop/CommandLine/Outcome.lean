import Teleop.CommandLine.Invocation
import Teleop.Dispatch
import Teleop.Json.Writer
import Teleop.Metrics
import Teleop.Numeric.Fixed
import Teleop.Record.Context
import Teleop.Record.Reading
import Teleop.Settings.File
import Teleop.Text.Lines

/-!
# Outcomes of invocations

An invocation is answered from the text of its settings file and the bytes of its input. What it prints
is kept apart from the time at which tokens are sent, so that an outcome depends on nothing else.
-/

namespace Teleop.CommandLine

open Text

inductive Failure where
  | settings (file : String) (fault : SettingsFault)
  | lexicon (fault : LexiconFault)
  | input
  | rejected (rejection : Rejection)

namespace Failure

def message : Failure → String
  | settings file fault => fault.message file
  | lexicon _ => "building parser"
  | input => "reading stdin"
  | rejected r => r.message

end Failure

inductive Printed where
  | line (text : String)
  | sent (delivery : Delivery)
deriving DecidableEq

namespace Printed

/-- The text of something printed, where `stamp` writes the time at which a token is sent. -/
def text (stamp : Nat → String) : Printed → String
  | line t => t ++ "\n"
  | sent d => stamp d.afterMillis ++ "\t" ++ d.token.text ++ "\n"

end Printed

structure Outcome where
  printed : List Printed
  metrics : Metrics
  waitedMillis : Nat
  failure : Option Failure

namespace Outcome

/-- The outcome of an invocation that fails before it prints anything. -/
def failed (failure : Failure) : Outcome :=
  ⟨[], .empty, 0, some failure⟩

/-- The text on the standard output. -/
def output (o : Outcome) (stamp : Nat → String) : String :=
  String.join (o.printed.map (·.text stamp))

def status (o : Outcome) : Nat :=
  if o.failure.isSome then 1 else 0

/-- The text on the standard error output. The counters are shown only where nothing failed. -/
def complaint (o : Outcome) (showMetrics : Bool) : String :=
  match o.failure with
  | some f => "Error: " ++ f.message ++ "\n"
  | none => if showMetrics then o.metrics.text else ""

end Outcome

/-- The line of a descriptor: its confidence with two decimal places, its command and its text. -/
def descriptorLine (d : Descriptor) : String :=
  String.ofList (d.confidence.fixed 2) ++ "\t" ++ d.command.toJson.compactString ++ "\t" ++ d.raw

/-- The lines that explain a reading: the normalized text and the numbered clauses. -/
def explanation (r : Reading) : List String :=
  ("normalized: " ++ r.normalized) ::
    r.clauses.zipIdx.map fun (clause, i) =>
      "clause " ++ String.ofList (Numeric.toDigits i) ++ ": " ++ clause

def readingLines (r : Reading) (asJson explain : Bool) : List String :=
  match asJson, explain with
  | true, true => [r.toJson.indentedString]
  | true, false => [(Json.array (r.descriptors.map Descriptor.toJson)).indentedString]
  | false, true => explanation r ++ r.descriptors.map descriptorLine
  | false, false => r.descriptors.map descriptorLine

/-- The line that answers an utterance of a session: its tokens, or an object of which all members
are in the order of their names. -/
def answerLine (asJson : Bool) (r : Reading) (after : Context) : String :=
  if asJson then
    (Json.ofMembersByName
      [("context", .ofMembersByName after.members), ("tokens", .array (r.wire.map .ofString)),
       ("utterance", .ofString r.utterance)]).compactString
  else " ".intercalate r.wire

/-- The readings of the lines of a session, each with the context after it, and whether every line is
a text. Blank lines are passed over. -/
def readLines (i : Interpreter) (c : Context) : List (List UInt8) → List (Reading × Context) × Bool
  | [] => ([], true)
  | line :: rest =>
    match decode? line with
    | none => ([], false)
    | some utterance =>
      if (trimString utterance).isEmpty then readLines i c rest
      else
        let (reading, after) := i.analyze utterance c
        let (others, complete) := readLines i after rest
        ((reading, after) :: others, complete)

namespace Task

def once (i : Interpreter) (utterance : String) (print : Reading → List Printed) : Outcome :=
  let reading := (i.analyze utterance .initial).1
  ⟨print reading, Metrics.empty.record reading, 0, none⟩

/-- The outcome of sending the tokens of one utterance to a recorder. -/
def send (i : Interpreter) (utterance : String) : Outcome :=
  let reading := (i.analyze utterance .initial).1
  let (result, kept) := (Recorder.sink ⟨"dry-run", none⟩).dispatch reading.tokens []
  match result with
  | .ok report => ⟨kept.map .sent, Metrics.empty.record reading, report.waitedMillis, none⟩
  | .error r => .failed (.rejected r)

/-- The outcome of answering the lines of the input in one session. -/
def converse (i : Interpreter) (asJson : Bool) (input : List UInt8) : Outcome :=
  let (readings, complete) := readLines i .initial (byteLines input)
  { printed := readings.map fun (r, after) => .line (answerLine asJson r after)
    metrics := (readings.map (·.1)).foldl Metrics.record .empty
    waitedMillis := 0
    failure := if complete then none else some .input }

def outcome (i : Interpreter) (input : List UInt8) : Task → Outcome
  | parse utterance asJson explain =>
    once i utterance fun r => (readingLines r asJson explain).map .line
  | lower utterance => once i utterance fun r => r.wire.map .line
  | session asJson => converse i asJson input
  | dispatch utterance => send i utterance
  | lexicon =>
    ⟨i.lexicon.entries.map fun e => .line (e.source ++ "\t" ++ e.canonical), .empty, 0, none⟩

end Task

namespace Invocation

/-- The interpreter that an invocation asks for, where `fileText` gives the texts of files. -/
def interpreter (v : Invocation) (fileText : String → Option String) :
    Except Failure Interpreter := do
  let settings ← match v.settingsFile with
    | none => .ok .default
    | some file => (Settings.ofFile file (fileText file)).mapError (.settings file)
  (Interpreter.ofSettings settings).mapError .lexicon

def outcome (v : Invocation) (fileText : String → Option String) (input : List UInt8) : Outcome :=
  match v.interpreter fileText with
  | .error f => .failed f
  | .ok i => v.task.outcome i input

end Invocation

end Teleop.CommandLine
