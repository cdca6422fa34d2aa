import Teleop.CommandLine.Invocation

/-!
# What the program says about itself
-/

namespace Teleop.CommandLine

def programName : String := "sr-directive"

def programVersion : String := "0.1.0"

namespace Verb

def summary : Verb → String
  | parse => "Parse an utterance into command descriptors"
  | lower => "Parse and lower an utterance, one token per line"
  | session => "Read utterances from stdin against one session context"
  | dispatch => "Dry-run dispatch through an in-memory sink, honouring waits"
  | lexicon => "List lexicon entries (built-in plus configured)"

end Verb

namespace Flag

def summary : Flag → String
  | metrics => "Print counters to stderr before exiting"
  | json => "Emit JSON instead of lines"
  | explain => "Also show the normalized text and clauses"

end Flag

/-- A line of a table with two columns. -/
def tableLine (left right : String) : String :=
  "  " ++ left ++ String.ofList (List.replicate (18 - left.length) ' ') ++ "  " ++ right ++ "\n"

/-- The lines of the options that may stand beside some flags. -/
def optionLines (flags : List Flag) : String :=
  "\nOptions:\n" ++ tableLine "--config <CONFIG>" "Parser config (YAML or JSON)" ++
    String.join (flags.map fun f => tableLine ("--" ++ f.name) f.summary) ++
    tableLine "-h, --help" "Print help"

def overview : String :=
  "Compile operator utterances into instruction tokens\n\nUsage: " ++ programName ++
    " [OPTIONS] <COMMAND>\n\nCommands:\n" ++
    String.join (Verb.all.map fun v => tableLine v.name v.summary) ++
    optionLines [.metrics] ++ tableLine "-V, --version" "Print version"

def verbOverview (v : Verb) : String :=
  v.summary ++ "\n\nUsage: " ++ programName ++ " " ++ v.name ++ " [OPTIONS]" ++
    (if v.takesWords then " <UTTERANCE>..." else "") ++ "\n" ++ optionLines v.flags

namespace Refusal

/-- The status that the program ends with where its arguments are no invocation. -/
def status : Refusal → Nat
  | usage => 2
  | help _ | version => 0

/-- The text that answers arguments that are no invocation. -/
def text : Refusal → String
  | help none => overview
  | help (some v) => verbOverview v
  | version => programName ++ " " ++ programVersion ++ "\n"
  | usage => "error: unusable arguments\n\nUsage: " ++ programName ++ " [OPTIONS] <COMMAND>\n"

end Refusal

end Teleop.CommandLine
