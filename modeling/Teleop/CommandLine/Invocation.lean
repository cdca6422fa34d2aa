/-!
# Invocations of the program

The arguments of the program are a verb with options around it and, for some verbs, the words of an
utterance. The options of the whole program may stand before or behind the verb; a settings file that
is named behind the verb takes precedence. Behind the verb each verb has options of its own. On either
side an option is given at most once, and everything behind a double hyphen is a word.
-/

namespace Teleop.CommandLine

inductive Task where
  | parse (utterance : String) (asJson explain : Bool)
  | lower (utterance : String)
  | session (asJson : Bool)
  | dispatch (utterance : String)
  | lexicon
deriving DecidableEq, Repr

structure Invocation where
  settingsFile : Option String
  showMetrics : Bool
  task : Task
deriving DecidableEq, Repr

inductive Verb where
  | parse
  | lower
  | session
  | dispatch
  | lexicon
deriving DecidableEq, Repr

inductive Flag where
  | metrics
  | json
  | explain
deriving DecidableEq, Repr

inductive Refusal where
  | help (verb : Option Verb)
  | version
  | usage
deriving DecidableEq, Repr

namespace Verb

def all : List Verb := [parse, lower, session, dispatch, lexicon]

def name : Verb → String
  | parse => "parse"
  | lower => "lower"
  | session => "session"
  | dispatch => "dispatch"
  | lexicon => "lexicon"

def ofName? (name : String) : Option Verb :=
  all.find? (·.name = name)

/-- Whether a verb is about an utterance. -/
def takesWords : Verb → Bool
  | parse | lower | dispatch => true
  | session | lexicon => false

/-- The flags that may stand behind a verb. -/
def flags : Verb → List Flag
  | parse => [.metrics, .json, .explain]
  | session => [.metrics, .json]
  | lower | dispatch | lexicon => [.metrics]

end Verb

namespace Flag

/-- The spelling of a flag behind its hyphens. -/
def name : Flag → String
  | metrics => "metrics"
  | json => "json"
  | explain => "explain"

end Flag

/-- An argument by its form: a word, the double hyphen, a long option with the value behind its equals
sign, or a short option. -/
inductive Argument where
  | word
  | escape
  | long (name : String) (value : Option String)
  | short (letter : Char)
deriving DecidableEq, Repr

namespace Argument

/-- The form of an argument. A single hyphen is a word. -/
def ofString (argument : String) : Argument :=
  match argument.toList with
  | ['-', '-'] => .escape
  | '-' :: '-' :: rest =>
    .long (String.ofList (rest.takeWhile (· ≠ '=')))
      ((rest.dropWhile (· ≠ '=')).tail?.map String.ofList)
  | '-' :: letter :: _ => .short letter
  | _ => .word

end Argument

structure Given where
  settingsFile : Option String
  flags : List Flag
  words : List String

namespace Given

def nothing : Given :=
  ⟨none, [], []⟩

/-- Adds a flag of a verb, which may not be there yet. Without a verb, the flags of the whole program
are known. -/
def addFlag (g : Given) (verb : Option Verb) (name : String) : Except Refusal Given :=
  match ((verb.map Verb.flags).getD [.metrics]).find? (·.name = name) with
  | none => .error .usage
  | some flag =>
    if g.flags.contains flag then .error .usage else .ok { g with flags := flag :: g.flags }

/-- Adds the settings file, which may not be there yet and must have a name. -/
def addSettingsFile (g : Given) (file : String) : Except Refusal Given :=
  if file.isEmpty || g.settingsFile.isSome then .error .usage
  else .ok { g with settingsFile := some file }

def addWords (g : Given) (verb : Option Verb) (words : List String) : Except Refusal Given :=
  if words.isEmpty || verb.any Verb.takesWords then .ok { g with words := g.words ++ words }
  else .error .usage

/-- What the arguments on one side of the verb give, and the arguments from the verb on if it is the
side before the verb. -/
def read (verb : Option Verb) (g : Given) : List String → Except Refusal (Given × List String)
  | [] => .ok (g, [])
  | argument :: rest =>
    match Argument.ofString argument with
    | .word =>
      if verb.isNone then .ok (g, argument :: rest)
      else (g.addWords verb [argument]).bind fun g => g.read verb rest
    | .escape => (g.addWords verb rest).map (·, [])
    | .short 'h' | .long "help" none => .error (.help verb)
    | .short 'V' | .long "version" none => .error (if verb.isNone then .version else .usage)
    | .short _ => .error .usage
    | .long "config" (some file) => (g.addSettingsFile file).bind fun g => g.read verb rest
    | .long "config" none =>
      match rest with
      | [] => .error .usage
      | file :: rest =>
        if Argument.ofString file = .word then
          (g.addSettingsFile file).bind fun g => g.read verb rest
        else .error .usage
    | .long name none => (g.addFlag verb name).bind fun g => g.read verb rest
    | .long _ (some _) => .error .usage

def utterance (g : Given) : String :=
  " ".intercalate g.words

end Given

namespace Verb

def task (verb : Verb) (g : Given) : Task :=
  match verb with
  | parse => .parse g.utterance (g.flags.contains .json) (g.flags.contains .explain)
  | lower => .lower g.utterance
  | session => .session (g.flags.contains .json)
  | dispatch => .dispatch g.utterance
  | lexicon => .lexicon

end Verb

namespace Invocation

def ofArguments (arguments : List String) : Except Refusal Invocation := do
  let (before, rest) ← Given.nothing.read none arguments
  match rest with
  | [] => .error .usage
  | name :: rest =>
    match Verb.ofName? name with
    | none => .error .usage
    | some verb =>
      let (behind, _) ← Given.nothing.read (some verb) rest
      if verb.takesWords && behind.words.isEmpty then .error .usage
      else
        .ok {
          settingsFile := behind.settingsFile <|> before.settingsFile
          showMetrics := before.flags.contains .metrics || behind.flags.contains .metrics
          task := verb.task behind }

end Invocation

end Teleop.CommandLine
