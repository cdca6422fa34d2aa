import Teleop.Interpreter

/-!
# Counters of what was interpreted

Four counters are kept over all recorded readings. Their text form lists them in order of their names,
each with its description and its type.
-/

namespace Teleop

/-- The counters. An utterance of which nothing was understood counts as one unknown, however many
clauses it has. -/
structure Metrics where
  utterances : Nat
  clauses : Nat
  unknowns : Nat
  tokens : Nat
deriving DecidableEq, Repr

namespace Metrics

def empty : Metrics :=
  ⟨0, 0, 0, 0⟩

def record (m : Metrics) (r : Reading) : Metrics where
  utterances := m.utterances + 1
  clauses := m.clauses + r.clauses.length
  unknowns := m.unknowns + r.descriptors.countP Descriptor.isUnknown
  tokens := m.tokens + r.tokens.length

def counterText (name description : String) (value : Nat) : String :=
  "# HELP sr_parser_" ++ name ++ " " ++ description ++ "\n" ++
    "# TYPE sr_parser_" ++ name ++ " counter\n" ++
    "sr_parser_" ++ name ++ " " ++ String.ofList (Numeric.toDigits value) ++ "\n"

def text (m : Metrics) : String :=
  counterText "clauses" "Total clauses classified" m.clauses ++
    counterText "tokens" "Total instruction tokens lowered" m.tokens ++
    counterText "unknown_descriptors" "Unknown descriptors in parse results" m.unknowns ++
    counterText "utterances" "Total utterances parsed" m.utterances

end Metrics

end Teleop
