import Teleop.Settings
import Teleop.Numeric.Numeral
import Teleop.Yaml.Node

/-!
# Settings in YAML

Settings are a mapping, of which unknown members are ignored and known ones may not be repeated. A
number must stand without quotes. A text may be any scalar. Where nothing is written there is an empty
mapping or sequence, so that a text without a document is the default settings.
-/

namespace Teleop

open Numeric

namespace Yaml.Node

def asString? : Node → Option String
  | scalar _ text => some (String.ofList text)
  | _ => none

def numeral? (text : List Char) : Option Binary64 :=
  (Binary.read? text).filter Binary.isFinite

/-- The number that a text denotes: an infinity or no number by its own name, or a finite numeral. -/
def number? (text : List Char) : Option Binary64 :=
  match String.ofList text with
  | ".inf" | ".Inf" | ".INF" | "+.inf" | "+.Inf" | "+.INF" => some (.infinite false)
  | "-.inf" | "-.Inf" | "-.INF" => some (.infinite true)
  | ".nan" | ".NaN" | ".NAN" => some .nan
  | _ =>
    match text with
    | '+' :: '+' :: _ | '+' :: '-' :: _ => none
    | '+' :: rest => numeral? rest
    | _ => numeral? text

/-- The number that a scalar without quotes denotes. -/
def asBinary64? : Node → Option Binary64
  | scalar true text => number? text
  | _ => none

/-- The elements of a sequence; the empty scalar has none. -/
def asList? {α : Type} (read : Node → Option α) : Node → Option (List α)
  | sequence elements => elements.mapM read
  | scalar true [] => some []
  | _ => none

/-- The given fields of a record that has fields of some names, or nothing if one of these is repeated.
The empty scalar gives none. -/
def fields? (names : List String) : Node → Option (List (String × Node))
  | mapping members => do
    let given ← members.mapM fun (name, value) => name.asString?.map (·, value)
    guard (names.all fun name => (given.filter (·.1 = name)).length ≤ 1)
    return given
  | scalar true [] => some []
  | _ => none

def asEntry? (node : Node) : Option Entry := do
  let given ← node.fields? ["source", "canonical"]
  return ⟨← (← given.lookup "source").asString?, ← (← given.lookup "canonical").asString?⟩

def asSettings? (node : Node) : Option Settings := do
  let given ← node.fields? ["confidence_threshold", "zoom_step", "lexicon"]
  let threshold ← (given.lookup "confidence_threshold").elim
    (some Settings.default.confidenceThreshold) fun n => n.asBinary64?.map Binary.convert
  let zoomStep ← (given.lookup "zoom_step").elim (some Settings.default.zoomStep) asBinary64?
  let lexicon ← (given.lookup "lexicon").elim (some []) (asList? asEntry?)
  return ⟨threshold, zoomStep, lexicon⟩

end Yaml.Node

namespace Settings

def ofYaml? (text : String) : Option Settings := do
  match ← Yaml.Node.read? text.toList with
  | none => return .default
  | some node => node.asSettings?

end Settings

end Teleop
