import Teleop.Json.Reader
import Teleop.Record.Settings
import Teleop.Settings.Yaml

/-!
# Settings files

The ending of a file's name decides how its text is read. What is read must have a confidence
threshold within its range.
-/

namespace Teleop

inductive SettingsFault where
  | unreadable
  | badYaml
  | badJson
  | thresholdOutOfRange
deriving DecidableEq, Repr

namespace SettingsFault

def message (file : String) : SettingsFault → String
  | unreadable => "reading config: " ++ file
  | badYaml => "parsing yaml: " ++ file
  | badJson => "parsing json: " ++ file
  | thresholdOutOfRange => "confidence_threshold must be within 0..=1 in " ++ file

end SettingsFault

namespace Settings

/-- The part of a path behind its last slash. -/
def fileName (path : List Char) : List Char :=
  (path.reverse.takeWhile (· ≠ '/')).reverse

/-- The ending of a file's name: what stands behind its last dot, if a dot stands behind its first
character. -/
def ending? (path : String) : Option String :=
  let name := fileName path.toList
  let ending := (name.reverse.takeWhile (· ≠ '.')).reverse
  if ending.length + 1 < name.length then some (String.ofList ending) else none

def isYamlFile (path : String) : Bool :=
  ending? path = some "yml" || ending? path = some "yaml"

def ofText (path text : String) : Except SettingsFault Settings :=
  if isYamlFile path then (ofYaml? text).elim (.error .badYaml) .ok
  else ((Json.readString? text).bind ofJson?).elim (.error .badJson) .ok

/-- The settings of a file, given its text if it can be read. -/
def ofFile (path : String) (text : Option String) : Except SettingsFault Settings :=
  match text with
  | none => .error .unreadable
  | some text => do
    let settings ← ofText path text
    if settings.hasValidThreshold then .ok settings else .error .thresholdOutOfRange

end Settings

end Teleop
