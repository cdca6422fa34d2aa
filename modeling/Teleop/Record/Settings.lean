import Teleop.Record.Fields
import Teleop.Settings

/-!
# Settings as records

Every field of the settings may be left out, also at the end of the positional form.
-/

namespace Teleop

namespace Entry

def toJson (e : Entry) : Json :=
  .ofMembers [("source", .ofString e.source), ("canonical", .ofString e.canonical)]

def ofJson? (j : Json) : Option Entry := do
  let f ← Fields.ofJson? ["source", "canonical"] j
  return ⟨← f.required? "source" Json.asString?, ← f.required? "canonical" Json.asString?⟩

end Entry

namespace Settings

def fieldNames : List String :=
  ["confidence_threshold", "zoom_step", "lexicon"]

def toJson (s : Settings) : Json :=
  .ofMembers
    [("confidence_threshold", .ofBinary32 s.confidenceThreshold),
     ("zoom_step", .ofBinary64 s.zoomStep),
     ("lexicon", .array (s.lexicon.map Entry.toJson))]

def ofJson? (j : Json) : Option Settings := do
  let f ← Fields.ofJson? fieldNames j
  return {
    confidenceThreshold :=
      ← f.withDefault? "confidence_threshold" default.confidenceThreshold Json.asBinary32?
    zoomStep := ← f.withDefault? "zoom_step" default.zoomStep Json.asBinary64?
    lexicon := ← f.withDefault? "lexicon" default.lexicon (Json.asList? Entry.ofJson?) }

end Settings

end Teleop
