import Teleop.Interpreter
import Teleop.Record.Command

/-!
# Readings as records
-/

namespace Teleop.Reading

def toJson (r : Reading) : Json :=
  .ofMembers
    [("utterance", .ofString r.utterance),
     ("normalized", .ofString r.normalized),
     ("clauses", .array (r.clauses.map .ofString)),
     ("descriptors", .array (r.descriptors.map Descriptor.toJson))]

end Teleop.Reading
