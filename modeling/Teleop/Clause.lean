import Teleop.Text.Scan
import Teleop.Text.Words

/-!
# Clauses

An utterance is cut into clauses in two steps. Connectors, which are commas, semicolons, full stops
before a blank or the end, and the words that join clauses, are cut out together with the blanks
around them. Then each stretch is cut before every action verb that follows another action verb; only
the pair `camera zoom` names one action and is kept. Clauses are trimmed and empty ones dropped.
-/

namespace Teleop.Clause

open Text

/-- The verbs that open a new clause without a connector. -/
def actionVerbs : List String :=
  ["move", "go", "turn", "rotate", "stop", "speed", "camera", "zoom", "lights", "siren", "spray",
   "taser"]

def joiningWords : List String :=
  ["after that", "then", "and"]

def blanksAhead (text : List Char) : Nat :=
  (text.takeWhile isBlank).length

/-- The length of the connector at a place, without blanks before it. -/
def connectorLength? (before : Option Char) : List Char → Option Nat
  | [] => none
  | c :: rest =>
    if c = ',' || c = ';' then some (1 + blanksAhead rest)
    else if c = '.' then
      if rest.isEmpty || 0 < blanksAhead rest then some (1 + blanksAhead rest) else none
    else
      (joiningWords.find? (isWordAt before (c :: rest) ·.toList)).map fun w =>
        w.length + blanksAhead ((c :: rest).drop w.length)

/-- Recognises a connector with the blanks around it. -/
def recogniseConnector : Recogniser Unit := fun before text =>
  let gap := text.takeWhile isBlank
  (connectorLength? (gap.getLast?.or before) (text.drop gap.length)).map fun n =>
    ((), gap.length + n)

def recogniseVerb : Recogniser String := fun before text =>
  (actionVerbs.find? (isWordAt before text ·.toList)).map fun verb => (verb, verb.length)

/-- Whether two verbs with only blanks between them name one action. -/
def isOneAction (verb next : String) : Bool :=
  verb = "camera" && next = "zoom"

/-- The parts of a scanned stretch, cut before each verb that begins a new clause. `last` is the verb
before this place, if any, and `adjacent` tells whether only blanks have followed it. -/
def cutAtVerbs (last : Option String) (adjacent : Bool) : List (Piece String) → List (List Char)
  | [] => [[]]
  | .plain c :: rest => (cutAtVerbs last (adjacent && isBlank c) rest).modifyHead (c :: ·)
  | .found verb text :: rest =>
    let parts := (cutAtVerbs (some verb) true rest).modifyHead (text ++ ·)
    if last.any fun v => !(adjacent && isOneAction v verb) then [] :: parts else parts

/-- The clauses of a text that has no connector. -/
def ofStretch (text : List Char) : List (List Char) :=
  ((cutAtVerbs none true (scan recogniseVerb text)).map trim).filter (!·.isEmpty)

/-- The clauses of a text, in order. -/
def segment (text : String) : List String :=
  ((stretches (scan recogniseConnector text.toList)).flatMap ofStretch).map String.ofList

end Teleop.Clause
