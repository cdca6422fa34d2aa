import Teleop.Classification.Cascade
import Teleop.Clause
import Teleop.Lexicon.Normalization
import Teleop.Settings
import Teleop.Token.Lowering

/-!
# Interpreting an utterance

An utterance is normalized, cut into clauses, and each clause is classified in the context that the
clauses before it leave. Where nothing was understood, the utterance may be a request to repeat the
last direction; failing that it is unknown as a whole.
-/

namespace Teleop

open Numeric Text

structure Reading where
  utterance : String
  normalized : String
  clauses : List String
  descriptors : List Descriptor
deriving DecidableEq

namespace Reading

def isUnknown (r : Reading) : Bool :=
  r.descriptors.all Descriptor.isUnknown

def tokens (r : Reading) : List Token :=
  Token.ofDescriptors r.descriptors

def wire (r : Reading) : List String :=
  r.tokens.map Token.text

end Reading

structure Interpreter where
  settings : Settings
  lexicon : Lexicon

namespace Interpreter

/-- The interpreter of some settings, or the fault of their lexicon. -/
def ofSettings (settings : Settings) : Except LexiconFault Interpreter :=
  (Lexicon.withExtra settings.lexicon).map (⟨settings, ·⟩)

def default : Interpreter :=
  ⟨.default, .builtin⟩

def repeatWords : List String := ["again", "repeat"]

def repeatPhrases : List String := ["once more", "one more time"]

/-- Whether a normalized utterance asks for a repetition. Its words are stripped of punctuation. -/
def asksToRepeat (normalized : String) : Bool :=
  let bare := (words normalized.toList).map View.bareWord
  bare.any (fun w => repeatWords.any (·.toList == w)) ||
    repeatPhrases.any fun p => containsPhrase (unwords bare) p.toList

/-- The repetition of the last direction, if there is one. To a side it keeps the manner of the last
turn. -/
def repetition? (normalized : String) (c : Context) : Option Descriptor := do
  guard (asksToRepeat normalized)
  let direction ← c.lastDirection
  let style := if direction.isLateral then c.lastTurnStyle.moveStyle else .normal
  return .make (.move (.toward direction style)) Confidence.ellipsis normalized

/-- The descriptors of some clauses, classified one after the other, and the context after them. -/
def classifyAll (zoomStep : Binary64) : List String → Context → Rule.Outcome
  | [], c => ([], c)
  | clause :: rest, c =>
    let (first, c) := classify zoomStep clause c
    let (others, c) := classifyAll zoomStep rest c
    (first ++ others, c)

/-- The reading of an utterance and the context after it. -/
def analyze (i : Interpreter) (utterance : String) (c : Context) : Reading × Context :=
  let normalized := i.lexicon.normalize utterance
  let clauses := Clause.segment normalized
  let (descriptors, after) := classifyAll i.settings.zoomStep clauses c
  let descriptors :=
    if descriptors.all Descriptor.isUnknown then
      [(repetition? normalized after).getD (.unknown (trimString utterance))]
    else descriptors
  (⟨utterance, normalized, clauses, descriptors⟩, after)

/-- The wire texts of an utterance at the start of a session, under the default settings. -/
def compile (utterance : String) : List String :=
  (default.analyze utterance .initial).1.wire

end Interpreter

end Teleop
