import Teleop.Session
import Teleop.Proofs.Interpreter.Reading

/-!
# Conversations

A conversation is a row of utterances in one session: each is read in the context that the one before it
leaves. A session of a station that is asked for such readings, and for nothing else, answers with the
readings of the conversation and ends in its last context, whatever the other sessions hold.
-/

namespace Teleop

namespace Interpreter

/-- The readings of a row of utterances, each with the context after it. -/
def converse (i : Interpreter) : List String → Context → List (Reading × Context)
  | [], _ => []
  | utterance :: rest, c =>
    i.analyze utterance c :: i.converse rest (i.analyze utterance c).2

/-- The context after a row of utterances. -/
def contextAfter (i : Interpreter) (utterances : List String) (c : Context) : Context :=
  utterances.foldl (fun c utterance => (i.analyze utterance c).2) c

theorem contextAfter_cons (i : Interpreter) (utterance : String) (rest : List String) (c : Context) :
    i.contextAfter (utterance :: rest) c = i.contextAfter rest (i.analyze utterance c).2 := by
  unfold contextAfter
  rw [List.foldl_cons]

/-- The commands of some readings, in order. -/
def commandsOf (readings : List (Reading × Context)) : List Command :=
  readings.flatMap fun (r, _) => r.descriptors.map (·.command)

theorem converse_cons (i : Interpreter) (utterance : String) (rest : List String) (c : Context) :
    i.converse (utterance :: rest) c =
      i.analyze utterance c :: i.converse rest (i.analyze utterance c).2 := by
  rw [converse]

theorem commandsOf_cons (r : Reading × Context) (rest : List (Reading × Context)) :
    commandsOf (r :: rest) = r.1.descriptors.map (·.command) ++ commandsOf rest := by
  rw [commandsOf, commandsOf, List.flatMap_cons]

end Interpreter

namespace Station

def afterAll (s : Station) (requests : List Request) : Station :=
  requests.foldl (fun s request => (s.serve request).2) s

def answers (s : Station) (requests : List Request) : List Answer :=
  (s.serveAll requests).map Prod.fst

variable {s : Station} {k : Nat} {c : Context}

theorem afterAll_cons (s : Station) (request : Request) (rest : List Request) :
    s.afterAll (request :: rest) = (s.serve request).2.afterAll rest := rfl

theorem answers_cons (s : Station) (request : Request) (rest : List Request) :
    s.answers (request :: rest) = (s.serve request).1 :: (s.serve request).2.answers rest := rfl

theorem serve_parse (h : s.contexts[k]? = some c) (utterance : String) :
    s.serve (.parse k utterance) =
      (.parsed (s.interpreter.analyze utterance c).1 (s.interpreter.analyze utterance c).2,
        { s.setContext k (s.interpreter.analyze utterance c).2 with
          metrics := s.metrics.record (s.interpreter.analyze utterance c).1 }) := by
  simp only [serve, h]

/-- A session that is only asked for readings holds the conversation. -/
theorem conversation (h : s.contexts[k]? = some c) (utterances : List String) :
    s.answers (utterances.map (.parse k)) =
        (s.interpreter.converse utterances c).map (fun (r, after) => .parsed r after) ∧
      (s.afterAll (utterances.map (.parse k))).contexts[k]? =
        some (s.interpreter.contextAfter utterances c) := by
  induction utterances generalizing s c with
  | nil => exact ⟨rfl, h⟩
  | cons utterance rest ih =>
    have hnext : (s.serve (.parse k utterance)).2.contexts[k]? =
        some (s.interpreter.analyze utterance c).2 := by
      have hk : k < s.contexts.length := (List.getElem?_eq_some_iff.mp h).1
      rw [serve_parse h]
      simp [setContext, hk]
    have hsame : (s.serve (.parse k utterance)).2.interpreter = s.interpreter := by
      rw [serve_parse h]
      rfl
    obtain ⟨hanswers, hcontext⟩ := ih hnext
    rw [hsame] at hanswers hcontext
    constructor
    · rw [List.map_cons, answers_cons, hanswers, Interpreter.converse_cons, List.map_cons, serve_parse h]
    · rw [List.map_cons, afterAll_cons, hcontext, Interpreter.contextAfter_cons]

end Station

end Teleop
