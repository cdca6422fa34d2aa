import Teleop.Metrics

/-!
# Sessions of operators

A station has one interpreter and any number of sessions, each with a context of its own, and counts
what it interprets. Sessions are numbered as they are opened. The registry lists the sessions that
were opened through it and not closed since; a closed session can still be used by those who know its
number.
-/

namespace Teleop

structure Station where
  interpreter : Interpreter
  contexts : List Context
  registered : List Nat
  metrics : Metrics

inductive Request where
  | openSession
  | openWith (context : Context)
  | parse (session : Nat) (utterance : String)
  | snapshot (session : Nat)
  | reset (session : Nat)
  | close (session : Nat)
  | find (session : Nat)
  | metrics

inductive Answer where
  | opened (session : Nat)
  | parsed (reading : Reading) (context : Context)
  | context (context : Context)
  | closed (wasRegistered : Bool)
  | found (isRegistered : Bool)
  | metrics (metrics : Metrics)
  | noSession

namespace Station

/-- A station without sessions. -/
def ofInterpreter (interpreter : Interpreter) : Station :=
  ⟨interpreter, [], [], .empty⟩

/-- The station with another context for one of its sessions. -/
def setContext (s : Station) (session : Nat) (context : Context) : Station :=
  { s with contexts := s.contexts.set session context }

/-- The answer to a request, and the station after it. -/
def serve (s : Station) : Request → Answer × Station
  | .openSession =>
    (.opened s.contexts.length,
      { s with
        contexts := s.contexts ++ [.initial]
        registered := s.registered ++ [s.contexts.length] })
  | .openWith context =>
    (.opened s.contexts.length, { s with contexts := s.contexts ++ [context] })
  | .parse session utterance =>
    match s.contexts[session]? with
    | none => (.noSession, s)
    | some context =>
      let (reading, after) := s.interpreter.analyze utterance context
      (.parsed reading after,
        { s.setContext session after with metrics := s.metrics.record reading })
  | .snapshot session =>
    match s.contexts[session]? with
    | none => (.noSession, s)
    | some context => (.context context, s)
  | .reset session =>
    match s.contexts[session]? with
    | none => (.noSession, s)
    | some _ => (.context .initial, s.setContext session .initial)
  | .close session =>
    match s.contexts[session]? with
    | none => (.noSession, s)
    | some _ =>
      (.closed (s.registered.contains session),
        { s with registered := s.registered.filter (· ≠ session) })
  | .find session =>
    match s.contexts[session]? with
    | none => (.noSession, s)
    | some _ => (.found (s.registered.contains session), s)
  | .metrics => (.metrics s.metrics, s)

def serveAll (s : Station) : List Request → List (Answer × Station)
  | [] => []
  | request :: rest =>
    let (answer, after) := s.serve request
    (answer, after) :: after.serveAll rest

end Station

end Teleop
