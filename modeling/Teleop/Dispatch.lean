import Teleop.Token.Listing

/-!
# Dispatching tokens to a sink

A sink is offered tokens one at a time, each at a time that is counted in milliseconds of honoured
delay, and may refuse one. Waits are not offered but honoured as delays, and unknown tokens are skipped.
An emergency stop that is taken ends the stream. When the sink refuses a token, a stop is offered to it,
unless the refused token was one, and the refusal is reported.
-/

namespace Teleop

structure Delivery where
  token : Token
  afterMillis : Nat
deriving DecidableEq

/-- A destination for tokens with a state of its own. -/
structure Sink (State Refusal : Type) where
  send : Delivery → State → Except Refusal Unit × State

structure DispatchReport where
  sent : Nat
  skipped : Nat
  waitedMillis : Nat
  halted : Bool
deriving DecidableEq, Repr

namespace DispatchReport

def empty : DispatchReport :=
  ⟨0, 0, 0, false⟩

end DispatchReport

namespace Sink

variable {State Refusal : Type}

/-- Sends the rest of a stream, given the report so far. -/
def dispatchFrom (sink : Sink State Refusal) (report : DispatchReport) :
    List Token → State → Except Refusal DispatchReport × State
  | [], state => (.ok report, state)
  | .wait duration :: rest, state =>
    sink.dispatchFrom { report with waitedMillis := report.waitedMillis + duration.toNat } rest state
  | .unknown :: rest, state =>
    sink.dispatchFrom { report with skipped := report.skipped + 1 } rest state
  | token :: rest, state =>
    match sink.send ⟨token, report.waitedMillis⟩ state with
    | (.error refusal, state) =>
      (.error refusal,
        if token = .move .stop then state
        else (sink.send ⟨.move .stop, report.waitedMillis⟩ state).2)
    | (.ok (), state) =>
      let report := { report with sent := report.sent + 1 }
      if token = .emergencyStop then (.ok { report with halted := !rest.isEmpty }, state)
      else sink.dispatchFrom report rest state

def dispatch (sink : Sink State Refusal) (tokens : List Token) (state : State) :
    Except Refusal DispatchReport × State :=
  sink.dispatchFrom .empty tokens state

end Sink

structure Rejection where
  token : Token
  recorder : String

namespace Rejection

def message (r : Rejection) : String :=
  "sink rejected token " ++ r.token.text ++ ": " ++ r.recorder ++ " refuses this token"

end Rejection

/-- A sink with a name that keeps what it is sent, and may refuse one token. -/
structure Recorder where
  name : String
  rejects : Option Token

namespace Recorder

/-- The sink of a recorder; its state is the deliveries it has kept. -/
def sink (r : Recorder) : Sink (List Delivery) Rejection where
  send delivery kept :=
    if r.rejects.any (·.equals delivery.token) then (.error ⟨delivery.token, r.name⟩, kept)
    else (.ok (), kept ++ [delivery])

end Recorder

end Teleop
