import Std.Time.Format
import Teleop.CommandLine.Help
import Teleop.CommandLine.Outcome

/-!
# The program

Reads the settings file and the standard input, prints the outcome of the invocation and honours the
delays between the tokens it sends.
-/

namespace Teleop.CommandLine

/-- The text of a file, if it can be read as one. -/
def readFile? (file : String) : IO (Option String) := do
  try
    return some (← IO.FS.readFile file)
  catch _ => return none

/-- The time some milliseconds after another, with its date. -/
def timeText (start : Std.Time.Timestamp) (afterMillis : Nat) : String :=
  let time :=
    Std.Time.DateTime.ofTimestampWithZone (start.addMilliseconds (.ofInt afterMillis)) .UTC
  time.format "uuuu-MM-dd" ++ "T" ++ time.format "HH:mm:ss.SSSSSSSSS" ++ "Z"

/-- The longest delay that is asked for at once. -/
def longestSleep : Nat := 1000000

def sleepMillis (millis : Nat) : IO Unit := do
  for _ in [0 : millis / longestSleep] do
    IO.sleep (.ofNat longestSleep)
  IO.sleep (.ofNat (millis % longestSleep))

/-- Runs an invocation and gives the status to end with. -/
def Invocation.run (v : Invocation) : IO Nat := do
  let file ← match v.settingsFile with
    | none => pure none
    | some file => readFile? file
  let input ← match v.task with
    | .session _ => (← IO.getStdin).readBinToEnd
    | _ => pure .empty
  let start ← Std.Time.Timestamp.now
  let outcome := v.outcome (fun _ => file) input.toList
  sleepMillis outcome.waitedMillis
  IO.print (outcome.output (timeText start))
  IO.eprint (outcome.complaint v.showMetrics)
  return outcome.status

end Teleop.CommandLine

open Teleop.CommandLine in
def main (arguments : List String) : IO UInt32 := do
  match Invocation.ofArguments arguments with
  | .ok v => return .ofNat (← v.run)
  | .error refusal =>
    if refusal.status = 0 then IO.print refusal.text else IO.eprint refusal.text
    return .ofNat refusal.status
