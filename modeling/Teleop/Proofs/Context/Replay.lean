import Teleop.Context
import Teleop.Proofs.Token.Lowering

/-!
# Replaying commands

What a session remembers can be read off the commands that it was given. A motion leaves its direction
behind and a stop none, a turn its direction and its manner, a rotation moves the heading, a speed is
kept; every other command leaves no trace. The stop that closes the bracket of a timed motion clears
nothing, so a bracket counts as its motion alone.
-/

namespace Teleop.Context

/-- The memory after a command by itself. The heading counts clockwise. -/
def record (c : Context) : Command → Context
  | .move m => { c with lastDirection := if m.direction = .stop then none else some m.direction }
  | .turn side style => { c with lastDirection := some side.direction, lastTurnStyle := style }
  | .rotate ⟨.clockwise, degrees, _⟩ =>
    { c with lastHeadingDegrees := c.lastHeadingDegrees + degrees }
  | .rotate ⟨.counterclockwise, degrees, _⟩ =>
    { c with lastHeadingDegrees := c.lastHeadingDegrees + -degrees }
  | .speed percent => { c with lastSpeedPercent := percent }
  | _ => c

/-- The memory after a row of commands, where the wait and the stop of a bracket are passed over. -/
def replay (c : Context) : List Command → Context
  | first :: second :: third :: rest =>
    if first.isBracket second third then (c.record first).replay rest
    else (c.record first).replay (second :: third :: rest)
  | first :: rest => (c.record first).replay rest
  | [] => c

variable {c : Context} {cmds : List Command}

theorem replay_cons_of_not_isTimed {first : Command} (h : first.isTimed = false)
    (rest : List Command) : c.replay (first :: rest) = (c.record first).replay rest := by
  rcases rest with - | ⟨second, - | ⟨third, rest⟩⟩
  · rfl
  · rfl
  · rw [replay, Command.isBracket_of_not_isTimed h]
    rfl

theorem replay_bracket {first second third : Command}
    (h : first.isBracket second third = true) (rest : List Command) :
    c.replay (first :: second :: third :: rest) = (c.record first).replay rest := by
  rw [replay, if_pos h]

/-- What is closed is replayed by itself. -/
theorem replay_append (h : Token.IsClosed cmds) (others : List Command) :
    c.replay (cmds ++ others) = (c.replay cmds).replay others := by
  induction h generalizing c with
  | nil => rfl
  | cons untimed _ ih =>
    rw [List.cons_append, replay_cons_of_not_isTimed untimed, ih,
      replay_cons_of_not_isTimed untimed]
  | bracket opened _ ih =>
    rw [List.cons_append, List.cons_append, List.cons_append, replay_bracket opened, ih,
      replay_bracket opened]

/-- Device commands leave no trace. -/
theorem replay_of_idle (h : ∀ cmd ∈ cmds, cmd.isTimed = false ∧ ∀ c : Context, c.record cmd = c) :
    c.replay cmds = c := by
  induction cmds with
  | nil => rfl
  | cons first rest ih =>
    obtain ⟨huntimed, hidle⟩ := h first List.mem_cons_self
    rw [replay_cons_of_not_isTimed huntimed, hidle,
      ih fun cmd hcmd => h cmd (List.mem_cons_of_mem _ hcmd)]

/-! ## The direction that is remembered -/

theorem lastDirection_record (h : c.lastDirection ≠ some .stop) (cmd : Command) :
    (c.record cmd).lastDirection ≠ some .stop := by
  cases cmd with
  | move m =>
    simp only [record]
    split
    · exact nofun
    · rename_i hmoving
      exact fun hstop => hmoving (Option.some.inj hstop)
  | turn side style => cases side <;> exact nofun
  | rotate r =>
    obtain ⟨spin, degrees, relative⟩ := r
    cases spin <;> exact h
  | _ => exact h

/-- A stop is never remembered as a direction. -/
theorem lastDirection_replay (h : c.lastDirection ≠ some .stop) (cmds : List Command) :
    (c.replay cmds).lastDirection ≠ some .stop := by
  induction cmds using Token.ofCommands.induct generalizing c with
  | case1 first second third rest ihBehind ih =>
    rw [replay]
    split
    · exact ihBehind (lastDirection_record h first)
    · exact ih (lastDirection_record h first)
  | case2 first rest hshort ih =>
    rw [replay]
    · exact ih (lastDirection_record h first)
    · exact hshort
  | case3 => exact h

/-- Repeating the direction that is remembered changes nothing. -/
theorem replay_repeated {direction : Direction} (h : c.lastDirection = some direction)
    (hmoving : direction ≠ .stop) (style : MoveStyle) :
    c.replay [.move (.toward direction style)] = c := by
  obtain ⟨lastDirection, speed, heading, turnStyle⟩ := c
  obtain rfl : lastDirection = some direction := h
  simp [replay, record, Motion.toward, hmoving]

end Teleop.Context
