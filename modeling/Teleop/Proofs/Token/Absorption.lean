import Mathlib.Data.List.Basic
import Teleop.Proofs.Interpreter.Invariant
import Teleop.Proofs.Token.Lowering

/-!
# What lowering leaves out

A rule for brackets says which three commands in a row are one. Said by places, what such a rule leaves out
of a row of commands are the two places behind each bracket whose motion is not left out itself. Every row
has exactly one such set of places (`IsOmission.unique`, `isOmission_omitted`), and lowering leaves out those of
`Command.isBracket` and no other (`ofCommands_eq_without`).

That rule asks of the third command only that it is a stop. A stop behind the wait that is bounded itself is
left out with its bound, although the bracket has no token for it. So the stream is the one that leaves out
bare stops alone exactly where every stop that is left out is bare (`ofDescriptors_omission`). What
interpreting makes has no bounded stop (`ofCommands_eq_bare`).
-/

namespace Teleop

/-! ## Rules for brackets -/

namespace Command

/-- Whether a command has no bound of its own. -/
def isUnbounded : Command → Bool
  | move m => m.distance.isNone && m.duration.isNone
  | _ => true

/-- Whether a wait and a stop without a bound of its own are the tail of the bracket that a command
opens. -/
def isBareBracket (first second third : Command) : Bool :=
  first.isBracket second third && third.isUnbounded

theorem isUnbounded_move_iff {m : Motion} :
    (move m).isUnbounded = true ↔ m.distance = none ∧ m.duration = none := by
  rw [isUnbounded, Bool.and_eq_true, Option.isNone_iff_eq_none, Option.isNone_iff_eq_none]

end Command

namespace Token

/-! ## Places that are left out -/

section Places

variable {rule : Command → Command → Command → Bool} {cmds rest : List Command}
  {first second third : Command} {left left' : Nat → Bool} {p : Nat}

/-- Whether a rule has a bracket of the command at a place and the two behind it. -/
def OpensAt (rule : Command → Command → Command → Bool) (cmds : List Command) (p : Nat) : Prop :=
  ∃ first second third, cmds[p]? = some first ∧ cmds[p + 1]? = some second ∧
    cmds[p + 2]? = some third ∧ rule first second third = true

/-- The places that a rule leaves out of a row: the two behind each bracket that opens at a place that is
not left out. -/
def IsOmission (rule : Command → Command → Command → Bool) (cmds : List Command)
    (left : Nat → Bool) : Prop :=
  ∀ p, left p = true ↔ ∃ q, left q = false ∧ OpensAt rule cmds q ∧ (p = q + 1 ∨ p = q + 2)

/-- The tokens of the commands that are not left out. -/
def without (left : Nat → Bool) (cmds : List Command) : List Token :=
  (cmds.mapIdx fun p cmd => if left p then [] else cmd.tokens).flatten

/-- Whether a place is left out depends on the places in front of it alone. -/
theorem IsOmission.unique (h : IsOmission rule cmds left) (h' : IsOmission rule cmds left') :
    left = left' := by
  funext p
  induction p using Nat.strongRecOn with
  | ind p ih =>
    rw [Bool.eq_iff_iff, h p, h' p]
    refine exists_congr fun q => and_congr_left fun hq => ?_
    rw [ih q (by omega)]

/-- The places of a row with a command in front that opens no bracket. -/
def behindOne (left : Nat → Bool) : Nat → Bool
  | 0 => false
  | p + 1 => left p

/-- The places of a row with a bracket in front. -/
def behindBracket (left : Nat → Bool) : Nat → Bool
  | 0 => false
  | 1 | 2 => true
  | p + 3 => left p

/-- The places that a rule leaves out of a row, from the front. -/
def omitted (rule : Command → Command → Command → Bool) : List Command → Nat → Bool
  | first :: second :: third :: rest =>
    if rule first second third then behindBracket (omitted rule rest)
    else behindOne (omitted rule (second :: third :: rest))
  | _ :: rest => behindOne (omitted rule rest)
  | [] => fun _ => false

theorem IsOmission.behindOne (h : IsOmission rule rest left)
    (hfirst : ¬ OpensAt rule (first :: rest) 0) :
    IsOmission rule (first :: rest) (behindOne left) := by
  intro p
  cases p with
  | zero => simp [Token.behindOne]
  | succ p =>
    rw [Token.behindOne, h p]
    constructor
    · rintro ⟨q, hkept, hopens, hp⟩
      exact ⟨q + 1, hkept, hopens, by omega⟩
    · rintro ⟨q, hkept, hopens, hp⟩
      cases q with
      | zero => exact absurd hopens hfirst
      | succ q => exact ⟨q, hkept, hopens, by omega⟩

theorem IsOmission.behindBracket (h : IsOmission rule rest left)
    (hbracket : rule first second third = true) :
    IsOmission rule (first :: second :: third :: rest) (behindBracket left) := by
  have hopens : OpensAt rule (first :: second :: third :: rest) 0 :=
    ⟨first, second, third, rfl, rfl, rfl, hbracket⟩
  intro p
  match p with
  | 0 => simp [Token.behindBracket]
  | 1 => exact iff_of_true rfl ⟨0, rfl, hopens, Or.inl rfl⟩
  | 2 => exact iff_of_true rfl ⟨0, rfl, hopens, Or.inr rfl⟩
  | p + 3 =>
    rw [Token.behindBracket, h p]
    constructor
    · rintro ⟨q, hkept, hopens, hp⟩
      exact ⟨q + 3, hkept, hopens, by omega⟩
    · -- the two places of the tail are left out themselves, so no bracket opens there
      rintro ⟨q, hkept, hopens, hp⟩
      match q with
      | 0 => omega
      | 1 | 2 => exact Bool.noConfusion hkept
      | q + 3 => exact ⟨q, hkept, hopens, by omega⟩

theorem isOmission_omitted (rule : Command → Command → Command → Bool) (cmds : List Command) :
    IsOmission rule cmds (omitted rule cmds) := by
  induction cmds using ofCommands.induct with
  | case1 first second third rest ihBehind ih =>
    rw [omitted]
    split
    · rename_i hbracket
      exact ihBehind.behindBracket hbracket
    · rename_i hnone
      refine ih.behindOne ?_
      rintro ⟨_, _, _, ⟨⟩, ⟨⟩, ⟨⟩, hbracket⟩
      exact hnone hbracket
  | case2 first rest hshort ih =>
    rw [omitted]
    · refine ih.behindOne ?_
      rintro ⟨_, second, third, -, hsecond, hthird, -⟩
      cases rest with
      | nil => simp at hsecond
      | cons second rest =>
        cases rest with
        | nil => simp at hthird
        | cons third rest => exact hshort second third rest rfl
    · exact hshort
  | case3 =>
    intro p
    refine iff_of_false Bool.false_ne_true ?_
    rintro ⟨_, -, ⟨_, _, _, hnone, -⟩, -⟩
    simp at hnone

theorem without_cons (left : Nat → Bool) (first : Command) (rest : List Command) :
    without left (first :: rest) =
      (if left 0 then [] else first.tokens) ++ without (fun p => left (p + 1)) rest := by
  rw [without, List.mapIdx_cons, List.flatten_cons, without]

theorem without_behindOne (left : Nat → Bool) (first : Command) (rest : List Command) :
    without (behindOne left) (first :: rest) = first.tokens ++ without left rest :=
  without_cons _ _ _

theorem without_behindBracket (left : Nat → Bool) (first second third : Command) (rest : List Command) :
    without (behindBracket left) (first :: second :: third :: rest) =
      first.tokens ++ without left rest := by
  rw [without_cons, without_cons, without_cons]
  rfl

end Places

/-- Lowering leaves out the tails of brackets and nothing else. -/
theorem ofCommands_eq_without (cmds : List Command) :
    ofCommands cmds = without (omitted Command.isBracket cmds) cmds := by
  induction cmds using ofCommands.induct with
  | case1 first second third rest ihBehind ih =>
    by_cases hbracket : first.isBracket second third = true
    · rw [ofCommands_bracket hbracket, ihBehind, omitted, if_pos hbracket, without_behindBracket]
    · rw [ofCommands, if_neg hbracket, ih, omitted, if_neg hbracket, without_behindOne]
  | case2 first rest hshort ih =>
    rw [ofCommands, ih, omitted, without_behindOne]
    · exact hshort
    · exact hshort
  | case3 => rfl

/-! ## Bounds that are lost -/

section Bounds

variable {cmds : List Command} {left : Nat → Bool}

def isBound : Token → Bool
  | moveDistance _ | moveDuration _ => true
  | _ => false

theorem countP_isBound_eq_zero_iff {cmd : Command} :
    cmd.tokens.countP isBound = 0 ↔ cmd.isUnbounded = true := by
  cases cmd with
  | move m =>
    cases hd : m.distance <;> cases ht : m.duration <;>
      simp [Command.tokens, Motion.tokens, Command.isUnbounded, isBound, hd, ht]
  | camera action => cases action <;> simp [Command.tokens, CameraAction.token, Command.isUnbounded, isBound]
  | _ => simp [Command.tokens, Command.isUnbounded, isBound]

/-- Leaving commands out loses no bound exactly if those that are left out have none. -/
theorem countP_without (left : Nat → Bool) (cmds : List Command) :
    (without left cmds).countP isBound ≤ (cmds.flatMap Command.tokens).countP isBound ∧
      ((without left cmds).countP isBound = (cmds.flatMap Command.tokens).countP isBound ↔
        ∀ p cmd, cmds[p]? = some cmd → left p = true → cmd.isUnbounded = true) := by
  induction cmds generalizing left with
  | nil => simp [without]
  | cons first rest ih =>
    obtain ⟨hle, hiff⟩ := ih fun p => left (p + 1)
    have hplaces : (∀ p cmd, (first :: rest)[p]? = some cmd → left p = true → cmd.isUnbounded = true) ↔
        (left 0 = true → first.isUnbounded = true) ∧
          ∀ p cmd, rest[p]? = some cmd → left (p + 1) = true → cmd.isUnbounded = true := by
      constructor
      · exact fun h => ⟨h 0 first rfl, fun p cmd hcmd => h (p + 1) cmd hcmd⟩
      · rintro ⟨hfirst, hrest⟩ p cmd hcmd
        cases p with
        | zero =>
          cases hcmd
          exact hfirst
        | succ p => exact hrest p cmd hcmd
    rw [hplaces, ← hiff, without_cons, List.flatMap_cons, List.countP_append, List.countP_append,
      ← countP_isBound_eq_zero_iff]
    cases left 0 with
    | true =>
      simp only [if_true, List.countP_nil, forall_const]
      omega
    | false =>
      simp only [Bool.false_eq_true, if_false, false_implies, true_and]
      omega

/-- What a rule leaves out that has no other brackets than lowering is a wait or a stop. -/
theorem wait_or_stop_of_omitted {rule : Command → Command → Command → Bool} {p : Nat} {cmd : Command}
    (hrule : ∀ first second third, rule first second third = true → first.isBracket second third = true)
    (hleft : omitted rule cmds p = true) (hcmd : cmds[p]? = some cmd) :
    (∃ t, cmd = .wait t) ∨ ∃ first second s, cmd = .move s ∧ s.direction = .stop ∧
      rule first second (.move s) = true := by
  obtain ⟨q, -, ⟨first, second, third, -, hsecond, hthird, hopened⟩, hp⟩ :=
    (isOmission_omitted rule cmds p).mp hleft
  obtain ⟨m, t, s, rfl, rfl, rfl, -, hstop⟩ := Command.isBracket_iff.mp (hrule _ _ _ hopened)
  rcases hp with rfl | rfl
  · cases hsecond.symm.trans hcmd
    exact Or.inl ⟨t, rfl⟩
  · cases hthird.symm.trans hcmd
    exact Or.inr ⟨_, _, s, rfl, hstop, hopened⟩

/-- What leaves out bare stops alone loses no bound. -/
theorem isUnbounded_of_omitted {p : Nat} {cmd : Command}
    (hleft : omitted Command.isBareBracket cmds p = true) (hcmd : cmds[p]? = some cmd) :
    cmd.isUnbounded = true := by
  have hrule (first second third : Command) (h : first.isBareBracket second third = true) :
      first.isBracket second third = true := (Bool.and_eq_true_iff.mp h).1
  rcases wait_or_stop_of_omitted hrule hleft hcmd with ⟨t, rfl⟩ | ⟨_, _, s, rfl, -, hbare⟩
  · rfl
  · exact (Bool.and_eq_true_iff.mp hbare).2

/-- Where every stop that lowering leaves out is bare, it leaves out bare stops alone. -/
theorem omitted_eq_bare (h : ∀ p cmd, cmds[p]? = some cmd → omitted Command.isBracket cmds p = true →
    cmd.isUnbounded = true) :
    omitted Command.isBracket cmds = omitted Command.isBareBracket cmds := by
  have hleft := isOmission_omitted Command.isBracket cmds
  have hbare := isOmission_omitted Command.isBareBracket cmds
  refine IsOmission.unique (fun p => ?_) hbare
  rw [hleft p]
  constructor
  · rintro ⟨q, hkept, ⟨first, second, third, hfirst, hsecond, hthird, hbracket⟩, hp⟩
    have htail : omitted Command.isBracket cmds (q + 2) = true :=
      (hleft (q + 2)).mpr
        ⟨q, hkept, ⟨first, second, third, hfirst, hsecond, hthird, hbracket⟩, Or.inr rfl⟩
    have hopened : first.isBareBracket second third = true :=
      Bool.and_eq_true_iff.mpr ⟨hbracket, h (q + 2) third hthird htail⟩
    exact ⟨q, hkept, ⟨first, second, third, hfirst, hsecond, hthird, hopened⟩, hp⟩
  · rintro ⟨q, hkept, ⟨first, second, third, hfirst, hsecond, hthird, hopened⟩, hp⟩
    have hbracket := (Bool.and_eq_true_iff.mp hopened).1
    exact ⟨q, hkept, ⟨first, second, third, hfirst, hsecond, hthird, hbracket⟩, hp⟩

theorem ofCommands_eq_bare_iff (cmds : List Command) :
    ofCommands cmds = without (omitted Command.isBareBracket cmds) cmds ↔
      ∀ p cmd, cmds[p]? = some cmd → omitted Command.isBracket cmds p = true →
        cmd.isUnbounded = true := by
  rw [ofCommands_eq_without]
  constructor
  · intro hsame
    have hnone := (countP_without (omitted Command.isBareBracket cmds) cmds).2.mpr fun p cmd hcmd hleft =>
      isUnbounded_of_omitted hleft hcmd
    rw [← hsame] at hnone
    exact (countP_without (omitted Command.isBracket cmds) cmds).2.mp hnone
  · intro hbare
    rw [omitted_eq_bare hbare]

end Bounds

/-- The stream of a row of descriptors has the tokens of each command, in order, but for the wait and the
stop that stand right behind a motion as long as the wait which is not left out itself. The only stops that
must not be left out are those with a bound of their own: where there is one, its bound is lost. -/
theorem ofDescriptors_omission (ds : List Descriptor) :
    ∃ left bare : Nat → Bool,
      (∀ l, IsOmission Command.isBracket (ds.map (·.command)) l ↔ l = left) ∧
      (∀ l, IsOmission Command.isBareBracket (ds.map (·.command)) l ↔ l = bare) ∧
      ofCommands (ds.map (·.command)) = without left (ds.map (·.command)) ∧
      (ofCommands (ds.map (·.command)) = without bare (ds.map (·.command)) ↔
        ∀ p m, (ds.map (·.command))[p]? = some (.move m) → left p = true →
          m.distance = none ∧ m.duration = none) := by
  generalize ds.map (·.command) = cmds
  have hunique (rule : Command → Command → Command → Bool) (l : Nat → Bool) :
      IsOmission rule cmds l ↔ l = omitted rule cmds :=
    ⟨fun h => h.unique (isOmission_omitted rule cmds), fun h => h ▸ isOmission_omitted rule cmds⟩
  refine ⟨_, _, hunique _, hunique _, ofCommands_eq_without cmds, (ofCommands_eq_bare_iff cmds).trans ?_⟩
  constructor
  · intro h p m hm hleft
    exact Command.isUnbounded_move_iff.mp (h p (.move m) hm hleft)
  · intro h p cmd hcmd hleft
    cases cmd with
    | move m => exact Command.isUnbounded_move_iff.mpr (h p m hcmd hleft)
    | _ => rfl

/-- A motion of a second, a wait as long, and a stop at five meters. -/
def boundedStop : List Descriptor :=
  [.make (.move ((Motion.toward .forward .normal).withDuration 1000)) 1 "go",
   .make (.wait 1000) 1 "go",
   .make (.move (Motion.stop.withDistance 5)) 1 "stop"]

/-- The distance of a stop is lost behind a bracket. -/
theorem ofCommands_boundedStop : ¬ ∀ (ds : List Descriptor) (bare : Nat → Bool),
    IsOmission Command.isBareBracket (ds.map (·.command)) bare →
      ofCommands (ds.map (·.command)) = without bare (ds.map (·.command)) := by
  intro h
  have hsame := h boundedStop _ (isOmission_omitted _ _)
  exact absurd (congrArg List.length hsame) (by decide)

end Token

/-- The stops that are made by interpreting an utterance are bare, so nothing but their own tokens is left
out. -/
theorem Interpreter.ofCommands_eq_bare {c : Context} (i : Interpreter) (utterance : String)
    (hc : c.lastDirection ≠ some .stop) :
    Token.ofCommands ((i.analyze utterance c).1.descriptors.map (·.command)) =
      Token.without
        (Token.omitted Command.isBareBracket ((i.analyze utterance c).1.descriptors.map (·.command)))
        ((i.analyze utterance c).1.descriptors.map (·.command)) := by
  refine (Token.ofCommands_eq_bare_iff _).mpr fun p cmd hcmd hleft => ?_
  rcases Token.wait_or_stop_of_omitted (fun _ _ _ h => h) hleft hcmd with
    ⟨t, rfl⟩ | ⟨_, _, s, rfl, hstop, -⟩
  · rfl
  · obtain ⟨d, hd, hds⟩ := List.mem_map.mp (List.mem_of_getElem? hcmd)
    have hmade := (isWellFormed_descriptors hc hd).command
    rw [hds] at hmade
    exact Command.isUnbounded_move_iff.mpr (hmade.unbounded_stop hstop)

end Teleop
