import Teleop.Token.Lowering

/-!
# Laws of lowering

Lowering drops the tail of a bracket, so a token of a command may be missing from the stream. A stop
and an emergency stop never are, since the motion that opens a bracket brings its own stop. A row of
commands that leaves no bracket open is lowered by itself, whatever follows it.
-/

namespace Teleop

theorem Command.isBracket_iff {first second third : Command} :
    first.isBracket second third = true ↔ ∃ m t s, first = .move m ∧ second = .wait t ∧
      third = .move s ∧ m.duration = some t ∧ s.direction = .stop := by
  constructor
  · intro h
    unfold isBracket at h
    split at h
    · simp only [Bool.and_eq_true, decide_eq_true_eq, Motion.isStop] at h
      exact ⟨_, _, _, rfl, rfl, rfl, h.1, h.2⟩
    · exact Bool.noConfusion h
  · rintro ⟨m, t, s, rfl, rfl, rfl, hduration, hstop⟩
    simp [isBracket, hduration, Motion.isStop, hstop]

/-- Whether a command is a motion bounded in time. -/
def Command.isTimed : Command → Bool
  | move m => m.duration.isSome
  | _ => false

theorem Command.isBracket_of_not_isTimed {first : Command} (h : first.isTimed = false)
    (second third : Command) : first.isBracket second third = false := by
  cases hb : first.isBracket second third with
  | false => rfl
  | true =>
    obtain ⟨m, t, s, rfl, -, -, hduration, -⟩ := isBracket_iff.mp hb
    simp [isTimed, hduration] at h

/-- Every command but the unknown one has a token. -/
theorem Command.tokens_eq_nil_iff {cmd : Command} : cmd.tokens = [] ↔ cmd = .unknown := by
  cases cmd with
  | move m => simp [tokens, Motion.tokens]
  | _ => simp [tokens]

namespace Token

theorem ofCommands_cons_of_not_isTimed {first : Command} (h : first.isTimed = false)
    (rest : List Command) : ofCommands (first :: rest) = first.tokens ++ ofCommands rest := by
  rcases rest with - | ⟨second, - | ⟨third, rest⟩⟩
  · rw [ofCommands]
    simp
  · rw [ofCommands]
    simp
  · rw [ofCommands, Command.isBracket_of_not_isTimed h]
    rfl

theorem ofCommands_bracket {first second third : Command}
    (h : first.isBracket second third = true) (rest : List Command) :
    ofCommands (first :: second :: third :: rest) = first.tokens ++ ofCommands rest := by
  rw [ofCommands, if_pos h]

/-- Every token of the stream comes from one of the commands. -/
theorem exists_of_mem_ofCommands {t : Token} {cmds : List Command} (h : t ∈ ofCommands cmds) :
    ∃ cmd ∈ cmds, t ∈ cmd.tokens := by
  induction cmds using ofCommands.induct with
  | case1 first second third rest ihBehind ih =>
    rw [ofCommands, List.mem_append] at h
    rcases h with h | h
    · exact ⟨first, List.mem_cons_self, h⟩
    · split at h
      · obtain ⟨cmd, hcmd, ht⟩ := ihBehind h
        exact ⟨cmd, by simp [hcmd], ht⟩
      · obtain ⟨cmd, hcmd, ht⟩ := ih h
        exact ⟨cmd, List.mem_cons_of_mem _ hcmd, ht⟩
  | case2 first rest hshort ih =>
    rw [ofCommands, List.mem_append] at h
    · rcases h with h | h
      · exact ⟨first, List.mem_cons_self, h⟩
      · obtain ⟨cmd, hcmd, ht⟩ := ih h
        exact ⟨cmd, List.mem_cons_of_mem _ hcmd, ht⟩
    · exact hshort
  | case3 => simp [ofCommands] at h

/-- A token reaches the stream if every bracket whose tail has it has it at its head too. -/
theorem mem_ofCommands {t : Token} {cmds : List Command} {cmd : Command}
    (hkept : ∀ first second third : Command, first.isBracket second third = true →
      t ∈ second.tokens ∨ t ∈ third.tokens → t ∈ first.tokens)
    (hcmd : cmd ∈ cmds) (ht : t ∈ cmd.tokens) : t ∈ ofCommands cmds := by
  induction cmds using ofCommands.induct with
  | case1 first second third rest ihBehind ih =>
    rw [ofCommands, List.mem_append]
    split
    · -- the tail of a bracket is absorbed, but its token is one of the motion's
      rename_i hbracket
      simp only [List.mem_cons] at hcmd
      rcases hcmd with rfl | rfl | rfl | hcmd
      · exact Or.inl ht
      · exact Or.inl (hkept _ _ _ hbracket (Or.inl ht))
      · exact Or.inl (hkept _ _ _ hbracket (Or.inr ht))
      · exact Or.inr (ihBehind hcmd)
    · rcases List.mem_cons.mp hcmd with rfl | hcmd
      · exact Or.inl ht
      · exact Or.inr (ih hcmd)
  | case2 first rest hshort ih =>
    rw [ofCommands, List.mem_append]
    · rcases List.mem_cons.mp hcmd with rfl | hcmd
      · exact Or.inl ht
      · exact Or.inr (ih hcmd)
    · exact hshort
  | case3 => simp at hcmd

/-- The stream of a row of commands is empty only where all of them are unknown. -/
theorem ofCommands_eq_nil_iff {cmds : List Command} :
    ofCommands cmds = [] ↔ ∀ cmd ∈ cmds, cmd = .unknown := by
  induction cmds using ofCommands.induct with
  | case1 first second third rest _ ih =>
    by_cases hbracket : first.isBracket second third = true
    · obtain ⟨m, t, s, rfl, -⟩ := Command.isBracket_iff.mp hbracket
      simp [ofCommands_bracket hbracket, Command.tokens_eq_nil_iff]
    · rw [ofCommands, if_neg hbracket, List.append_eq_nil_iff, Command.tokens_eq_nil_iff, ih,
        List.forall_mem_cons (l := second :: third :: rest)]
  | case2 first rest hshort ih =>
    rw [ofCommands, List.append_eq_nil_iff, Command.tokens_eq_nil_iff, ih, List.forall_mem_cons]
    exact hshort
  | case3 => simp [ofCommands]

/-! ## Stops -/

theorem emergencyStop_mem_tokens {cmd : Command} :
    Token.emergencyStop ∈ cmd.tokens ↔ cmd = .emergencyStop := by
  cases cmd with
  | move m =>
    cases hd : m.distance <;> cases ht : m.duration <;>
      simp [Command.tokens, Motion.tokens, hd, ht]
  | camera action => cases action <;> simp [Command.tokens, CameraAction.token]
  | _ => simp [Command.tokens]

theorem emergencyStop_mem_ofCommands {cmds : List Command} :
    Token.emergencyStop ∈ ofCommands cmds ↔ Command.emergencyStop ∈ cmds := by
  constructor
  · intro h
    obtain ⟨cmd, hcmd, ht⟩ := exists_of_mem_ofCommands h
    rwa [emergencyStop_mem_tokens.mp ht] at hcmd
  · intro h
    refine mem_ofCommands (fun first second third hbracket ht => ?_) h
      (emergencyStop_mem_tokens.mpr rfl)
    obtain ⟨m, t, s, rfl, rfl, rfl, -⟩ := Command.isBracket_iff.mp hbracket
    simp [emergencyStop_mem_tokens] at ht

/-- A stop reaches the stream: by itself, or as the end of the motion whose bracket absorbed it. -/
theorem stop_mem_ofCommands {cmds : List Command} (h : Command.move .stop ∈ cmds) :
    Token.move .stop ∈ ofCommands cmds := by
  refine mem_ofCommands (fun first second third hbracket _ => ?_) h
    (by simp [Command.tokens, Motion.tokens, Motion.stop])
  obtain ⟨m, t, s, rfl, rfl, rfl, hduration, -⟩ := Command.isBracket_iff.mp hbracket
  simp [Command.tokens, Motion.tokens, hduration]

theorem mem_ofDescriptors {t : Token} (ht : t ≠ .unknown) {ds : List Descriptor} :
    t ∈ ofDescriptors ds ↔ t ∈ ofCommands (ds.map (·.command)) := by
  rw [ofDescriptors]
  split
  · rename_i hnil
    simp [hnil, ht]
  · rfl

/-! ## Rows of commands that close their brackets -/

/-- A row of commands in which every motion bounded in time opens a bracket of its own. -/
inductive IsClosed : List Command → Prop
  | nil : IsClosed []
  | cons {first : Command} {rest : List Command} (untimed : first.isTimed = false)
      (closed : IsClosed rest) : IsClosed (first :: rest)
  | bracket {first second third : Command} {rest : List Command}
      (opened : first.isBracket second third = true) (closed : IsClosed rest) :
      IsClosed (first :: second :: third :: rest)

namespace IsClosed

variable {cmds : List Command}

theorem append {others : List Command} (h : IsClosed cmds) (h' : IsClosed others) :
    IsClosed (cmds ++ others) := by
  induction h with
  | nil => exact h'
  | cons untimed _ ih => exact .cons untimed ih
  | bracket opened _ ih => exact .bracket opened ih

/-- What is closed is lowered by itself. -/
theorem ofCommands_append (h : IsClosed cmds) (others : List Command) :
    ofCommands (cmds ++ others) = ofCommands cmds ++ ofCommands others := by
  induction h with
  | nil => rw [ofCommands, List.nil_append, List.nil_append]
  | cons untimed _ ih =>
    rw [List.cons_append, ofCommands_cons_of_not_isTimed untimed, ih,
      ofCommands_cons_of_not_isTimed untimed, List.append_assoc]
  | bracket opened _ ih =>
    rw [List.cons_append, List.cons_append, List.cons_append, ofCommands_bracket opened, ih,
      ofCommands_bracket opened, List.append_assoc]

theorem of_untimed (h : ∀ cmd ∈ cmds, cmd.isTimed = false) : IsClosed cmds := by
  induction cmds with
  | nil => exact .nil
  | cons first rest ih =>
    exact .cons (h first List.mem_cons_self) (ih fun cmd hcmd => h cmd (List.mem_cons_of_mem _ hcmd))

end IsClosed

theorem ofDescriptors_eq {ds : List Descriptor} (h : ofCommands (ds.map (·.command)) ≠ []) :
    ofDescriptors ds = ofCommands (ds.map (·.command)) := by
  rw [ofDescriptors]
  split
  · rename_i hnil
    exact absurd hnil h
  · rfl

end Token

end Teleop
