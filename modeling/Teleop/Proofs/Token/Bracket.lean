import Mathlib.Data.List.Basic
import Teleop.Proofs.Token.Lowering

/-!
# Brackets of timed motions

Lowering leaves commands out but cuts none: a stream is made of the whole tokens of a subsequence of the
commands (`exists_sublist_ofCommands`). Only a timed motion has a duration among its tokens, so each
duration of a stream stands in the bracket of its own motion. This holds for every row of commands,
closed or not.
-/

namespace Teleop

/-- The tokens of a motion up to its duration. -/
def Motion.head (m : Motion) : List Token :=
  .move m.direction :: m.distance.toList.map .moveDistance

namespace Token

variable {cmds : List Command} {before behind : List Token} {t : Millis}

/-- A place of the duration `t` in a stream: it is the duration of one of the commands, which lowering
keeps, the head of the same command stands right before it, and a wait as long and a stop behind it. -/
def IsBracketed (cmds : List Command) (before : List Token) (t : Millis) (behind : List Token) : Prop :=
  ∃ earlier m later, (earlier ++ .move m :: later).Sublist cmds ∧ m.duration = some t ∧
    before = earlier.flatMap Command.tokens ++ m.head ∧
    behind = .wait t :: .move .stop :: later.flatMap Command.tokens

/-- A stream is made of the tokens of the commands that are kept. -/
theorem exists_sublist_ofCommands (cmds : List Command) :
    ∃ kept : List Command, kept.Sublist cmds ∧
      ofCommands cmds = kept.flatMap Command.tokens := by
  induction cmds using ofCommands.induct with
  | case1 first second third rest ihBehind ih =>
    by_cases hbracket : first.isBracket second third = true
    · obtain ⟨kept, hsub, htokens⟩ := ihBehind
      refine ⟨first :: kept, ?_, ?_⟩
      · exact ((hsub.cons third).cons second).cons_cons first
      · rw [ofCommands_bracket hbracket, htokens, List.flatMap_cons]
    · obtain ⟨kept, hsub, htokens⟩ := ih
      refine ⟨first :: kept, hsub.cons_cons first, ?_⟩
      rw [ofCommands, if_neg hbracket, htokens, List.flatMap_cons]
  | case2 first rest hshort ih =>
    obtain ⟨kept, hsub, htokens⟩ := ih
    refine ⟨first :: kept, hsub.cons_cons first, ?_⟩
    rw [ofCommands, htokens, List.flatMap_cons]
    exact hshort
  | case3 => exact ⟨[], .slnil, rfl⟩

/-- A token of a row of commands belongs to one of them. -/
theorem exists_of_flatMap_tokens {t : Token}
    (h : cmds.flatMap Command.tokens = before ++ t :: behind) :
    ∃ earlier cmd later pre post, cmds = earlier ++ cmd :: later ∧ cmd.tokens = pre ++ t :: post ∧
      before = earlier.flatMap Command.tokens ++ pre ∧
      behind = post ++ later.flatMap Command.tokens := by
  induction cmds generalizing before with
  | nil => simp at h
  | cons first rest ih =>
    rw [List.flatMap_cons, List.append_eq_append_iff] at h
    rcases h with ⟨between, rfl, hrest⟩ | ⟨own, hfirst, hrest⟩
    · obtain ⟨earlier, cmd, later, pre, post, rfl, htokens, rfl, rfl⟩ := ih hrest
      exact ⟨first :: earlier, cmd, later, pre, post, rfl, htokens, by simp, rfl⟩
    · cases own with
      | nil =>
        have hbehind : rest.flatMap Command.tokens = [] ++ t :: behind := hrest.symm
        obtain ⟨earlier, cmd, later, pre, post, rfl, htokens, hnil, rfl⟩ := ih hbehind
        refine ⟨first :: earlier, cmd, later, pre, post, rfl, htokens, ?_, rfl⟩
        rw [List.flatMap_cons, List.append_assoc, ← hnil, hfirst, List.append_nil, List.append_nil]
      | cons t' post =>
        obtain ⟨rfl, rfl⟩ := List.cons.inj hrest
        exact ⟨[], first, rest, before, post, rfl, hfirst, rfl, rfl⟩

/-- The one duration among the tokens of a command, with what stands around it. -/
theorem eq_of_duration {cmd : Command} (h : cmd.tokens = before ++ .moveDuration t :: behind) :
    ∃ m, cmd = .move m ∧ m.duration = some t ∧ before = m.head ∧ behind = [.wait t, .move .stop] := by
  have hmem : Token.moveDuration t ∈ cmd.tokens := by simp [h]
  cases cmd with
  | move m =>
    cases hd : m.duration with
    | none => simp [Command.tokens, Motion.tokens, hd] at hmem
    | some t' =>
      have htokens : (Command.move m).tokens =
          m.head ++ .moveDuration t' :: [.wait t', .move .stop] := by
        simp [Command.tokens, Motion.tokens, Motion.head, hd]
      rw [htokens, List.append_cons_inj_of_notMem (by simp [Motion.head]) (by simp)] at h
      obtain ⟨hhead, hduration, hbehind⟩ := h
      cases hduration
      exact ⟨m, rfl, hd, hhead.symm, hbehind.symm⟩
  | camera action => cases action <;> simp [Command.tokens, CameraAction.token] at hmem
  | _ => simp [Command.tokens] at hmem

/-- Every duration of a stream stands in its bracket. -/
theorem isBracketed_ofCommands (h : ofCommands cmds = before ++ .moveDuration t :: behind) :
    IsBracketed cmds before t behind := by
  obtain ⟨kept, hsub, htokens⟩ := exists_sublist_ofCommands cmds
  rw [htokens] at h
  obtain ⟨earlier, cmd, later, pre, post, rfl, hcmd, rfl, rfl⟩ := exists_of_flatMap_tokens h
  obtain ⟨m, rfl, hduration, rfl, rfl⟩ := eq_of_duration hcmd
  exact ⟨earlier, m, later, hsub, hduration, rfl, rfl⟩

theorem isBracketed_ofDescriptors {ds : List Descriptor}
    (h : ofDescriptors ds = before ++ .moveDuration t :: behind) :
    IsBracketed (ds.map (·.command)) before t behind := by
  rw [ofDescriptors] at h
  split at h
  · have hmem : Token.moveDuration t ∈ [Token.unknown] := by simp [h]
    simp at hmem
  · exact isBracketed_ofCommands h

/-! ## The token for what was not understood -/

theorem unknown_not_mem_ofCommands (cmds : List Command) : Token.unknown ∉ ofCommands cmds := by
  intro h
  obtain ⟨cmd, -, ht⟩ := exists_of_mem_ofCommands h
  cases cmd with
  | move m => cases hd : m.duration <;> simp [Command.tokens, Motion.tokens, hd] at ht
  | camera action => cases action <;> simp [Command.tokens, CameraAction.token] at ht
  | _ => simp [Command.tokens] at ht

theorem ofDescriptors_ne_nil (ds : List Descriptor) : ofDescriptors ds ≠ [] := by
  rw [ofDescriptors]
  split
  · simp
  · assumption

theorem ofDescriptors_eq_unknown_iff {ds : List Descriptor} :
    ofDescriptors ds = [.unknown] ↔ ∀ d ∈ ds, d.isUnknown = true := by
  have hall : (∀ d ∈ ds, d.isUnknown = true) ↔ ofCommands (ds.map (·.command)) = [] := by
    simp [ofCommands_eq_nil_iff, Descriptor.isUnknown]
  rw [hall]
  constructor
  · intro h
    apply Decidable.byContradiction
    intro hne
    rw [ofDescriptors_eq hne] at h
    exact unknown_not_mem_ofCommands _ (by rw [h]; exact List.mem_singleton_self _)
  · intro h
    rw [ofDescriptors, h]

end Token

end Teleop
