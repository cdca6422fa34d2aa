import Teleop.Proofs.Dispatch.History
import Teleop.Proofs.Token.Bracket

/-!
# Timed motions on the wire

A sink that takes everything is offered a stream up to the first emergency stop. No emergency stop comes
between a duration and the stop of its bracket, so every duration that reaches the sink is followed by a
stop, later by exactly that duration.
-/

namespace Teleop

theorem exists_of_deliveries {tokens : List Token} {start : Nat} {d : Delivery}
    {before behind : List Delivery} (h : deliveries start tokens = before ++ d :: behind) :
    ∃ earlier later, tokens = earlier ++ d.token :: later ∧ d.token.isOffered = true ∧
      behind = deliveries d.afterMillis later := by
  induction tokens generalizing start before with
  | nil => simp [deliveries] at h
  | cons t rest ih =>
    rw [deliveries] at h
    split at h
    · rename_i hoffered
      cases before with
      | nil =>
        obtain ⟨rfl, rfl⟩ := List.cons.inj h
        exact ⟨[], rest, rfl, hoffered, rfl⟩
      | cons first before =>
        obtain ⟨-, hrest⟩ := List.cons.inj h
        obtain ⟨earlier, later, rfl, hd, hbehind⟩ := ih hrest
        exact ⟨t :: earlier, later, rfl, hd, hbehind⟩
    · obtain ⟨earlier, later, rfl, hd, hbehind⟩ := ih h
      exact ⟨t :: earlier, later, rfl, hd, hbehind⟩

namespace Sink

variable {State Refusal : Type} {sink : Sink State Refusal}

def AcceptsAll (sink : Sink State Refusal) : Prop :=
  ∀ delivery state, (sink.send delivery state).1 = .ok ()

theorem AcceptsAll.recorded (h : sink.AcceptsAll) : sink.recorded.AcceptsAll :=
  fun delivery s => h delivery s.1

theorem AcceptsAll.exists_report (h : sink.AcceptsAll) (report : DispatchReport)
    (tokens : List Token) (state : State) :
    ∃ report', (sink.dispatchFrom report tokens state).1 = .ok report' := by
  induction tokens generalizing report state with
  | nil => exact ⟨report, rfl⟩
  | cons token rest ih =>
    cases hoffered : token.isOffered with
    | false =>
      rw [dispatchFrom_passed hoffered]
      exact ih ..
    | true =>
      have hsend : sink.send ⟨token, report.waitedMillis⟩ state =
          (.ok (), (sink.send ⟨token, report.waitedMillis⟩ state).2) := Prod.ext (h _ _) rfl
      by_cases hstop : token = .emergencyStop
      · subst hstop
        rw [dispatchFrom_halted hsend]
        exact ⟨_, rfl⟩
      · rw [dispatchFrom_taken hoffered hstop hsend]
        exact ih ..

/-- A sink that refuses nothing is offered a stream to its end or up to an emergency stop. -/
theorem AcceptsAll.history_eq (h : sink.AcceptsAll) (tokens : List Token) (state : State) :
    ∃ passed unpassed, tokens = passed ++ unpassed ∧ sink.history tokens state = taken passed ∧
      (unpassed = [] ∨ passed.getLast? = some .emergencyStop) := by
  have hcourse := course_dispatchFrom sink [] tokens state (by simp)
  obtain ⟨report, hreport⟩ := h.recorded.exists_report (.ofPassed [] false) tokens (state, taken [])
  rw [hreport] at hcourse
  generalize hhistory : sink.history tokens state = history
  have hsame : (sink.recorded.dispatchFrom (.ofPassed [] false) tokens (state, taken [])).2.2 =
      history := hhistory
  rw [hsame, List.nil_append] at hcourse
  cases hcourse with
  | finished => exact ⟨tokens, [], (List.append_nil _).symm, rfl, Or.inl rfl⟩
  | @halted before behind hsplit =>
    refine ⟨before ++ [.emergencyStop], behind, ?_, rfl, Or.inr (by simp)⟩
    rw [hsplit, List.append_assoc, List.singleton_append]

/-- A duration that reached a sink which refuses nothing is followed by the stop of its bracket. -/
theorem AcceptsAll.stop_behind_duration (h : sink.AcceptsAll) {ds : List Descriptor} {state : State}
    {before behind : List (Attempt Refusal)} {t : Millis} {n : Nat} {answer : Except Refusal Unit}
    (hhistory : sink.history (Token.ofDescriptors ds) state =
      before ++ ⟨⟨.moveDuration t, n⟩, answer⟩ :: behind) :
    ∃ later, behind = ⟨⟨.move .stop, n + t.toNat⟩, .ok ()⟩ :: later := by
  obtain ⟨passed, unpassed, hsplit, htaken, hend⟩ := h.history_eq (Token.ofDescriptors ds) state
  rw [htaken, taken, List.map_eq_append_iff] at hhistory
  obtain ⟨sent, unsent, hdeliveries, -, hunsent⟩ := hhistory
  obtain ⟨d, after, rfl, hd, rfl⟩ := List.map_eq_cons_iff.mp hunsent
  cases hd
  obtain ⟨earlier, later, rfl, -, rfl⟩ := exists_of_deliveries hdeliveries
  rw [List.append_assoc, List.cons_append] at hsplit
  obtain ⟨_, _, _, -, -, -, hbracket⟩ := Token.isBracketed_ofDescriptors hsplit
  -- the stream may be cut at an emergency stop, which neither the wait nor the stop is
  have hpassed : ∃ rest, later = .wait t :: .move .stop :: rest := by
    rcases hend with rfl | hlast
    · rw [List.append_nil] at hbracket
      exact ⟨_, hbracket⟩
    · cases later with
      | nil => simp at hlast
      | cons first later =>
        obtain ⟨rfl, hbehind⟩ := List.cons.inj hbracket
        cases later with
        | nil => simp at hlast
        | cons second later =>
          obtain ⟨rfl, -⟩ := List.cons.inj hbehind
          exact ⟨later, rfl⟩
  obtain ⟨rest, rfl⟩ := hpassed
  exact ⟨_, rfl⟩

end Sink

namespace Token

/-- Timed motions are bracketed in every stream and on the wire: the stream of any row of descriptors is
not empty, is the single token `unknown` exactly where all of them are unknown and else without that
token, every duration in it stands in the bracket of its own motion, and a sink that refuses nothing is
sent, as the next token behind a duration and later by exactly that duration, a stop. -/
theorem bracketed_ofDescriptors (ds : List Descriptor) :
    ofDescriptors ds ≠ [] ∧
    (ofDescriptors ds = [.unknown] ↔ ∀ d ∈ ds, d.isUnknown = true) ∧
    ((∃ d ∈ ds, d.isUnknown = false) → Token.unknown ∉ ofDescriptors ds) ∧
    (∀ (before behind : List Token) (t : Millis),
      ofDescriptors ds = before ++ .moveDuration t :: behind →
        IsBracketed (ds.map (·.command)) before t behind) ∧
    ∀ (State Refusal : Type) (sink : Sink State Refusal) (state : State), sink.AcceptsAll →
      ∀ (before behind : List (Attempt Refusal)) (t : Millis) (n : Nat)
        (answer : Except Refusal Unit),
        sink.history (ofDescriptors ds) state =
            before ++ ⟨⟨.moveDuration t, n⟩, answer⟩ :: behind →
          ∃ later, behind = ⟨⟨.move .stop, n + t.toNat⟩, .ok ()⟩ :: later := by
  refine ⟨ofDescriptors_ne_nil ds, ofDescriptors_eq_unknown_iff, ?_,
    fun _ _ _ => isBracketed_ofDescriptors,
    fun _ _ _ _ haccepts _ _ _ _ _ => haccepts.stop_behind_duration⟩
  rintro ⟨d, hd, hknown⟩
  have hne : ofCommands (ds.map (·.command)) ≠ [] := by
    intro hnil
    have hunknown := ofCommands_eq_nil_iff.mp hnil d.command (List.mem_map_of_mem hd)
    simp [Descriptor.isUnknown, hunknown] at hknown
  rw [ofDescriptors_eq hne]
  exact unknown_not_mem_ofCommands _

/-- A classified motion of two seconds with the wait and the stop behind it, and a siren. -/
def timedForward : List Descriptor :=
  [.make (.move ((Motion.toward .forward .normal).withDuration 2000)) Confidence.quantified "ahead",
    .make (.wait 2000) Confidence.quantified "ahead",
    .make (.move .stop) Confidence.quantified "ahead",
    .make .siren Confidence.accessory "siren"]

def openRecorder : Recorder :=
  ⟨"open", none⟩

theorem bracketed_timedForward :
    (∃ d ∈ timedForward, d.isUnknown = false) ∧ Token.unknown ∉ ofDescriptors timedForward ∧
    ofDescriptors timedForward = [.move .forward] ++ .moveDuration 2000 ::
      [.wait 2000, .move .stop, .siren] ∧
    IsBracketed (timedForward.map (·.command)) [.move .forward] 2000
      [.wait 2000, .move .stop, .siren] ∧
    openRecorder.sink.AcceptsAll ∧
    openRecorder.sink.history (ofDescriptors timedForward) [] =
      [⟨⟨.move .forward, 0⟩, .ok ()⟩] ++ ⟨⟨.moveDuration 2000, 0⟩, .ok ()⟩ ::
        [⟨⟨.move .stop, 2000⟩, .ok ()⟩, ⟨⟨.siren, 2000⟩, .ok ()⟩] ∧
    ∃ later, [⟨⟨.move .stop, 2000⟩, .ok ()⟩, ⟨⟨.siren, 2000⟩, .ok ()⟩] =
      (⟨⟨.move .stop, 0 + (2000 : Millis).toNat⟩, .ok ()⟩ :: later : List (Attempt Rejection)) := by
  have hknown : ∃ d ∈ timedForward, d.isUnknown = false :=
    ⟨_, List.mem_cons_self, rfl⟩
  have htokens : ofDescriptors timedForward = [.move .forward] ++ .moveDuration 2000 ::
      [.wait 2000, .move .stop, .siren] := rfl
  have haccepts : openRecorder.sink.AcceptsAll := fun _ _ => rfl
  have hhistory : openRecorder.sink.history (ofDescriptors timedForward) [] =
      [⟨⟨.move .forward, 0⟩, .ok ()⟩] ++ ⟨⟨.moveDuration 2000, 0⟩, .ok ()⟩ ::
        [⟨⟨.move .stop, 2000⟩, .ok ()⟩, ⟨⟨.siren, 2000⟩, .ok ()⟩] := rfl
  obtain ⟨-, -, hunknown, hbracketed, hstop⟩ := bracketed_ofDescriptors timedForward
  exact ⟨hknown, hunknown hknown, htokens, hbracketed _ _ _ htokens, haccepts, hhistory,
    hstop _ _ _ _ haccepts _ _ _ _ _ hhistory⟩

end Token

end Teleop
