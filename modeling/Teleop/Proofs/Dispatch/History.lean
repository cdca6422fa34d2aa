import Teleop.Dispatch

/-!
# What a sink is offered

`Sink.recorded` puts a record of every delivery and of the answer to it beside the state of a sink. The
record changes nothing for the sink, so what holds of it holds of every sink, whatever state it keeps and
however it answers. The invariant of the loop is that, until something ends the stream, report and record
are those of the tokens passed so far; `Course` says how a stream can end. Delays are counted without an
upper bound.
-/

namespace Teleop

namespace Token

/-- Whether a token is offered to a sink. A wait is honoured and an unknown token skipped instead. -/
def isOffered : Token → Bool
  | wait _ => false
  | unknown => false
  | _ => true

def delayMillis : Token → Nat
  | wait t => t.toNat
  | _ => 0

theorem delayMillis_of_isOffered {t : Token} (h : t.isOffered = true) : t.delayMillis = 0 := by
  cases t with
  | wait t => exact Bool.noConfusion h
  | _ => rfl

theorem ne_unknown_of_isOffered {t : Token} (h : t.isOffered = true) : t ≠ .unknown := by
  rintro rfl
  exact Bool.noConfusion h

end Token

/-- The delay that some tokens ask for in all. -/
def waitedMillis : List Token → Nat
  | [] => 0
  | t :: rest => t.delayMillis + waitedMillis rest

@[simp] theorem waitedMillis_nil : waitedMillis [] = 0 := rfl

@[simp] theorem waitedMillis_cons (t : Token) (ts : List Token) :
    waitedMillis (t :: ts) = t.delayMillis + waitedMillis ts := rfl

@[simp] theorem waitedMillis_append (ts us : List Token) :
    waitedMillis (ts ++ us) = waitedMillis ts + waitedMillis us := by
  induction ts with
  | nil => simp
  | cons t ts ih => rw [List.cons_append, waitedMillis_cons, ih, waitedMillis_cons, Nat.add_assoc]

/-- The deliveries of the offered tokens of a stream that begins at the time `start`. -/
def deliveries (start : Nat) : List Token → List Delivery
  | [] => []
  | t :: rest =>
    if t.isOffered then ⟨t, start⟩ :: deliveries start rest
    else deliveries (start + t.delayMillis) rest

theorem deliveries_append (start : Nat) (ts us : List Token) :
    deliveries start (ts ++ us) =
      deliveries start ts ++ deliveries (start + waitedMillis ts) us := by
  induction ts generalizing start with
  | nil => rfl
  | cons t ts ih =>
    rw [List.cons_append, deliveries, deliveries, waitedMillis_cons, ih, ih]
    split
    · rename_i hoffered
      rw [Token.delayMillis_of_isOffered hoffered, Nat.zero_add, List.cons_append]
    · rw [Nat.add_assoc]

theorem map_token_deliveries (start : Nat) (ts : List Token) :
    (deliveries start ts).map (·.token) = ts.filter Token.isOffered := by
  induction ts generalizing start with
  | nil => rfl
  | cons t ts ih =>
    rw [deliveries, List.filter_cons]
    split
    · rw [List.map_cons, ih]
    · exact ih _

structure Attempt (Refusal : Type) where
  delivery : Delivery
  answer : Except Refusal Unit

/-- The attempts of tokens that are all taken. -/
def taken {Refusal : Type} (tokens : List Token) : List (Attempt Refusal) :=
  (deliveries 0 tokens).map (⟨·, .ok ()⟩)

/-- What is taken is what is offered, in order. -/
theorem map_token_taken {Refusal : Type} (tokens : List Token) :
    (taken tokens : List (Attempt Refusal)).map (·.delivery.token) =
      tokens.filter Token.isOffered := by
  rw [taken, List.map_map, ← map_token_deliveries 0]
  rfl

/-- The report of tokens that are all passed, those offered being taken. -/
def DispatchReport.ofPassed (tokens : List Token) (halted : Bool) : DispatchReport where
  sent := tokens.countP Token.isOffered
  skipped := tokens.count .unknown
  waitedMillis := Teleop.waitedMillis tokens
  halted := halted

/-- What follows a refusal: a stop is offered, unless it was a stop that was refused. -/
def farewell {Refusal : Type} (refused : Delivery) (answer : Except Refusal Unit) :
    List (Attempt Refusal) :=
  if refused.token = .move .stop then [] else [⟨⟨.move .stop, refused.afterMillis⟩, answer⟩]

/-- The ways a stream can go: all attempts made, in order, and the result. -/
inductive Course {Refusal : Type} (tokens : List Token) :
    List (Attempt Refusal) → Except Refusal DispatchReport → Prop
  /-- Every offered token is taken, and none is an emergency stop. -/
  | finished (uncut : .emergencyStop ∉ tokens) :
      Course tokens (taken tokens) (.ok (.ofPassed tokens false))
  /-- Every offered token up to the first emergency stop is taken, that stop included. -/
  | halted {before behind : List Token} (split : tokens = before ++ .emergencyStop :: behind)
      (uncut : .emergencyStop ∉ before) :
      Course tokens (taken (before ++ [.emergencyStop]))
        (.ok (.ofPassed (before ++ [.emergencyStop]) (!behind.isEmpty)))
  /-- A token is refused, the offered tokens before it being taken and none an emergency stop. -/
  | refused {before behind : List Token} {token : Token} {refusal : Refusal}
      {answer : Except Refusal Unit} (split : tokens = before ++ token :: behind)
      (uncut : .emergencyStop ∉ before) (offered : token.isOffered = true) :
      Course tokens
        (taken before ++ ⟨⟨token, waitedMillis before⟩, .error refusal⟩ ::
          farewell ⟨token, waitedMillis before⟩ answer)
        (.error refusal)

namespace Sink

variable {State Refusal : Type} {sink : Sink State Refusal} {report : DispatchReport} {token : Token}
  {rest : List Token} {state after : State}

/-! ## One token -/

/-- An offered token is sent; the answer decides how the loop goes on. -/
theorem dispatchFrom_offered (hoffered : token.isOffered = true) :
    sink.dispatchFrom report (token :: rest) state =
      match sink.send ⟨token, report.waitedMillis⟩ state with
      | (.error refusal, after) =>
        (.error refusal,
          if token = .move .stop then after
          else (sink.send ⟨.move .stop, report.waitedMillis⟩ after).2)
      | (.ok (), after) =>
        if token = .emergencyStop then
          (.ok { report with sent := report.sent + 1, halted := !rest.isEmpty }, after)
        else sink.dispatchFrom { report with sent := report.sent + 1 } rest after := by
  cases token with
  | wait t => exact Bool.noConfusion hoffered
  | unknown => exact Bool.noConfusion hoffered
  | _ => rfl

theorem dispatchFrom_refused (hoffered : token.isOffered = true) {refusal : Refusal}
    (hsend : sink.send ⟨token, report.waitedMillis⟩ state = (.error refusal, after)) :
    sink.dispatchFrom report (token :: rest) state =
      (.error refusal,
        if token = .move .stop then after
        else (sink.send ⟨.move .stop, report.waitedMillis⟩ after).2) := by
  rw [dispatchFrom_offered hoffered, hsend]

theorem dispatchFrom_halted
    (hsend : sink.send ⟨.emergencyStop, report.waitedMillis⟩ state = (.ok (), after)) :
    sink.dispatchFrom report (.emergencyStop :: rest) state =
      (.ok { report with sent := report.sent + 1, halted := !rest.isEmpty }, after) := by
  rw [dispatchFrom_offered rfl, hsend]
  exact if_pos rfl

theorem dispatchFrom_taken (hoffered : token.isOffered = true) (hstop : token ≠ .emergencyStop)
    (hsend : sink.send ⟨token, report.waitedMillis⟩ state = (.ok (), after)) :
    sink.dispatchFrom report (token :: rest) state =
      sink.dispatchFrom { report with sent := report.sent + 1 } rest after := by
  rw [dispatchFrom_offered hoffered, hsend]
  exact if_neg hstop

theorem dispatchFrom_passed (hoffered : token.isOffered = false) :
    sink.dispatchFrom report (token :: rest) state =
      sink.dispatchFrom { report with
        skipped := report.skipped + [token].count .unknown
        waitedMillis := report.waitedMillis + token.delayMillis } rest state := by
  cases token with
  | wait t => rfl
  | unknown => rfl
  | _ => exact Bool.noConfusion hoffered

/-! ## The record -/

/-- The sink that answers as another one and records every delivery with the answer to it. -/
def recorded (sink : Sink State Refusal) : Sink (State × List (Attempt Refusal)) Refusal where
  send delivery s :=
    ((sink.send delivery s.1).1,
      ((sink.send delivery s.1).2, s.2 ++ [⟨delivery, (sink.send delivery s.1).1⟩]))

def history (sink : Sink State Refusal) (tokens : List Token) (state : State) :
    List (Attempt Refusal) :=
  (sink.recorded.dispatch tokens (state, [])).2.2

theorem send_recorded {delivery : Delivery} {answer : Except Refusal Unit}
    (hsend : sink.send delivery state = (answer, after)) (record : List (Attempt Refusal)) :
    sink.recorded.send delivery (state, record) =
      (answer, (after, record ++ [⟨delivery, answer⟩])) := by
  simp only [recorded, hsend]

/-- The record changes neither what comes of a stream nor what becomes of the sink. -/
theorem dispatchFrom_recorded (sink : Sink State Refusal) (report : DispatchReport)
    (tokens : List Token) (state : State) (record : List (Attempt Refusal)) :
    (sink.recorded.dispatchFrom report tokens (state, record)).1 =
        (sink.dispatchFrom report tokens state).1 ∧
      (sink.recorded.dispatchFrom report tokens (state, record)).2.1 =
        (sink.dispatchFrom report tokens state).2 := by
  induction tokens generalizing report state record with
  | nil => exact ⟨rfl, rfl⟩
  | cons token rest ih =>
    cases hoffered : token.isOffered with
    | false =>
      rw [dispatchFrom_passed hoffered, dispatchFrom_passed hoffered]
      exact ih ..
    | true =>
      rcases hsend : sink.send ⟨token, report.waitedMillis⟩ state with ⟨answer, after⟩
      have hrecorded := send_recorded hsend record
      cases answer with
      | error refusal =>
        rw [dispatchFrom_refused hoffered hrecorded, dispatchFrom_refused hoffered hsend]
        refine ⟨rfl, ?_⟩
        by_cases hstop : token = .move .stop
        · simp only [if_pos hstop]
        · simp only [if_neg hstop, recorded]
      | ok =>
        by_cases hstop : token = .emergencyStop
        · subst hstop
          rw [dispatchFrom_halted hrecorded, dispatchFrom_halted hsend]
          exact ⟨rfl, rfl⟩
        · rw [dispatchFrom_taken hoffered hstop hrecorded, dispatchFrom_taken hoffered hstop hsend]
          exact ih ..

/-! ## The loop -/

theorem ofPassed_snoc_offered (passed : List Token) (h : token.isOffered = true) (halted : Bool) :
    { DispatchReport.ofPassed passed false with
      sent := passed.countP Token.isOffered + 1, halted := halted } =
      DispatchReport.ofPassed (passed ++ [token]) halted := by
  simp [DispatchReport.ofPassed, h, Token.ne_unknown_of_isOffered h, Token.delayMillis_of_isOffered h]

theorem ofPassed_snoc_passed (passed : List Token) (h : token.isOffered = false) :
    { DispatchReport.ofPassed passed false with
      skipped := passed.count .unknown + [token].count .unknown
      waitedMillis := waitedMillis passed + token.delayMillis } =
      DispatchReport.ofPassed (passed ++ [token]) false := by
  simp [DispatchReport.ofPassed, h]

theorem taken_snoc_offered (passed : List Token) (h : token.isOffered = true) :
    taken passed ++ [⟨⟨token, waitedMillis passed⟩, .ok ()⟩] =
      (taken (passed ++ [token]) : List (Attempt Refusal)) := by
  simp [taken, deliveries_append, deliveries, h]

theorem taken_snoc_passed (passed : List Token) (h : token.isOffered = false) :
    (taken passed : List (Attempt Refusal)) = taken (passed ++ [token]) := by
  simp [taken, deliveries_append, deliveries, h]

/-- Until a stream ends, report and record are those of the tokens passed so far. -/
theorem course_dispatchFrom (sink : Sink State Refusal) (passed rest : List Token) (state : State)
    (uncut : .emergencyStop ∉ passed) :
    Course (passed ++ rest)
      (sink.recorded.dispatchFrom (.ofPassed passed false) rest (state, taken passed)).2.2
      (sink.recorded.dispatchFrom (.ofPassed passed false) rest (state, taken passed)).1 := by
  -- on the tokens still to come; what was passed grows at its end
  induction rest generalizing passed state with
  | nil =>
    rw [List.append_nil]
    exact .finished uncut
  | cons token rest ih =>
    have hsplit : passed ++ token :: rest = (passed ++ [token]) ++ rest := by simp
    cases hoffered : token.isOffered with
    | false =>
      have hnext : Token.emergencyStop ∉ passed ++ [token] := by
        rw [List.mem_append, List.mem_singleton]
        rintro (h | rfl)
        · exact uncut h
        · exact Bool.noConfusion hoffered
      rw [dispatchFrom_passed hoffered, taken_snoc_passed passed hoffered, hsplit]
      exact ofPassed_snoc_passed passed hoffered ▸ ih _ state hnext
    | true =>
      rcases hsend : sink.send ⟨token, waitedMillis passed⟩ state with ⟨answer, after⟩
      have hrecorded := send_recorded hsend (taken passed)
      cases answer with
      | error refusal =>
        rw [dispatchFrom_refused hoffered hrecorded]
        have hcourse : Course (passed ++ token :: rest)
            (taken passed ++ ⟨⟨token, waitedMillis passed⟩, .error refusal⟩ ::
              farewell ⟨token, waitedMillis passed⟩
                (sink.send ⟨.move .stop, waitedMillis passed⟩ after).1)
            (.error refusal) := .refused rfl uncut hoffered
        by_cases hstop : token = .move .stop
        · rw [farewell, if_pos hstop] at hcourse
          rwa [if_pos hstop]
        · rw [farewell, if_neg hstop] at hcourse
          rw [if_neg hstop]
          simp only [recorded, List.append_assoc]
          exact hcourse
      | ok =>
        rw [taken_snoc_offered passed hoffered] at hrecorded
        by_cases hstop : token = .emergencyStop
        · subst hstop
          rw [dispatchFrom_halted hrecorded]
          exact ofPassed_snoc_offered passed hoffered (!rest.isEmpty) ▸ .halted rfl uncut
        · have hnext : Token.emergencyStop ∉ passed ++ [token] := by
            rw [List.mem_append, List.mem_singleton]
            rintro (h | h)
            · exact uncut h
            · exact hstop h.symm
          rw [dispatchFrom_taken hoffered hstop hrecorded, hsplit]
          exact ofPassed_snoc_offered passed hoffered false ▸ ih _ after hnext

/-- What a sink is offered, how it answers and what comes of a stream: the record of all attempts, which
changes nothing for the sink, takes one of the three courses of the stream. -/
theorem course_dispatch (sink : Sink State Refusal) (tokens : List Token) (state : State) :
    Course tokens (sink.history tokens state) (sink.dispatch tokens state).1 ∧
      (∀ passed, (taken passed : List (Attempt Refusal)).map (·.delivery.token) =
        passed.filter Token.isOffered) ∧
      (sink.recorded.dispatch tokens (state, [])).1 = (sink.dispatch tokens state).1 ∧
      (sink.recorded.dispatch tokens (state, [])).2.1 = (sink.dispatch tokens state).2 := by
  obtain ⟨hresult, hstate⟩ := dispatchFrom_recorded sink .empty tokens state []
  refine ⟨?_, map_token_taken, hresult, hstate⟩
  have hcourse := course_dispatchFrom sink [] tokens state (by simp)
  rw [dispatch, ← hresult]
  exact hcourse

end Sink

end Teleop
