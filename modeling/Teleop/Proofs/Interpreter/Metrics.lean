import Teleop.Proofs.Interpreter.Isolation
import Teleop.Proofs.Interpreter.Shape
import Teleop.Proofs.Token.Bracket

/-!
# What the counters of a station say

The counters of a station are the totals of the readings among its answers, at every point of every row of
requests (`metrics_serveAll`): a reading that is answered is recorded once, and nothing else touches the
counters. Every reading has at least one token, and no more unknowns than clauses, but for an utterance
without a clause, which is one unknown by itself; so the totals are bounded by each other. The counters are
natural numbers: nothing is said of a sum that no longer fits a machine word.
-/

namespace Teleop

/-! ## Totals -/

namespace Metrics

def totals (readings : List Reading) : Metrics where
  utterances := readings.length
  clauses := (readings.flatMap (·.clauses)).length
  unknowns := (readings.flatMap (·.descriptors)).countP Descriptor.isUnknown
  tokens := (readings.flatMap (·.tokens)).length

def plus (m n : Metrics) : Metrics where
  utterances := m.utterances + n.utterances
  clauses := m.clauses + n.clauses
  unknowns := m.unknowns + n.unknowns
  tokens := m.tokens + n.tokens

theorem empty_plus (m : Metrics) : empty.plus m = m := by
  simp [plus, empty]

/-- Counting a reading and then the totals of others is counting the totals of all. -/
theorem record_plus_totals (m : Metrics) (r : Reading) (rest : List Reading) :
    (m.record r).plus (totals rest) = m.plus (totals (r :: rest)) := by
  simp only [plus, record, totals, List.flatMap_cons, List.length_append, List.countP_append,
    List.length_cons, mk.injEq]
  omega

/-- Readings that are counted one by one add their totals. -/
theorem foldl_record (m : Metrics) (readings : List Reading) :
    readings.foldl record m = m.plus (totals readings) := by
  induction readings generalizing m with
  | nil => simp [plus, totals]
  | cons r rest ih => rw [List.foldl_cons, ih, record_plus_totals]

end Metrics

/-! ## Readings -/

structure Reading.IsBalanced (r : Reading) : Prop where
  tokens_ne_nil : r.tokens ≠ []
  unknowns_le : r.descriptors.countP Descriptor.isUnknown ≤
    r.clauses.length + if r.clauses.isEmpty then 1 else 0

/-- The totals of readings are bounded as those of each. -/
theorem Metrics.totals_bounds {readings : List Reading} (h : ∀ r ∈ readings, r.IsBalanced) :
    (totals readings).utterances ≤ (totals readings).tokens ∧
      (totals readings).unknowns ≤
        (totals readings).clauses + readings.countP (·.clauses.isEmpty) := by
  induction readings with
  | nil => simp [totals]
  | cons r rest ih =>
    obtain ⟨htokens, hunknowns⟩ := ih fun r' hr' => h r' (List.mem_cons_of_mem _ hr')
    have hbalanced := h r List.mem_cons_self
    have htoken := List.length_pos_of_ne_nil hbalanced.tokens_ne_nil
    have hunknown := hbalanced.unknowns_le
    simp only [totals, List.flatMap_cons, List.length_append, List.countP_append, List.length_cons,
      List.countP_cons] at htokens hunknowns ⊢
    omega

namespace Interpreter

open Numeric

/-- A clause is at most one unknown. -/
theorem countP_unknown_classify (zoomStep : Binary64) (clause : String) (c : Context) :
    (classify zoomStep clause c).1.countP Descriptor.isUnknown ≤ 1 := by
  rcases Nat.eq_zero_or_pos ((classify zoomStep clause c).1.countP Descriptor.isUnknown) with
    hnone | hsome
  · omega
  · obtain ⟨d, hd, hunknown⟩ := List.countP_pos_iff.mp hsome
    rw [classify_of_unknown hd hunknown]
    exact List.countP_le_length

theorem countP_unknown_classifyAll (zoomStep : Binary64) (clauses : List String) (c : Context) :
    (classifyAll zoomStep clauses c).1.countP Descriptor.isUnknown ≤ clauses.length := by
  induction clauses generalizing c with
  | nil => exact Nat.le_refl 0
  | cons clause rest ih =>
    have hfirst := countP_unknown_classify zoomStep clause c
    have hrest := ih (classify zoomStep clause c).2
    rw [classifyAll, List.countP_append, List.length_cons]
    omega

/-- Every reading is balanced. -/
theorem isBalanced_analyze (i : Interpreter) (utterance : String) (c : Context) :
    (i.analyze utterance c).1.IsBalanced where
  tokens_ne_nil := Token.ofDescriptors_ne_nil _
  unknowns_le := by
    rw [clauses_analyze]
    cases hall : (classifyAll i.settings.zoomStep (i.clausesOf utterance) c).1.all
        Descriptor.isUnknown with
    | false =>
      rw [descriptors_of_known hall]
      exact Nat.le_add_right_of_le (countP_unknown_classifyAll _ _ c)
    | true =>
      -- One descriptor stands for all clauses, or for none.
      obtain ⟨d, hd⟩ := (readAsWhole_of_unknown hall).exists_singleton
      have hone : [d].countP Descriptor.isUnknown ≤ 1 := List.countP_le_length
      rw [hd]
      cases hclauses : i.clausesOf utterance with
      | nil => simpa using hone
      | cons clause rest =>
        rw [List.length_cons]
        omega

end Interpreter

/-! ## Stations -/

/-- The reading that an answer reports, if it is the answer to an utterance. -/
def Answer.reading? : Answer → Option Reading
  | .parsed r _ => some r
  | _ => none

namespace Station

variable {s t : Station} {requests : List Request} {answer : Answer} {r : Reading}

/-- The readings that are reported in the first answers to a row of requests. -/
def heard (s : Station) (requests : List Request) (count : Nat) : List Reading :=
  ((s.answers requests).take count).filterMap Answer.reading?

theorem heard_cons (s : Station) (request : Request) (rest : List Request) (count : Nat) :
    s.heard (request :: rest) (count + 1) =
      (s.serve request).1.reading?.toList ++ (s.serve request).2.heard rest count := by
  rw [heard, answers_cons, List.take_succ_cons]
  cases hreading : (s.serve request).1.reading? with
  | none =>
    rw [List.filterMap_cons_none hreading]
    rfl
  | some r =>
    rw [List.filterMap_cons_some hreading]
    rfl

/-- What one request does to the counters: the reading of its answer is counted, if there is one. -/
theorem metrics_serve (s : Station) (request : Request) :
    (s.serve request).2.metrics =
      (s.serve request).1.reading?.toList.foldl Metrics.record s.metrics := by
  cases request with
  | openSession | openWith c | metrics => rfl
  | parse k utterance =>
    cases hk : s.contexts[k]? with
    | none =>
      simp only [serve, hk]
      rfl
    | some c =>
      rw [serve_parse hk]
      rfl
  | snapshot k | reset k | close k | find k =>
    simp only [serve]
    split <;> rfl

/-- A reading that is reported is that of the utterance that was asked for. -/
theorem exists_parse_of_reading? {request : Request} (h : (s.serve request).1.reading? = some r) :
    ∃ k utterance c, request = .parse k utterance ∧ r = (s.interpreter.analyze utterance c).1 := by
  cases request with
  | openSession | openWith c | metrics => simp [serve, Answer.reading?] at h
  | parse k utterance =>
    cases hk : s.contexts[k]? with
    | none => simp [serve, hk, Answer.reading?] at h
    | some c =>
      rw [serve_parse hk, Answer.reading?, Option.some.injEq] at h
      exact ⟨k, utterance, c, rfl, h.symm⟩
  | snapshot k | reset k | close k | find k =>
    simp only [serve] at h
    split at h <;> simp [Answer.reading?] at h

/-- Requests other than for a reading leave the counters alone. -/
theorem metrics_serve_of_not_parse {request : Request}
    (h : ∀ k utterance, request ≠ .parse k utterance) : (s.serve request).2.metrics = s.metrics := by
  cases hreading : (s.serve request).1.reading? with
  | none =>
    rw [metrics_serve, hreading]
    rfl
  | some r =>
    obtain ⟨k, utterance, -, hparse, -⟩ := exists_parse_of_reading? hreading
    exact absurd hparse (h k utterance)

/-- Over a row of requests the readings that are reported are counted one by one. -/
theorem metrics_of_serveAll {k : Nat} (h : (s.serveAll requests)[k]? = some (answer, t)) :
    t.metrics = (s.heard requests (k + 1)).foldl Metrics.record s.metrics := by
  induction requests generalizing s k with
  | nil => simp [serveAll] at h
  | cons request rest ih =>
    rw [heard_cons, List.foldl_append, ← metrics_serve]
    cases k with
    | zero =>
      obtain rfl : (s.serve request).2 = t := congrArg Prod.snd (Option.some.inj h)
      rfl
    | succ k => exact ih h

theorem isBalanced_of_mem_heard {count : Nat} (h : r ∈ s.heard requests count) : r.IsBalanced := by
  induction requests generalizing s count with
  | nil => simp [heard, answers, serveAll] at h
  | cons request rest ih =>
    cases count with
    | zero => simp [heard] at h
    | succ count =>
      rw [heard_cons, List.mem_append, Option.mem_toList] at h
      rcases h with hfirst | hrest
      · obtain ⟨-, utterance, c, -, hreading⟩ := exists_parse_of_reading? hfirst
        rw [hreading]
        exact Interpreter.isBalanced_analyze _ utterance c
      · exact ih hrest

/-- The counters that a station answers are its counters. -/
theorem metrics_of_answer {request : Request} {m : Metrics} (h : (s.serve request).1 = .metrics m) :
    m = (s.serve request).2.metrics := by
  cases request with
  | metrics => exact (Answer.metrics.inj h).symm
  | openSession | openWith c => exact Answer.noConfusion h
  | parse k utterance | snapshot k | reset k | close k | find k =>
    simp only [serve] at h
    split at h <;> exact Answer.noConfusion h

theorem metrics_of_answers {k : Nat} {m : Metrics}
    (h : (s.serveAll requests)[k]? = some (.metrics m, t)) : m = t.metrics := by
  induction requests generalizing s k with
  | nil => simp [serveAll] at h
  | cons request rest ih =>
    cases k with
    | zero =>
      have hserve : s.serve request = (.metrics m, t) := Option.some.inj h
      have hanswer := metrics_of_answer (congrArg Prod.fst hserve)
      rwa [hserve] at hanswer
    | succ k => exact ih h

/-- At every point of a row of requests the counters of a station are the totals of the readings that were
reported up to it, and these are the counters it answers; requests other than for a reading leave them
alone. There are at least as many tokens as utterances, and no more unknowns than there are clauses and
utterances without one. -/
theorem metrics_serveAll (i : Interpreter) (requests : List Request) {k : Nat}
    (h : ((ofInterpreter i).serveAll requests)[k]? = some (answer, s)) :
    s.metrics = .totals ((ofInterpreter i).heard requests (k + 1)) ∧
    (∀ m, answer = .metrics m → m = .totals ((ofInterpreter i).heard requests (k + 1))) ∧
    (∀ request, (∀ session utterance, request ≠ .parse session utterance) →
      (s.serve request).2.metrics = s.metrics) ∧
    s.metrics.utterances ≤ s.metrics.tokens ∧
    s.metrics.unknowns ≤ s.metrics.clauses +
      ((ofInterpreter i).heard requests (k + 1)).countP (·.clauses.isEmpty) := by
  have htotals : s.metrics = .totals ((ofInterpreter i).heard requests (k + 1)) := by
    rw [metrics_of_serveAll h, Metrics.foldl_record]
    exact Metrics.empty_plus _
  have hbalanced : ∀ r ∈ (ofInterpreter i).heard requests (k + 1), r.IsBalanced :=
    fun r hr => isBalanced_of_mem_heard hr
  have hbounds := Metrics.totals_bounds hbalanced
  rw [← htotals] at hbounds
  refine ⟨htotals, ?_, fun request hother => metrics_serve_of_not_parse hother, hbounds⟩
  rintro m rfl
  rw [metrics_of_answers h, htotals]

/-- A blank utterance counts as one utterance, one unknown and one token. -/
theorem metrics_serveAll_blank : ∃ answer s,
    ((ofInterpreter .default).serveAll [.openSession, .parse 0 " ", .reset 0, .metrics])[3]? =
      some (answer, s) ∧
    s.metrics = ⟨1, 0, 1, 1⟩ ∧ s.metrics.utterances ≤ s.metrics.tokens := by
  have hnormal : Interpreter.default.lexicon.normalize " " = "" := by decide
  have hreading : (Interpreter.default.analyze " " .initial).1 = ⟨" ", "", [], [.unknown ""]⟩ := by
    rw [Interpreter.analyze, hnormal]
    rfl
  have hheard : (ofInterpreter .default).heard [.openSession, .parse 0 " ", .reset 0, .metrics] 4 =
      [(Interpreter.default.analyze " " .initial).1] := rfl
  refine ⟨_, _, rfl, ?_⟩
  obtain ⟨htotals, -, -, htokens, -⟩ := metrics_serveAll .default
    [.openSession, .parse 0 " ", .reset 0, .metrics] (k := 3) rfl
  refine ⟨htotals.trans ?_, htokens⟩
  rw [hheard, hreading]
  rfl

end Station

end Teleop
