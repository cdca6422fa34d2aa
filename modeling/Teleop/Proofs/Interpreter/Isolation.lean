import Teleop.Proofs.Interpreter.Conversation

/-!
# Sessions by themselves

The sessions of a station share its interpreter, its registry and its counters, and still each of them
answers as if it were alone: a simulation relates the station to one with this session only, step by
step, and passes over what is asked of the others (`Mirrors.serve`). A reset session goes on as one that
was just opened. The registry holds the sessions that were opened through it and not closed since; each
of them is closed with success once.
-/

namespace Teleop

namespace Request

/-- The context that a session begins with, if the request opens one. -/
def start? : Request → Option Context
  | openSession => some .initial
  | openWith c => some c
  | _ => none

/-- What a request asks of the session `k`, asked of the only session of a station. -/
def alone? (k : Nat) : Request → Option Request
  | parse j utterance => if j = k then some (.parse 0 utterance) else none
  | snapshot j => if j = k then some (.snapshot 0) else none
  | reset j => if j = k then some (.reset 0) else none
  | _ => none

def isOpenSession : Request → Bool
  | openSession => true
  | _ => false

end Request

namespace Station

def exchanges (s : Station) (requests : List Request) : List (Request × Answer) :=
  requests.zip (s.answers requests)

/-- The answers to what is asked of the session `k`. -/
def ownAnswers (k : Nat) (exchanges : List (Request × Answer)) : List Answer :=
  (exchanges.filter fun x => (x.1.alone? k).isSome).map Prod.snd

/-- Whether an exchange closes the session `k` with success. -/
def closes (k : Nat) : Request × Answer → Bool
  | (.close j, .closed wasRegistered) => j = k && wasRegistered
  | _ => false

def closesAny : Request × Answer → Bool
  | (.close _, .closed wasRegistered) => wasRegistered
  | _ => false

variable {s t : Station} {k : Nat} {c : Context}

theorem exchanges_cons (s : Station) (request : Request) (rest : List Request) :
    s.exchanges (request :: rest) =
      (request, (s.serve request).1) :: (s.serve request).2.exchanges rest := rfl

/-! ## One session and the others -/

/-- The only session of a station is in the state of the session `k` of another one. -/
structure Mirrors (k : Nat) (s t : Station) : Prop where
  interpreter : t.interpreter = s.interpreter
  context : ∃ c, s.contexts[k]? = some c ∧ t.contexts = [c]

theorem interpreter_serve (s : Station) (request : Request) :
    (s.serve request).2.interpreter = s.interpreter := by
  cases request with
  | openSession | openWith c | metrics => rfl
  | parse j _ | snapshot j | reset j | close j | find j =>
    simp only [serve]
    split <;> rfl

theorem interpreter_afterAll (s : Station) (requests : List Request) :
    (s.afterAll requests).interpreter = s.interpreter := by
  induction requests generalizing s with
  | nil => rfl
  | cons request rest ih => rw [afterAll_cons, ih, interpreter_serve]

/-- What is not asked of a session does not change its context. -/
theorem context_serve {request : Request} (hk : s.contexts[k]? = some c)
    (h : request.alone? k = none) : (s.serve request).2.contexts[k]? = some c := by
  have hbound : k < s.contexts.length := (List.getElem?_eq_some_iff.mp hk).1
  cases request with
  | openSession | openWith c' => simpa [serve, List.getElem?_append_left hbound] using hk
  | metrics => exact hk
  | close j | find j =>
    simp only [serve]
    split <;> exact hk
  | snapshot j =>
    simp only [serve]
    split <;> exact hk
  | parse j utterance | reset j =>
    have hne : j ≠ k := by simpa [Request.alone?] using h
    simp only [serve]
    split
    · exact hk
    · simpa [setContext, hne] using hk

/-- What is asked of the session has the answer of the other station and leaves the two alike. -/
theorem Mirrors.serve_own (h : Mirrors k s t) {request own : Request}
    (hown : request.alone? k = some own) :
    (s.serve request).1 = (t.serve own).1 ∧ Mirrors k (s.serve request).2 (t.serve own).2 := by
  obtain ⟨c, hs, ht⟩ := h.context
  have hbound : k < s.contexts.length := (List.getElem?_eq_some_iff.mp hs).1
  have hfirst : t.contexts[0]? = some c := by rw [ht]; rfl
  cases request with
  | parse j utterance =>
    simp only [Request.alone?, Option.ite_none_right_eq_some, Option.some.injEq] at hown
    obtain ⟨rfl, rfl⟩ := hown
    rw [serve_parse hs, serve_parse hfirst, h.interpreter]
    refine ⟨rfl, h.interpreter, (s.interpreter.analyze utterance c).2, ?_, ?_⟩
    · simp [setContext, hbound]
    · simp [setContext, ht]
  | snapshot j =>
    simp only [Request.alone?, Option.ite_none_right_eq_some, Option.some.injEq] at hown
    obtain ⟨rfl, rfl⟩ := hown
    simp only [Station.serve, hs, hfirst]
    exact ⟨trivial, h⟩
  | reset j =>
    simp only [Request.alone?, Option.ite_none_right_eq_some, Option.some.injEq] at hown
    obtain ⟨rfl, rfl⟩ := hown
    simp only [Station.serve, hs, hfirst]
    refine ⟨trivial, h.interpreter, .initial, ?_, ?_⟩
    · simp [setContext, hbound]
    · simp [setContext, ht]
  | openSession | openWith c' | close j | find j | metrics => simp [Request.alone?] at hown

/-- What is asked of the others leaves the two alike. -/
theorem Mirrors.serve_other (h : Mirrors k s t) {request : Request}
    (hother : request.alone? k = none) : Mirrors k (s.serve request).2 t := by
  obtain ⟨c, hs, ht⟩ := h.context
  exact ⟨by rw [interpreter_serve, h.interpreter], c, context_serve hs hother, ht⟩

/-- A session answers as it would alone, whatever is asked of the others in between. -/
theorem Mirrors.ownAnswers_eq (h : Mirrors k s t) (requests : List Request) :
    ownAnswers k (s.exchanges requests) = t.answers (requests.filterMap (Request.alone? k)) := by
  induction requests generalizing s t with
  | nil => rfl
  | cons request rest ih =>
    cases hown : request.alone? k with
    | none =>
      rw [List.filterMap_cons_none hown, ← ih (h.serve_other hown), exchanges_cons, ownAnswers,
        List.filter_cons_of_neg (by simp [hown])]
      rfl
    | some own =>
      obtain ⟨hanswer, hnext⟩ := h.serve_own hown
      rw [List.filterMap_cons_some hown, answers_cons, ← ih hnext, ← hanswer, exchanges_cons,
        ownAnswers, List.filter_cons_of_pos (by simp [hown]), List.map_cons]
      rfl

/-- The answers of a session with some context are those of the only session of a station. -/
theorem ownAnswers_eq_alone (hk : s.contexts[k]? = some c) (requests : List Request) :
    ownAnswers k (s.exchanges requests) =
      ((ofInterpreter s.interpreter).serve (.openWith c)).2.answers
        (requests.filterMap (Request.alone? k)) := by
  have hmirrors : Mirrors k s ((ofInterpreter s.interpreter).serve (.openWith c)).2 :=
    ⟨rfl, c, hk, rfl⟩
  exact hmirrors.ownAnswers_eq requests

/-- A session that was reset. -/
theorem context_reset (hk : k < s.contexts.length) :
    (s.serve (.reset k)).2.contexts[k]? = some .initial := by
  simp only [serve, List.getElem?_eq_getElem hk]
  simp [setContext, hk]

theorem serve_start {request : Request} (h : request.start? = some c) :
    (s.serve request).1 = .opened s.contexts.length ∧
      (s.serve request).2.contexts = s.contexts ++ [c] ∧
      (s.serve request).2.registered =
        s.registered ++ (if request.isOpenSession then [s.contexts.length] else []) := by
  cases request with
  | openSession =>
    cases h
    exact ⟨rfl, rfl, rfl⟩
  | openWith c' =>
    cases h
    exact ⟨rfl, rfl, (List.append_nil _).symm⟩
  | _ => simp [Request.start?] at h

theorem context_start {request : Request} (h : request.start? = some c) :
    (s.serve request).2.contexts[s.contexts.length]? = some c := by
  rw [(serve_start h).2.1]
  simp

/-! ## The registry -/

structure IsOrderly (s : Station) : Prop where
  bound : ∀ k ∈ s.registered, k < s.contexts.length
  nodup : s.registered.Nodup

theorem isOrderly_ofInterpreter (i : Interpreter) : (ofInterpreter i).IsOrderly where
  bound := by simp [ofInterpreter]
  nodup := List.nodup_nil

theorem length_contexts_serve (s : Station) (request : Request) :
    s.contexts.length ≤ (s.serve request).2.contexts.length := by
  cases request with
  | openSession | openWith c => simp [serve]
  | metrics => exact Nat.le_refl _
  | parse j _ | reset j =>
    simp only [serve]
    split <;> simp [setContext]
  | snapshot j | close j | find j =>
    simp only [serve]
    split <;> exact Nat.le_refl _

theorem length_contexts_afterAll (s : Station) (requests : List Request) :
    s.contexts.length ≤ (s.afterAll requests).contexts.length := by
  induction requests generalizing s with
  | nil => exact Nat.le_refl _
  | cons request rest ih => exact Nat.le_trans (length_contexts_serve s request) (ih _)

theorem serve_close (hk : k < s.contexts.length) :
    s.serve (.close k) = (.closed (s.registered.contains k),
      { s with registered := s.registered.filter (· ≠ k) }) := by
  simp only [serve, List.getElem?_eq_getElem hk]

theorem serve_find (hk : k < s.contexts.length) :
    s.serve (.find k) = (.found (s.registered.contains k), s) := by
  simp only [serve, List.getElem?_eq_getElem hk]

/-- The registered sessions after a request: one more after an opening, one less after a closing. -/
theorem IsOrderly.registered_serve (h : s.IsOrderly) (request : Request) :
    (s.serve request).2.registered =
      match request with
      | .openSession => s.registered ++ [s.contexts.length]
      | .close k => s.registered.filter (· ≠ k)
      | _ => s.registered := by
  cases request with
  | openSession | openWith c | metrics => rfl
  | parse j _ | snapshot j | reset j | find j =>
    simp only [serve]
    split <;> rfl
  | close j =>
    by_cases hj : j < s.contexts.length
    · rw [serve_close hj]
    · -- a session that does not exist is not registered either
      have hkept : s.registered.filter (· ≠ j) = s.registered := by
        refine List.filter_eq_self.mpr fun k hk => decide_eq_true fun heq => hj ?_
        rw [← heq]
        exact h.bound k hk
      simp only [serve, List.getElem?_eq_none (Nat.le_of_not_lt hj), hkept]

theorem IsOrderly.serve (h : s.IsOrderly) (request : Request) : (s.serve request).2.IsOrderly := by
  have hlength := length_contexts_serve s request
  constructor
  · intro k hk
    rw [h.registered_serve] at hk
    cases request with
    | openSession =>
      rcases List.mem_append.mp hk with hold | hnew
      · exact Nat.lt_of_lt_of_le (h.bound k hold) hlength
      · rw [List.mem_singleton.mp hnew]
        simp [Station.serve]
    | close j => exact Nat.lt_of_lt_of_le (h.bound k (List.mem_filter.mp hk).1) hlength
    | _ => exact Nat.lt_of_lt_of_le (h.bound k hk) hlength
  · rw [h.registered_serve]
    cases request with
    | openSession =>
      refine List.nodup_append.mpr ⟨h.nodup, List.pairwise_singleton _ _, fun a ha b hb => ?_⟩
      rw [List.mem_singleton.mp hb]
      exact Nat.ne_of_lt (h.bound a ha)
    | close j => exact List.Pairwise.filter _ h.nodup
    | _ => exact h.nodup

theorem IsOrderly.afterAll (h : s.IsOrderly) (requests : List Request) :
    (s.afterAll requests).IsOrderly := by
  induction requests generalizing s with
  | nil => exact h
  | cons request rest ih => exact ih (h.serve request)

/-- A session stays in the registry until it is closed, and does not come into it later. -/
theorem IsOrderly.mem_registered_serve (h : s.IsOrderly) (hk : k < s.contexts.length)
    (request : Request) :
    k ∈ (s.serve request).2.registered ↔ k ∈ s.registered ∧ request ≠ .close k := by
  rw [h.registered_serve]
  cases request with
  | openSession =>
    have hne : k ≠ s.contexts.length := Nat.ne_of_lt hk
    simp [hne]
  | close j =>
    have hne : k ≠ j ↔ Request.close j ≠ .close k := by rw [ne_comm, ne_eq, ne_eq, Request.close.injEq]
    rw [List.mem_filter, decide_eq_true_iff, hne]
  | _ => simp

theorem IsOrderly.mem_registered_afterAll (h : s.IsOrderly) (hk : k < s.contexts.length)
    (requests : List Request) :
    k ∈ (s.afterAll requests).registered ↔ k ∈ s.registered ∧ .close k ∉ requests := by
  induction requests generalizing s with
  | nil => simp [Station.afterAll]
  | cons request rest ih =>
    have hlater := Nat.lt_of_lt_of_le hk (length_contexts_serve s request)
    rw [afterAll_cons, ih (h.serve request) hlater, h.mem_registered_serve hk, List.mem_cons,
      not_or, and_assoc, ne_comm]

/-- A request to close a session succeeds exactly if the session is registered. -/
theorem IsOrderly.closes_serve (h : s.IsOrderly) {request : Request} :
    closes k (request, (s.serve request).1) = true ↔ request = .close k ∧ k ∈ s.registered := by
  cases request with
  | close j =>
    rw [Request.close.injEq]
    by_cases hj : j < s.contexts.length
    · rw [serve_close hj]
      simp only [closes, Bool.and_eq_true, decide_eq_true_eq, List.contains_iff_mem]
      exact and_congr_right fun heq => by rw [heq]
    · have hnone : (s.serve (.close j)).1 = .noSession := by
        simp only [Station.serve, List.getElem?_eq_none (Nat.le_of_not_lt hj)]
      rw [hnone]
      refine iff_of_false (by simp [closes]) ?_
      rintro ⟨rfl, hmem⟩
      exact hj (h.bound j hmem)
  | _ => simp [closes]

/-- A session is closed with success once if it is registered and closed at all, and else never. -/
theorem IsOrderly.countP_closes (h : s.IsOrderly) (hk : k < s.contexts.length)
    (requests : List Request) :
    (k ∈ s.registered → .close k ∈ requests → (s.exchanges requests).countP (closes k) = 1) ∧
    (k ∉ s.registered ∨ .close k ∉ requests → (s.exchanges requests).countP (closes k) = 0) := by
  induction requests generalizing s with
  | nil => simp [exchanges]
  | cons request rest ih =>
    have hlater := Nat.lt_of_lt_of_le hk (length_contexts_serve s request)
    obtain ⟨honce, hnever⟩ := ih (h.serve request) hlater
    have hkept := h.mem_registered_serve hk request
    rw [exchanges_cons, List.countP_cons, List.mem_cons]
    constructor
    · intro hmem hclose
      by_cases hrequest : request = .close k
      · -- the first closing takes it out of the registry
        rw [if_pos (h.closes_serve.mpr ⟨hrequest, hmem⟩),
          hnever (Or.inl fun hlast => (hkept.mp hlast).2 hrequest)]
      · rw [if_neg fun hcloses => hrequest (h.closes_serve.mp hcloses).1,
          honce (hkept.mpr ⟨hmem, hrequest⟩) (hclose.resolve_left fun heq => hrequest heq.symm)]
    · intro hnot
      have hfirst : closes k (request, (s.serve request).1) ≠ true := by
        intro hcloses
        obtain ⟨heq, hmem⟩ := h.closes_serve.mp hcloses
        exact hnot.elim (fun hout => hout hmem) fun hout => hout (Or.inl heq.symm)
      rw [if_neg hfirst, hnever]
      exact hnot.imp (fun hout hmem => hout (hkept.mp hmem).1) fun hout hrest => hout (Or.inr hrest)

/-- The registry grows by the sessions that are opened through it and shrinks by those that are closed
with success. -/
theorem IsOrderly.length_registered_serve (h : s.IsOrderly) (request : Request) :
    (s.serve request).2.registered.length +
        (if closesAny (request, (s.serve request).1) then 1 else 0) =
      s.registered.length + (if request.isOpenSession then 1 else 0) := by
  cases request with
  | close j =>
    have herased : (s.serve (.close j)).2.registered = s.registered.erase j := by
      rw [h.registered_serve, h.nodup.erase_eq_filter]
      exact List.filter_congr fun k _ => decide_not
    have hsame : closesAny (.close j, (s.serve (.close j)).1) =
        closes j (.close j, (s.serve (.close j)).1) := by
      cases (s.serve (.close j)).1 <;> simp [closes, closesAny]
    have hpositive : j ∈ s.registered → 0 < s.registered.length := List.length_pos_of_mem
    have hcloses : closes j (.close j, (s.serve (.close j)).1) = true ↔ j ∈ s.registered :=
      h.closes_serve.trans (and_iff_right rfl)
    rw [herased, hsame, List.length_erase]
    simp only [hcloses, Request.isOpenSession]
    split
    · have := hpositive ‹_›
      simp
      omega
    · simp
  | _ => simp [h.registered_serve, closesAny, Request.isOpenSession]

theorem IsOrderly.length_registered (h : s.IsOrderly) (requests : List Request) :
    (s.afterAll requests).registered.length + (s.exchanges requests).countP closesAny =
      s.registered.length + requests.countP Request.isOpenSession := by
  induction requests generalizing s with
  | nil => simp [Station.afterAll, exchanges]
  | cons request rest ih =>
    have hfirst := h.length_registered_serve request
    have hrest := ih (h.serve request)
    rw [afterAll_cons, exchanges_cons, List.countP_cons, List.countP_cons]
    omega

/-- A session is registered when it is opened through the registry. -/
theorem IsOrderly.mem_registered_start (h : s.IsOrderly) {request : Request}
    (hstart : request.start? = some c) :
    s.contexts.length ∈ (s.serve request).2.registered ↔ request.isOpenSession = true := by
  have hnew : s.contexts.length ∉ s.registered := fun hmem => Nat.lt_irrefl _ (h.bound _ hmem)
  rw [(serve_start hstart).2.2, List.mem_append, or_iff_right hnew]
  split <;> simp_all

/-- Whatever is asked of a station, each of its sessions answers as it would alone, and once it is reset
as one that was just opened. A session is found from its opening through the registry on until it is
closed; this succeeds once for each such session and never for another. The registry has as many sessions
as were opened through it and not closed with success. -/
theorem isolated_sessions (i : Interpreter) (before : List Request) (s : Station)
    (hs : s = (ofInterpreter i).afterAll before) :
    (∀ (opening : Request) (c : Context) (behind : List Request), opening.start? = some c →
      (s.serve opening).1 = .opened s.contexts.length ∧
      ownAnswers s.contexts.length ((s.serve opening).2.exchanges behind) =
        ((ofInterpreter i).serve (.openWith c)).2.answers
          (behind.filterMap (Request.alone? s.contexts.length))) ∧
    (∀ (k : Nat) (behind others : List Request) (t : Station), k < s.contexts.length →
      t.interpreter = i →
      others.filterMap (Request.alone? t.contexts.length) = behind.filterMap (Request.alone? k) →
      ownAnswers k ((s.serve (.reset k)).2.exchanges behind) =
        ownAnswers t.contexts.length ((t.serve .openSession).2.exchanges others)) ∧
    (∀ (opening : Request) (c : Context) (behind : List Request), opening.start? = some c →
      (∃ registered,
        (((s.serve opening).2.afterAll behind).serve (.find s.contexts.length)).1 =
          .found registered ∧
        (((s.serve opening).2.afterAll behind).serve (.close s.contexts.length)).1 =
          .closed registered ∧
        (registered = true ↔
          opening.isOpenSession = true ∧ .close s.contexts.length ∉ behind)) ∧
      (opening.isOpenSession = true → .close s.contexts.length ∈ behind →
        ((s.serve opening).2.exchanges behind).countP (closes s.contexts.length) = 1) ∧
      (opening.isOpenSession = false →
        ((s.serve opening).2.exchanges behind).countP (closes s.contexts.length) = 0)) ∧
    ((ofInterpreter i).exchanges before).countP closesAny ≤ before.countP Request.isOpenSession ∧
    s.registered.length = before.countP Request.isOpenSession -
      ((ofInterpreter i).exchanges before).countP closesAny ∧
    (s.registered.isEmpty = true ↔ before.countP Request.isOpenSession -
      ((ofInterpreter i).exchanges before).countP closesAny = 0) := by
  have horderly : s.IsOrderly := hs ▸ (isOrderly_ofInterpreter i).afterAll before
  have hinterpreter : s.interpreter = i := by rw [hs, interpreter_afterAll]; rfl
  have hsize := (isOrderly_ofInterpreter i).length_registered before
  rw [← hs] at hsize
  have hnone : (ofInterpreter i).registered.length = 0 := rfl
  refine ⟨fun opening c behind hstart => ⟨(serve_start hstart).1, ?_⟩,
    fun k behind others t hk ht hsame => ?_, fun opening c behind hstart => ?_, by omega, by omega, ?_⟩
  · rw [ownAnswers_eq_alone (context_start hstart), interpreter_serve, hinterpreter]
  · rw [ownAnswers_eq_alone (context_reset hk), interpreter_serve, hinterpreter, ← hsame,
      ownAnswers_eq_alone (context_start rfl), interpreter_serve, ht]
  · have hopened : s.contexts.length < (s.serve opening).2.contexts.length := by
      rw [(serve_start hstart).2.1]
      simp
    have hlater := Nat.lt_of_lt_of_le hopened
      (length_contexts_afterAll (s.serve opening).2 behind)
    have hfirst := horderly.mem_registered_start hstart
    have hnext := horderly.serve opening
    obtain ⟨honce, hnever⟩ := hnext.countP_closes hopened behind
    refine ⟨⟨_, by rw [serve_find hlater], by rw [serve_close hlater], ?_⟩,
      fun hopen hclose => honce (hfirst.mpr hopen) hclose,
      fun hwith => hnever (Or.inl fun hmem => ?_)⟩
    · rw [List.contains_iff_mem, hnext.mem_registered_afterAll hopened, hfirst]
    · rw [hfirst.mp hmem] at hwith
      cases hwith
  · rw [List.isEmpty_iff_length_eq_zero]
    omega

theorem isolated_sessions_interleaved :
    ownAnswers 1 ((((ofInterpreter .default).afterAll [.openSession]).serve
        (.openWith .initial)).2.exchanges [.parse 0 "go left", .parse 1 "again", .close 1]) =
      ((ofInterpreter .default).serve (.openWith .initial)).2.answers [.parse 0 "again"] ∧
    ((((ofInterpreter .default).afterAll [.openSession]).serve (.openWith .initial)).2.exchanges
      [.parse 0 "go left", .parse 1 "again", .close 1]).countP (closes 1) = 0 := by
  obtain ⟨halone, -, hregistry, -⟩ := isolated_sessions .default [.openSession] _ rfl
  exact ⟨(halone (.openWith .initial) .initial _ rfl).2,
    (hregistry (.openWith .initial) .initial _ rfl).2.2 rfl⟩

end Station

end Teleop
