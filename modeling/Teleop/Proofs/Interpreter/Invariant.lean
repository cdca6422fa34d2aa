import Teleop.Proofs.Classification.WellFormed
import Teleop.Proofs.Interpreter.Memory

/-!
# What holds in every session

Every reading in a sound context is made of well-formed descriptors and leaves a sound context. The
contexts of a station therefore stay sound whatever it is asked, in any order and in any of its
sessions, as long as no session is opened with an unsound one.
-/

namespace Teleop

open Numeric

namespace Interpreter

variable {i : Interpreter} {utterance : String} {c : Context}

theorem isWellFormed_classifyAll {zoomStep : Binary64} {clauses : List String} {d : Descriptor}
    (hd : d ∈ (classifyAll zoomStep clauses c).1) : d.IsWellFormed := by
  rw [classifyAll_fst, List.mem_flatMap] at hd
  obtain ⟨clause, -, hclause⟩ := hd
  exact isWellFormed_classify hclause

/-- An utterance that asks for a repetition is not empty. -/
theorem ne_empty_of_asksToRepeat {normalized : String} (h : asksToRepeat normalized = true) :
    normalized ≠ "" := by
  rintro rfl
  exact absurd h (by decide)

/-- The repetition of a direction that is not a stop. -/
theorem isWellFormed_repetition {normalized : String} {d : Descriptor}
    (hc : c.lastDirection ≠ some .stop) (hd : repetition? normalized c = some d) :
    d.IsWellFormed := by
  cases hasks : asksToRepeat normalized with
  | false =>
    rw [repetition?_eq, hasks] at hd
    simp at hd
  | true =>
    obtain ⟨direction, hdirection, hmake⟩ := Option.bind_eq_some_iff.mp (Rule.of_guard_bind hd)
    have hmoving : direction ≠ .stop := fun hstop => hc (by rw [hdirection, hstop])
    have hnumber : Confidence.ellipsis.isNaN = false :=
      Confidence.number_of_mem_levels (by simp [Confidence.levels])
    cases hmake
    exact ⟨Descriptor.isWithin_make hnumber, fun _ => ne_empty_of_asksToRepeat hasks,
      Motion.isWellFormed_toward hmoving⟩

/-- The descriptors of a reading in a sound context. -/
theorem isWellFormed_descriptors (hc : c.lastDirection ≠ some .stop) {d : Descriptor}
    (hd : d ∈ (i.analyze utterance c).1.descriptors) : d.IsWellFormed := by
  cases hall : (classifyAll i.settings.zoomStep (i.clausesOf utterance) c).1.all
      Descriptor.isUnknown with
  | false =>
    rw [descriptors_of_known hall] at hd
    exact isWellFormed_classifyAll hd
  | true =>
    rw [descriptors_of_unknown hall, List.mem_singleton] at hd
    rw [hd]
    cases hrepeat : repetition? (i.lexicon.normalize utterance) (i.analyze utterance c).2 with
    | none => exact Descriptor.isWellFormed_unknown _
    | some d => exact isWellFormed_repetition (lastDirection_analyze hc) hrepeat

/-- One utterance keeps the context sound. -/
theorem isSound_analyze (hc : c.IsSound) : (i.analyze utterance c).2.IsSound := by
  rw [analyze_snd hc.direction]
  refine hc.replay fun cmd hcmd => ?_
  obtain ⟨d, hd, rfl⟩ := List.mem_map.mp hcmd
  exact (isWellFormed_descriptors hc.direction hd).command

end Interpreter

/-! ## Stations -/

/-- A request that brings in no unsound context. -/
def Request.IsSound : Request → Prop
  | .openWith c => c.IsSound
  | _ => True

/-- An answer whose descriptors are well formed and whose context is sound. -/
def Answer.IsSound : Answer → Prop
  | .parsed r c => (∀ d ∈ r.descriptors, d.IsWellFormed) ∧ c.IsSound
  | .context c => c.IsSound
  | _ => True

namespace Station

def IsSound (s : Station) : Prop :=
  ∀ c ∈ s.contexts, c.IsSound

variable {s : Station}

theorem IsSound.setContext (hs : s.IsSound) {c : Context} (hc : c.IsSound) (k : Nat) :
    (s.setContext k c).IsSound := by
  intro c' hc'
  rcases List.mem_or_eq_of_mem_set hc' with hold | rfl
  · exact hs c' hold
  · exact hc

theorem IsSound.append (hs : s.IsSound) {c : Context} (hc : c.IsSound) :
    ∀ c' ∈ s.contexts ++ [c], c'.IsSound := by
  intro c' hc'
  rcases List.mem_append.mp hc' with hold | hnew
  · exact hs c' hold
  · rw [List.mem_singleton.mp hnew]
    exact hc

/-- One request keeps a station sound. -/
theorem IsSound.serve (hs : s.IsSound) {request : Request} (hrequest : request.IsSound) :
    (s.serve request).1.IsSound ∧ (s.serve request).2.IsSound := by
  cases request with
  | openSession => exact ⟨trivial, hs.append Context.isSound_initial⟩
  | openWith c => exact ⟨trivial, hs.append hrequest⟩
  | parse k utterance =>
    cases hk : s.contexts[k]? with
    | none =>
      simp only [Station.serve, hk]
      exact ⟨trivial, hs⟩
    | some c =>
      have hc := hs c (List.mem_of_getElem? hk)
      have hafter : (s.interpreter.analyze utterance c).2.IsSound := Interpreter.isSound_analyze hc
      rw [serve_parse hk]
      exact ⟨⟨fun d hd => Interpreter.isWellFormed_descriptors hc.direction hd, hafter⟩,
        hs.setContext hafter k⟩
  | snapshot k =>
    cases hk : s.contexts[k]? with
    | none =>
      simp only [Station.serve, hk]
      exact ⟨trivial, hs⟩
    | some c =>
      simp only [Station.serve, hk]
      exact ⟨hs c (List.mem_of_getElem? hk), hs⟩
  | reset k =>
    cases hk : s.contexts[k]? with
    | none =>
      simp only [Station.serve, hk]
      exact ⟨trivial, hs⟩
    | some c =>
      simp only [Station.serve, hk]
      exact ⟨Context.isSound_initial, hs.setContext Context.isSound_initial k⟩
  | close k | find k =>
    simp only [Station.serve]
    split <;> exact ⟨trivial, hs⟩
  | metrics => exact ⟨trivial, hs⟩

/-- A station stays sound over any row of requests. -/
theorem IsSound.serveAll (hs : s.IsSound) {requests : List Request}
    (hrequests : ∀ request ∈ requests, request.IsSound) :
    ∀ served ∈ s.serveAll requests, served.1.IsSound ∧ served.2.IsSound := by
  induction requests generalizing s with
  | nil => simp [Station.serveAll]
  | cons request rest ih =>
    have hfirst := hs.serve (hrequests request List.mem_cons_self)
    intro served hserved
    rcases List.mem_cons.mp hserved with rfl | hrest
    · exact hfirst
    · exact ih hfirst.2 (fun request hmem => hrequests request (List.mem_cons_of_mem _ hmem)) served
        hrest

/-- In a sound context, such as the initial one, every utterance is read as well-formed descriptors and
leaves a sound context; so it is at every point of every row of requests to a station whose sessions
begin with sound contexts. -/
theorem isSound_sessions (i : Interpreter) :
    (∀ c : Context, c.IsSound → ∀ utterance,
      (i.analyze utterance c).2.IsSound ∧
        ∀ d ∈ (i.analyze utterance c).1.descriptors, d.IsWellFormed) ∧
    Context.initial.IsSound ∧
    ∀ (s : Station) (requests : List Request), s.IsSound →
      (∀ request ∈ requests, request.IsSound) →
      ∀ served ∈ s.serveAll requests, served.1.IsSound ∧ served.2.IsSound := by
  refine ⟨fun c hc utterance => ⟨Interpreter.isSound_analyze hc, fun d hd =>
    Interpreter.isWellFormed_descriptors hc.direction hd⟩, Context.isSound_initial, ?_⟩
  intro s requests hs hrequests
  exact hs.serveAll hrequests

theorem isSound_sessions_reset :
    (∀ d ∈ (Interpreter.default.analyze "go left 2 meters" .initial).1.descriptors,
      d.IsWellFormed) ∧
    ∀ served ∈ (Station.ofInterpreter .default).serveAll
        [.openSession, .parse 0 "rotate 90 degrees", .reset 0, .parse 0 "again"],
      served.1.IsSound ∧ served.2.IsSound := by
  obtain ⟨hanalyze, hinitial, hserve⟩ := isSound_sessions .default
  have hempty : (Station.ofInterpreter .default).IsSound := by simp [IsSound, ofInterpreter]
  refine ⟨(hanalyze .initial hinitial "go left 2 meters").2, hserve _ _ hempty ?_⟩
  simp [Request.IsSound]

end Station

end Teleop
