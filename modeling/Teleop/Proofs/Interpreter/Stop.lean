import Teleop.Proofs.Classification.View
import Teleop.Proofs.Clause.Segment
import Teleop.Proofs.Interpreter.Reading

/-!
# Requests to stop

A cue of the operator has to survive the two passes that cut clauses, win its clause against all other
rules, and come through the lowering to tokens. The words for a stop always do. A safety cue does
unless it is severed: the cues `e-stop` and `e stop` contain the action verb `stop`, and behind another
verb this opens a clause of its own. The condition is exact for the place of the cue; another clause
may still ask for an emergency stop by itself.
-/

namespace Teleop.Interpreter

open Text Clause

/-- One of some cues stands at a place of a text, with at most punctuation between it and the blanks
around it. -/
structure IsCueAt (cues : List String) (text a x b : List Char) : Prop where
  text_eq : text = a ++ (x ++ b)
  mem : ∃ cue ∈ cues, cue.toList = x
  leadsIn : LeadsIn a
  leadsOut : LeadsOut b

/-- A word that is a cue up to the punctuation around it is a place of that cue. -/
theorem exists_isCueAt {cues : List String} {text w : List Char} {cue : String}
    (hw : w ∈ words text) (hcue : cue ∈ cues) (hbare : View.bareWord w = cue.toList) :
    ∃ a b, IsCueAt cues text a cue.toList b := by
  obtain ⟨a, b, rfl, ha, hb, -, hblank⟩ := exists_of_mem_words hw
  obtain ⟨pre, post, hsplit, hpre, hpost, -, -⟩ := exists_trimBoth (!isAlphanumeric ·) w
  rw [show trimBoth (!isAlphanumeric ·) w = cue.toList from hbare] at hsplit
  subst hsplit
  refine ⟨a ++ pre, post ++ b, by simp only [List.append_assoc], ⟨cue, hcue, rfl⟩,
    ⟨a, pre, rfl, ha, fun c hc => ⟨hblank c ?_, by simpa using hpre c hc⟩⟩,
    ⟨post, b, rfl, hb, fun c hc => ⟨hblank c ?_, by simpa using hpost c hc⟩⟩⟩
  · exact List.mem_append_left _ hc
  · exact List.mem_append_right _ (List.mem_append_right _ hc)

/-! ## Cues -/

/-- The words and phrases that call for an emergency stop. -/
def safetyCues : List String :=
  Rule.safetyWords ++ Rule.safetyPhrases

theorem cues_solid : ∀ cue ∈ safetyCues ++ Rule.stopWords,
    isSolid cue.toList = true ∧ verbsReachEnd cue.toList = true := by
  decide +kernel

/-- A word that a view keeps as it is: unbroken, in lower case and bare. -/
def isKept (w : List Char) : Bool :=
  View.isBare w && lower w == w && !w.isEmpty && !w.any isBlank

theorem isKept_iff {w : List Char} : isKept w = true ↔
    View.isBare w = true ∧ lower w = w ∧ w ≠ [] ∧ ∀ c ∈ w, isBlank c = false := by
  simp [isKept, and_assoc]

theorem cueWords_kept : ∀ cue ∈ Rule.safetyWords ++ Rule.stopWords,
    isKept cue.toList = true := by
  decide +kernel

/-- No verb begins inside a word for a stop. -/
theorem stopWords_unbroken : ∀ cue ∈ Rule.stopWords, ∀ w ∈ actionVerbs,
    ∀ i < cue.toList.length, 0 < i → fits cue.toList w.toList i 0 = false := by
  decide

/-- The only verb that begins inside a safety cue is the `stop` of `e-stop` and `e stop`. -/
theorem safetyCues_broken : ∀ cue ∈ safetyCues, ∀ w ∈ actionVerbs,
    ∀ i < cue.toList.length, 0 < i ∧ fits cue.toList w.toList i 0 = true →
      (cue = "e-stop" ∨ cue = "e stop") ∧ w = "stop" ∧ i = 2 := by
  decide +kernel

theorem safetyPhrases_split : ∀ phrase ∈ Rule.safetyPhrases,
    ∃ y ∈ ["e".toList, "kill".toList], ∃ z ∈ ["stop".toList, "switch".toList],
      phrase.toList = y ++ ' ' :: z ∧ isKept y = true ∧ isKept z = true := by
  decide +kernel

section Hears

variable {clause : String} {a x b : List Char}

/-- A clause that keeps a cue word hears it. -/
theorem has_of_cue {cues : List String} {cue : String} (hcue : cue ∈ cues)
    (hknown : cue ∈ Rule.safetyWords ++ Rule.stopWords) (ha : LeadsIn a) (hb : LeadsOut b)
    (hclause : words clause.toList = words (a ++ (cue.toList ++ b))) :
    (View.ofClause clause).has cues = true := by
  obtain ⟨hbare, hlower, hne, hblank⟩ := isKept_iff.mp (cueWords_kept cue hknown)
  obtain ⟨ws, pre, post, vs, hwords, hpre, hpost⟩ := exists_words_around ha hb hne hblank
  refine View.has_of_mem (w := pre ++ (cue.toList ++ post)) hcue hne ?_ ?_
  · rw [hclause, hwords]
    exact List.mem_append_right _ List.mem_cons_self
  · rw [View.bareWord_append hbare hpre hpost, hlower]

/-- A clause that keeps a cue phrase hears it. -/
theorem hasPhrase_of_cue {phrase : String} (hphrase : phrase ∈ Rule.safetyPhrases)
    (ha : LeadsIn a) (hb : LeadsOut b)
    (hclause : words clause.toList = words (a ++ (phrase.toList ++ b))) :
    (View.ofClause clause).hasPhrase Rule.safetyPhrases = true := by
  obtain ⟨y, -, z, -, hsplit, hy, hz⟩ := safetyPhrases_split phrase hphrase
  obtain ⟨hybare, hylower, hyne, hyblank⟩ := isKept_iff.mp hy
  obtain ⟨hzbare, hzlower, hzne, hzblank⟩ := isKept_iff.mp hz
  obtain ⟨ws, pre, hleft, hpre⟩ := ha.words_append hyne hyblank
  obtain ⟨post, vs, hright, hpost⟩ := hb.words_append hzne hzblank
  have hwords : words clause.toList = ws ++ (pre ++ y) :: (z ++ post) :: vs := by
    have hassoc : a ++ ((y ++ ' ' :: z) ++ b) = (a ++ y) ++ ' ' :: (z ++ b) := by simp
    rw [hclause, hsplit, hassoc, words_append_blank (by decide), hleft, hright]
    simp
  have hnil : ∀ c ∈ ([] : List Char), isAlphanumeric c = false := by simp
  have hybareWord := View.bareWord_append hybare (fun c hc => (hpre c hc).2) hnil
  have hzbareWord := View.bareWord_append hzbare hnil fun c hc => (hpost c hc).2
  rw [List.append_nil] at hybareWord
  rw [List.nil_append] at hzbareWord
  refine View.hasPhrase_of_words hphrase hsplit hyne hzne hwords ?_ ?_
  · rw [hybareWord, hylower]
  · rw [hzbareWord, hzlower]

theorem isAlarm_of_cue (hx : ∃ cue ∈ safetyCues, cue.toList = x) (ha : LeadsIn a)
    (hb : LeadsOut b) (hclause : words clause.toList = words (a ++ (x ++ b))) :
    (View.ofClause clause).isAlarm = true := by
  obtain ⟨cue, hcue, rfl⟩ := hx
  rw [View.isAlarm, Bool.or_eq_true]
  rcases List.mem_append.mp hcue with hcue | hcue
  · exact Or.inl (has_of_cue hcue (List.mem_append_left _ hcue) ha hb hclause)
  · exact Or.inr (hasPhrase_of_cue hcue ha hb hclause)

end Hears

/-! ## Tokens -/

section Analyze

variable {i : Interpreter} {utterance : String} {c : Context}

/-- The stream has an emergency stop exactly if one of the clauses asks for it. -/
theorem emergencyStop_mem_tokens :
    Token.emergencyStop ∈ (i.analyze utterance c).1.tokens ↔
      ∃ clause ∈ (i.analyze utterance c).1.clauses, (View.ofClause clause).isAlarm = true := by
  rw [clauses_analyze, Reading.tokens, Token.mem_ofDescriptors (by simp),
    Token.emergencyStop_mem_ofCommands]
  have hclauses : Command.emergencyStop ∈
      (classifyAll i.settings.zoomStep (i.clausesOf utterance) c).1.map (·.command) ↔
        ∃ clause ∈ i.clausesOf utterance, (View.ofClause clause).isAlarm = true := by
    rw [classifyAll_fst, List.map_flatMap]
    simp only [List.mem_flatMap, emergencyStop_mem_classify]
  rw [← hclauses]
  cases hall : (classifyAll i.settings.zoomStep (i.clausesOf utterance) c).1.all
    Descriptor.isUnknown with
  | false => rw [descriptors_of_known hall]
  | true =>
    obtain ⟨d, hd, hcommand⟩ := motion_or_unknown hall
    have hnone : Command.emergencyStop ∉
        (classifyAll i.settings.zoomStep (i.clausesOf utterance) c).1.map (·.command) := by
      intro hmem
      obtain ⟨e, he, hcmd⟩ := List.mem_map.mp hmem
      have := List.all_eq_true.mp hall e he
      simp [Descriptor.isUnknown, hcmd] at this
    rw [hd]
    refine iff_of_false ?_ hnone
    rcases hcommand with h | ⟨m, h⟩ <;> simp [h]

/-- A clause with a word for a stop puts a stop or an emergency stop into the stream. -/
theorem stop_mem_of_clause {clause : String} (hclause : clause ∈ i.clausesOf utterance)
    (hstop : (View.ofClause clause).has Rule.stopWords = true) :
    Token.move .stop ∈ (i.analyze utterance c).1.tokens ∨
      Token.emergencyStop ∈ (i.analyze utterance c).1.tokens := by
  cases halarm : (View.ofClause clause).isAlarm with
  | true =>
    right
    rw [emergencyStop_mem_tokens, clauses_analyze]
    exact ⟨clause, hclause, halarm⟩
  | false =>
    left
    have hmem : (View.ofClause clause).describe (.move .stop) Confidence.stop ∈
        (classifyAll i.settings.zoomStep (i.clausesOf utterance) c).1 := by
      rw [classifyAll_fst, List.mem_flatMap]
      refine ⟨clause, hclause, ?_⟩
      rw [classify_of_stop halarm hstop]
      exact List.mem_singleton_self _
    have hknown : (classifyAll i.settings.zoomStep (i.clausesOf utterance) c).1.all
        Descriptor.isUnknown = false :=
      List.all_eq_false.mpr ⟨_, hmem, by simp [Descriptor.isUnknown, View.describe, Descriptor.make]⟩
    rw [Reading.tokens, Token.mem_ofDescriptors (by simp), descriptors_of_known hknown]
    exact Token.stop_mem_ofCommands (List.mem_map.mpr ⟨_, hmem, rfl⟩)

end Analyze

/-- A word for a stop is always heard: whatever else the utterance says, a stop or an emergency stop is
in the token stream. -/
theorem stop_mem_tokens (i : Interpreter) (utterance : String) (c : Context)
    (h : ∃ w ∈ words (i.lexicon.normalize utterance).toList,
      ∃ cue ∈ Rule.stopWords, View.bareWord w = cue.toList) :
    Token.move .stop ∈ (i.analyze utterance c).1.tokens ∨
      Token.emergencyStop ∈ (i.analyze utterance c).1.tokens := by
  obtain ⟨w, hw, cue, hcue, hbare⟩ := h
  obtain ⟨a, b, hat⟩ := exists_isCueAt hw hcue hbare
  obtain ⟨hsolid, hreach⟩ := cues_solid cue (List.mem_append_right _ hcue)
  rcases exists_clause_or_severed hat.text_eq hsolid hreach hat.leadsIn.isAlphanumeric_getLast? with
    ⟨clause, hclause, a', b', ha, hb, hwords⟩ | ⟨a', b', ha, hb, -, hsevered⟩
  · refine stop_mem_of_clause hclause ?_
    exact has_of_cue hcue (List.mem_append_right _ hcue) (hat.leadsIn.suffix ha)
      (hat.leadsOut.prefixed hb) hwords
  · exact absurd hsevered (not_severed (isPlain_of_isSolid hsolid) (stopWords_unbroken cue hcue)
      (hat.leadsIn.suffix ha).isAlphanumeric_getLast?)

theorem stop_mem_tokens_punctuated :
    (∃ w ∈ words (Lexicon.builtin.normalize "go, (STOP!)").toList,
      ∃ cue ∈ Rule.stopWords, View.bareWord w = cue.toList) ∧
    (Token.move .stop ∈ (default.analyze "go, (STOP!)" .initial).1.tokens ∨
      Token.emergencyStop ∈ (default.analyze "go, (STOP!)" .initial).1.tokens) := by
  have hstop : ∃ w ∈ words (Lexicon.builtin.normalize "go, (STOP!)").toList,
      ∃ cue ∈ Rule.stopWords, View.bareWord w = cue.toList := by
    have hnormal := normalize_spoken ("go, (STOP!)", "go, (stop!)") (by decide)
    rw [hnormal]
    decide
  exact ⟨hstop, stop_mem_tokens default _ .initial hstop⟩

/-- A cut cue is cut before its `stop`. -/
theorem cue_of_severed {text a x b : List Char} (h : IsCueAt safetyCues text a x b)
    (hsevered : IsSevered text a x b) :
    (x = "e-stop".toList ∨ x = "e stop".toList) ∧ ∃ a' b' init rest,
      a' <:+ a ∧ b' <+: b ∧ a' ++ (x ++ b') ∈ stretches (scan recogniseConnector text) ∧
      cutAtVerbs none true (scan recogniseVerb (a' ++ (x ++ b'))) = init ++ rest ∧
      init.flatten = a' ++ x.take 2 := by
  obtain ⟨cue, hcue, rfl⟩ := h.mem
  obtain ⟨a', b', ha, hb, hstretch, P, verb, m, Q, hscan, hbegins, hends, hP⟩ := hsevered
  have hplain := isPlain_of_isSolid (cues_solid cue (List.mem_append_left _ hcue)).1
  obtain ⟨hverb, -, hfits⟩ :=
    fits_of_verb hplain (h.leadsIn.suffix ha).isAlphanumeric_getLast? hscan hbegins hends
  obtain ⟨hbroken, rfl, hplace⟩ := safetyCues_broken cue hcue verb hverb _ (by omega)
    ⟨by omega, hfits⟩
  have hstop : "stop" ≠ "zoom" := by decide
  obtain ⟨part, init, hparts, hflat⟩ := cutAtVerbs_later_verb none true m Q hstop (Or.inr hP)
  refine ⟨by rcases hbroken with rfl | rfl <;> simp, a', b', part :: init, _, ha, hb, hstretch,
    by rw [hscan, hparts], ?_⟩
  have htext := (scanned_scan isBounded_recogniseVerb (a' ++ (cue.toList ++ b'))).textOf_eq
  rw [hscan, textOf_append] at htext
  have hprefix : textOf P = (a' ++ (cue.toList ++ b')).take (a'.length + 2) := by
    rw [← htext, show a'.length + 2 = (textOf P).length from by omega, List.take_left]
  rw [hflat, hprefix, List.take_append, List.take_of_length_le (by omega),
    Nat.add_sub_cancel_left, List.take_append_of_le_length (by omega)]

/-- What becomes of a safety cue: the emergency stop is in the stream if the cue is not severed, and in
any case exactly if some clause asks for it. Only `e-stop` and `e stop` can be severed, before their
`stop`. -/
theorem emergencyStop_of_cue (i : Interpreter) (utterance : String) (c : Context)
    {a x b : List Char} (h : IsCueAt safetyCues (i.lexicon.normalize utterance).toList a x b) :
    (¬ IsSevered (i.lexicon.normalize utterance).toList a x b →
      Token.emergencyStop ∈ (i.analyze utterance c).1.tokens) ∧
    (IsSevered (i.lexicon.normalize utterance).toList a x b →
      (x = "e-stop".toList ∨ x = "e stop".toList) ∧ ∃ a' b' init rest,
        a' <:+ a ∧ b' <+: b ∧
        a' ++ (x ++ b') ∈
          stretches (scan recogniseConnector (i.lexicon.normalize utterance).toList) ∧
        cutAtVerbs none true (scan recogniseVerb (a' ++ (x ++ b'))) = init ++ rest ∧
        init.flatten = a' ++ x.take 2) ∧
    (Token.emergencyStop ∈ (i.analyze utterance c).1.tokens ↔
      ∃ clause ∈ (i.analyze utterance c).1.clauses, (View.ofClause clause).isAlarm = true) := by
  refine ⟨fun hwhole => ?_, cue_of_severed h, emergencyStop_mem_tokens⟩
  obtain ⟨cue, hcue, rfl⟩ := h.mem
  obtain ⟨hsolid, hreach⟩ := cues_solid cue (List.mem_append_left _ hcue)
  rcases exists_clause_or_severed h.text_eq hsolid hreach h.leadsIn.isAlphanumeric_getLast? with
    ⟨clause, hclause, a', b', ha, hb, hwords⟩ | hsevered
  · rw [emergencyStop_mem_tokens, clauses_analyze]
    refine ⟨clause, hclause, ?_⟩
    exact isAlarm_of_cue ⟨cue, hcue, rfl⟩ (h.leadsIn.suffix ha) (h.leadsOut.prefixed hb) hwords
  · exact absurd hsevered hwhole

theorem isCueAt_end (text : List Char) {outer cue : String} (htext : text = (outer ++ cue).toList)
    (hcue : cue ∈ safetyCues) (houter : outer.toList.getLast? = some ' ') :
    IsCueAt safetyCues text outer.toList cue.toList [] where
  text_eq := by rw [htext, String.toList_append, List.append_nil]
  mem := ⟨cue, hcue, rfl⟩
  leadsIn := by
    refine ⟨outer.toList, [], (List.append_nil _).symm, ?_, by simp⟩
    intro c hc
    rw [houter] at hc
    cases hc
    decide
  leadsOut := ⟨[], [], rfl, beginsOpen_nil, by simp⟩

theorem emergencyStop_of_cue_hit :
    IsCueAt safetyCues (Lexicon.builtin.normalize "hit e-stop").toList "hit ".toList
      "e-stop".toList [] ∧
    Token.emergencyStop ∈ (default.analyze "hit e-stop" .initial).1.tokens := by
  have hnormal := normalize_spoken ("hit e-stop", "hit e-stop") (by decide)
  have hcue : IsCueAt safetyCues (Lexicon.builtin.normalize "hit e-stop").toList
      "hit ".toList "e-stop".toList [] :=
    isCueAt_end _ (congrArg String.toList hnormal) (by decide) (by decide)
  refine ⟨hcue, (emergencyStop_of_cue default "hit e-stop" .initial hcue).2.2.mpr ?_⟩
  refine ⟨"hit e-stop", ?_, by decide⟩
  rw [clauses_analyze, clausesOf, default, hnormal]
  decide

/-- Behind the verb `go` the cue `e-stop` is severed, and the emergency stop is lost. -/
theorem emergencyStop_lost_go : ¬ ∀ (i : Interpreter) (utterance : String) (c : Context),
    (∃ a x b, IsCueAt safetyCues (i.lexicon.normalize utterance).toList a x b) →
      Token.emergencyStop ∈ (i.analyze utterance c).1.tokens := by
  intro h
  have hnormal := normalize_spoken ("go e-stop", "go e-stop") (by decide)
  have hcue : IsCueAt safetyCues (Lexicon.builtin.normalize "go e-stop").toList
      "go ".toList "e-stop".toList [] :=
    isCueAt_end _ (congrArg String.toList hnormal) (by decide) (by decide)
  have hlost : Token.emergencyStop ∉ (default.analyze "go e-stop" .initial).1.tokens := by
    rw [emergencyStop_mem_tokens, clauses_analyze, clausesOf, default, hnormal]
    decide
  exact hlost (h default "go e-stop" .initial ⟨_, _, _, hcue⟩)

end Teleop.Interpreter
