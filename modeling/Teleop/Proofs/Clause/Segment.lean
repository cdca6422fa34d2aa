import Teleop.Proofs.Clause.Connector
import Teleop.Proofs.Text.Words

/-!
# Blocks of characters that reach a clause whole

A solid block is cut only by the second pass, which opens a clause at an action verb if another verb
stands before it in the same stretch. `exists_clause_or_severed` says that a block either stands in
one of the clauses or is severed in exactly this way. It says nothing about which clause that is.
-/

namespace Teleop.Clause

open Text

/-! ## Verbs -/

theorem actionVerbs_ne_nil : ∀ w ∈ actionVerbs, w.toList ≠ [] := by decide

theorem actionVerbs_plain : ∀ w ∈ actionVerbs, isPlain w.toList = true := by decide

theorem recogniseVerb_eq_some {before : Option Char} {text : List Char} {verb : String} {n : Nat}
    (h : recogniseVerb before text = some (verb, n)) :
    verb ∈ actionVerbs ∧ ∃ m q, text = m ++ q ∧ m.length = n ∧ Stands verb.toList before m q := by
  simp only [recogniseVerb, Option.map_eq_some_iff, Prod.mk.injEq] at h
  obtain ⟨w, hw, rfl, rfl⟩ := h
  have hmem := List.mem_of_find?_eq_some hw
  have hat : isWordAt before text w.toList = true := by simpa using List.find?_some hw
  obtain ⟨m, q, htext, hstands⟩ := (isWordAt_iff (actionVerbs_ne_nil w hmem)).mp hat
  exact ⟨hmem, m, q, htext, by rw [hstands.length_eq, String.length_toList], hstands⟩

theorem isBounded_recogniseVerb : Recogniser.IsBounded recogniseVerb := by
  intro before text verb n h
  obtain ⟨hverb, m, q, rfl, rfl, hstands⟩ := recogniseVerb_eq_some h
  have hpos := List.length_pos_iff.mpr (actionVerbs_ne_nil verb hverb)
  rw [List.length_append, hstands.length_eq]
  omega

/-- A verb among the pieces of a stretch stands at its place. -/
theorem stands_of_verb {text : List Char} {P Q : List (Piece String)} {verb : String}
    {m : List Char} (h : Scanned recogniseVerb none text (P ++ .found verb m :: Q)) :
    verb ∈ actionVerbs ∧ Stands verb.toList (textOf P).getLast? m (textOf Q) := by
  have htaken := h.taken_of_split.2
  rw [Option.or_none] at htaken
  obtain ⟨hverb, m', q, htext, hlength, hstands⟩ := recogniseVerb_eq_some htaken
  obtain ⟨rfl, rfl⟩ := List.append_inj htext hlength.symm
  exact ⟨hverb, hstands⟩

/-! ## Parts of a stretch -/

/-- All verbs among the pieces begin at `n` or behind it. -/
def VerbsBehind (ps : List (Piece String)) (n : Nat) : Prop :=
  ∀ P verb m Q, ps = P ++ .found verb m :: Q → n ≤ (textOf P).length

/-- No verb among the pieces begins between `start` and `stop`. -/
def VerbsOutside (ps : List (Piece String)) (start stop : Nat) : Prop :=
  ∀ P verb m Q, ps = P ++ .found verb m :: Q → (textOf P).length ≤ start ∨ stop ≤ (textOf P).length

section Ahead

variable {p : Piece String} {ps : List (Piece String)} {n start stop : Nat}

theorem verbsBehind_zero (ps : List (Piece String)) : VerbsBehind ps 0 :=
  fun _ _ _ _ _ => Nat.zero_le _

theorem VerbsBehind.tail (h : VerbsBehind (p :: ps) n) : VerbsBehind ps (n - p.chars.length) := by
  intro P verb m Q he
  have := h (p :: P) verb m Q (by rw [he]; rfl)
  rw [textOf_cons, List.length_append] at this
  omega

theorem VerbsOutside.tail (h : VerbsOutside (p :: ps) start stop) :
    VerbsOutside ps (start - p.chars.length) (stop - p.chars.length) := by
  intro P verb m Q he
  have := h (p :: P) verb m Q (by rw [he]; rfl)
  rw [textOf_cons, List.length_append] at this
  omega

/-- Behind a piece that goes past `start`, the verbs begin at `stop` or behind it. -/
theorem VerbsOutside.behind (h : VerbsOutside (p :: ps) start stop)
    (hpast : start < p.chars.length) : VerbsBehind ps (stop - p.chars.length) := by
  intro P verb m Q he
  have := h (p :: P) verb m Q (by rw [he]; rfl)
  rw [textOf_cons, List.length_append] at this
  omega

end Ahead

/-- Cutting at verbs loses nothing: the first part begins the text, and it goes at least up to the
first verb. -/
theorem exists_first_part {ps : List (Piece String)} {n : Nat} (hn : n ≤ (textOf ps).length)
    (hverbs : VerbsBehind ps n) (last : Option String) (adjacent : Bool) :
    ∃ s tail, cutAtVerbs last adjacent ps = s :: tail ∧ s <+: textOf ps ∧ n ≤ s.length := by
  induction ps generalizing n last adjacent with
  | nil => exact ⟨[], [], rfl, List.prefix_rfl, hn⟩
  | cons p ps ih =>
    cases p with
    | plain c =>
      rw [textOf_cons, List.length_append] at hn
      obtain ⟨s, tail, hs, hpre, hlength⟩ :=
        ih (by omega) hverbs.tail last (adjacent && isBlank c)
      refine ⟨c :: s, tail, by rw [cutAtVerbs, hs]; rfl, ?_, ?_⟩
      · exact (List.prefix_append_right_inj [c]).mpr hpre
      · rw [List.length_cons]
        simp only [Piece.chars, List.length_singleton] at hlength
        omega
    | found verb m =>
      have hzero : n = 0 := Nat.le_zero.mp (hverbs [] verb m ps rfl)
      subst hzero
      obtain ⟨s, tail, hs, hpre, -⟩ := ih (Nat.zero_le _) (verbsBehind_zero ps) (some verb) true
      rw [cutAtVerbs, hs]
      simp only [List.modifyHead_cons]
      split
      · exact ⟨[], (m ++ s) :: tail, rfl, List.nil_prefix, Nat.zero_le _⟩
      · exact ⟨m ++ s, tail, rfl, (List.prefix_append_right_inj m).mpr hpre, Nat.zero_le _⟩

/-- A block in which no verb begins, unless at its first character, stands in one of the parts. -/
theorem keeps_cutAtVerbs {ps : List (Piece String)} {a x b : List Char}
    (htext : textOf ps = a ++ (x ++ b)) (hverbs : VerbsOutside ps a.length (a.length + x.length))
    (last : Option String) (adjacent : Bool) : Keeps (cutAtVerbs last adjacent ps) a x b := by
  induction ps generalizing a last adjacent with
  | nil =>
    simp only [textOf_nil, List.nil_eq, List.append_eq_nil_iff] at htext
    obtain ⟨rfl, rfl, rfl⟩ := htext
    exact Keeps.of_head List.prefix_rfl (Nat.le_refl _)
  | cons p ps ih =>
    rw [textOf_cons] at htext
    -- whatever is opened at `p`, its characters go in front of the first part of the rest
    have hrest : ∀ last adjacent,
        Keeps ((cutAtVerbs last adjacent ps).modifyHead (p.chars ++ ·)) a x b := by
      intro last adjacent
      rcases Nat.lt_or_ge a.length p.chars.length with hpast | hwithin
      · have htotal := congrArg List.length htext
        simp only [List.length_append] at htotal
        obtain ⟨s, tail, hs, hpre, hlength⟩ :=
          exists_first_part (by omega) (hverbs.behind hpast) last adjacent
        rw [hs, List.modifyHead_cons]
        refine Keeps.of_head ?_ (by rw [List.length_append]; omega)
        rw [← htext]
        exact (List.prefix_append_right_inj _).mpr hpre
      · obtain ⟨a', rfl, hbehind⟩ := exists_append_of_length_le htext hwithin
        have hoff : VerbsOutside ps a'.length (a'.length + x.length) := by
          simpa [Nat.add_assoc] using hverbs.tail
        exact (ih hbehind hoff last adjacent).modifyHead p.chars
    cases p with
    | plain c => exact hrest last (adjacent && isBlank c)
    | found verb m =>
      rw [cutAtVerbs]
      split
      · exact (hrest (some verb) true).cons [] []
      · exact hrest (some verb) true

/-- The first verb of a stretch opens no clause. -/
theorem cutAtVerbs_first_verb {P : List (Piece String)} (hP : ∀ p ∈ P, p.value? = none)
    (adjacent : Bool) (verb : String) (m : List Char) (Q : List (Piece String)) :
    cutAtVerbs none adjacent (P ++ .found verb m :: Q) =
      (cutAtVerbs (some verb) true Q).modifyHead (textOf P ++ m ++ ·) := by
  induction P generalizing adjacent with
  | nil => simp [cutAtVerbs]
  | cons p P ih =>
    cases p with
    | plain c =>
      rw [List.cons_append, cutAtVerbs, ih fun p hp => hP p (List.mem_cons_of_mem _ hp),
        List.modifyHead_modifyHead]
      rfl
    | found verb' m' => simp [Piece.value?] at hP

/-- In a stretch, a verb begins between `start` and `stop`, and another stands before it. -/
def Severed (stretch : List Char) (start stop : Nat) : Prop :=
  ∃ P verb m Q, scan recogniseVerb stretch = P ++ .found verb m :: Q ∧
    start < (textOf P).length ∧ (textOf P).length < stop ∧ ∃ p ∈ P, p.value? ≠ none

/-- A verb that has another before it opens a part of its own, unless the two name one action. -/
theorem cutAtVerbs_later_verb {P : List (Piece String)} (last : Option String) (adjacent : Bool)
    {verb : String} (m : List Char) (Q : List (Piece String)) (hverb : verb ≠ "zoom")
    (hP : last ≠ none ∨ ∃ p ∈ P, p.value? ≠ none) :
    ∃ part init, cutAtVerbs last adjacent (P ++ .found verb m :: Q) =
        (part :: init) ++ (cutAtVerbs (some verb) true Q).modifyHead (m ++ ·) ∧
      (part :: init).flatten = textOf P := by
  induction P generalizing last adjacent with
  | nil =>
    obtain ⟨v, rfl⟩ : ∃ v, last = some v := by
      simpa [Option.ne_none_iff_exists'] using hP
    refine ⟨[], [], ?_, rfl⟩
    simp [cutAtVerbs, isOneAction, hverb]
  | cons p P ih =>
    cases p with
    | plain c =>
      have hP' : last ≠ none ∨ ∃ p ∈ P, p.value? ≠ none := by simpa [Piece.value?] using hP
      obtain ⟨part, init, hparts, hflat⟩ := ih last (adjacent && isBlank c) hP'
      refine ⟨c :: part, init, ?_, ?_⟩
      · rw [List.cons_append, cutAtVerbs, hparts]
        rfl
      · rw [textOf_cons, ← hflat]
        rfl
    | found v m' =>
      obtain ⟨part, init, hparts, hflat⟩ := ih (some v) true (Or.inl (by simp))
      have hflat' : ((m' ++ part) :: init).flatten = textOf (.found v m' :: P) := by
        rw [textOf_cons, ← hflat]
        simp [Piece.chars]
      rw [List.cons_append, cutAtVerbs, hparts]
      simp only [List.cons_append, List.modifyHead_cons]
      split
      · exact ⟨[], (m' ++ part) :: init, rfl, hflat'⟩
      · exact ⟨m' ++ part, init, rfl, hflat'⟩

/-- Whether each verb that may begin inside a block reaches its end. -/
def verbsReachEnd (x : List Char) : Bool :=
  actionVerbs.all fun w =>
    (List.range x.length).all fun i => i = 0 || !fits x w.toList i 0 || x.length ≤ i + w.length

section Block

variable {a x b : List Char}

/-- A verb that begins inside a block fits it there. -/
theorem fits_of_verb {P Q : List (Piece String)} {verb : String} {m : List Char}
    (hx : isPlain x = true) (ha : ∀ c ∈ a.getLast?, isAlphanumeric c = false)
    (hscan : scan recogniseVerb (a ++ (x ++ b)) = P ++ .found verb m :: Q)
    (hbegins : a.length < (textOf P).length) (hends : (textOf P).length < a.length + x.length) :
    verb ∈ actionVerbs ∧ m.length = verb.length ∧
      fits x verb.toList ((textOf P).length - a.length) 0 = true := by
  have hscanned := scanned_scan isBounded_recogniseVerb (a ++ (x ++ b))
  rw [hscan] at hscanned
  obtain ⟨hverb, hstands⟩ := stands_of_verb hscanned
  have htext : textOf P ++ (m ++ textOf Q) = a ++ (x ++ b) := by
    rw [← hscanned.textOf_eq, textOf_append, textOf_cons, Piece.chars]
  have hfits := hstands.fits (actionVerbs_plain verb hverb) hx htext ha hends (by omega)
  rw [show a.length - (textOf P).length = 0 from by omega] at hfits
  exact ⟨hverb, by rw [hstands.length_eq, String.length_toList], hfits⟩

/-- A block is kept by the parts of its stretch or severed. -/
theorem keeps_or_severed (hplain : isPlain x = true) (hreach : verbsReachEnd x = true)
    (ha : ∀ c ∈ a.getLast?, isAlphanumeric c = false) :
    Keeps (cutAtVerbs none true (scan recogniseVerb (a ++ (x ++ b)))) a x b ∨
      Severed (a ++ (x ++ b)) a.length (a.length + x.length) := by
  have hscanned := scanned_scan isBounded_recogniseVerb (a ++ (x ++ b))
  have htext := hscanned.textOf_eq
  by_cases hinside : ∃ P verb m Q, scan recogniseVerb (a ++ (x ++ b)) = P ++ .found verb m :: Q ∧
      a.length < (textOf P).length ∧ (textOf P).length < a.length + x.length
  · obtain ⟨P, verb, m, Q, hscan, hbegins, hends⟩ := hinside
    by_cases hP : ∃ p ∈ P, p.value? ≠ none
    · exact Or.inr ⟨P, verb, m, Q, hscan, hbegins, hends, hP⟩
    · left
      have hfirst : ∀ p ∈ P, p.value? = none := by simpa using hP
      obtain ⟨hverb, hlength, hfits⟩ := fits_of_verb hplain ha hscan hbegins hends
      have hreach : a.length + x.length ≤ (textOf P).length + m.length := by
        simp only [verbsReachEnd, List.all_eq_true, List.mem_range, Bool.or_eq_true,
          decide_eq_true_eq] at hreach
        have := hreach verb hverb ((textOf P).length - a.length) (by omega)
        simp only [hfits, Bool.not_true, Bool.false_eq_true, or_false] at this
        omega
      obtain ⟨s, tail, hs, hpre, -⟩ :=
        exists_first_part (Nat.zero_le _) (verbsBehind_zero Q) (some verb) true
      rw [hscan, textOf_append, textOf_cons, Piece.chars] at htext
      rw [hscan, cutAtVerbs_first_verb hfirst, hs, List.modifyHead_cons]
      refine Keeps.of_head ?_ (by simp only [List.length_append]; omega)
      rw [← htext, ← List.append_assoc]
      exact (List.prefix_append_right_inj _).mpr hpre
  · left
    refine keeps_cutAtVerbs htext (fun P verb m Q hscan => ?_) none true
    apply Decidable.byContradiction
    intro hover
    exact hinside ⟨P, verb, m, Q, hscan, by omega, by omega⟩

theorem not_severed (hplain : isPlain x = true)
    (hx : ∀ w ∈ actionVerbs, ∀ i < x.length, 0 < i → fits x w.toList i 0 = false)
    (ha : ∀ c ∈ a.getLast?, isAlphanumeric c = false) :
    ¬ Severed (a ++ (x ++ b)) a.length (a.length + x.length) := by
  rintro ⟨P, verb, m, Q, hscan, hbegins, hends, -⟩
  obtain ⟨hverb, -, hfits⟩ := fits_of_verb hplain ha hscan hbegins hends
  rw [hx verb hverb _ (by omega) (by omega)] at hfits
  exact Bool.noConfusion hfits

end Block

/-! ## Clauses -/

theorem mem_segment {text : String} {stretch part : List Char}
    (hstretch : stretch ∈ stretches (scan recogniseConnector text.toList))
    (hpart : part ∈ cutAtVerbs none true (scan recogniseVerb stretch)) (hne : trim part ≠ []) :
    String.ofList (trim part) ∈ segment text := by
  refine List.mem_map.mpr ⟨trim part, List.mem_flatMap.mpr ⟨stretch, hstretch, ?_⟩, rfl⟩
  refine List.mem_filter.mpr ⟨List.mem_map.mpr ⟨part, hpart, rfl⟩, ?_⟩
  simpa using hne

/-- What follows a suffix of a text follows the text. -/
theorem getLast?_of_suffix {a a' : List Char} (h : a' <:+ a) : ∀ c ∈ a'.getLast?, c ∈ a.getLast? := by
  obtain ⟨s, rfl⟩ := h
  intro c hc
  rw [List.getLast?_append, hc, Option.some_or]
  rfl

/-- A block is cut in two within its stretch: a verb begins inside it, behind another verb. -/
def IsSevered (text a x b : List Char) : Prop :=
  ∃ a' b', a' <:+ a ∧ b' <+: b ∧ a' ++ (x ++ b') ∈ stretches (scan recogniseConnector text) ∧
    Severed (a' ++ (x ++ b')) a'.length (a'.length + x.length)

/-- A solid block stands whole in a clause or is severed. -/
theorem exists_clause_or_severed {text : String} {a x b : List Char}
    (htext : text.toList = a ++ (x ++ b)) (hsolid : isSolid x = true)
    (hreach : verbsReachEnd x = true) (ha : ∀ c ∈ a.getLast?, isAlphanumeric c = false) :
    (∃ clause ∈ segment text, ∃ a' b', a' <:+ a ∧ b' <+: b ∧
      words clause.toList = words (a' ++ (x ++ b'))) ∨ IsSevered text.toList a x b := by
  have hscanned := scanned_scan isBounded_recogniseConnector text.toList
  rw [htext] at hscanned
  obtain ⟨init, a₁, b₁, tail, hstretches, ha₁, hb₁, -⟩ := keeps_stretches
    (fun _ _ => hscanned.ne_nil_of_found) hscanned.textOf_eq (clear_of_isSolid hsolid ha hscanned)
  have hstretch : a₁ ++ (x ++ b₁) ∈ stretches (scan recogniseConnector text.toList) := by
    rw [htext, hstretches]
    exact List.mem_append_right _ List.mem_cons_self
  have hout : ∀ c ∈ a₁.getLast?, isAlphanumeric c = false :=
    fun c hc => ha c (getLast?_of_suffix ha₁ c hc)
  rcases keeps_or_severed (b := b₁) (isPlain_of_isSolid hsolid) hreach hout with hkeeps | hsevered
  · obtain ⟨init', a₂, b₂, tail', hparts, ha₂, hb₂, -⟩ := hkeeps
    have hpart : a₂ ++ (x ++ b₂) ∈ cutAtVerbs none true (scan recogniseVerb (a₁ ++ (x ++ b₁))) := by
      rw [hparts]
      exact List.mem_append_right _ List.mem_cons_self
    have hne : trim (a₂ ++ (x ++ b₂)) ≠ [] := by
      simp only [isSolid, Bool.and_eq_true] at hsolid
      obtain ⟨c, hc, hblank⟩ := (Option.any_eq_true ..).mp hsolid.1.1.1.1
      refine trim_ne_nil (c := c) ?_ (by simpa using hblank)
      exact List.mem_append_right _ (List.mem_append_left _ (List.mem_of_head? hc))
    refine Or.inl ⟨_, mem_segment hstretch hpart hne, a₂, b₂, ha₂.trans ha₁, hb₂.trans hb₁, ?_⟩
    rw [String.toList_ofList, words_trim]
  · exact Or.inr ⟨a₁, b₁, ha₁, hb₁, hstretch, hsevered⟩

end Teleop.Clause
