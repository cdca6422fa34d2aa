import Teleop.Proofs.Classification.TimeBound
import Teleop.Proofs.Classification.View
import Teleop.Proofs.Clause.Numbered
import Teleop.Proofs.Interpreter.Reading
import Teleop.Proofs.Lexicon.Numbered
import Teleop.Proofs.Quantity.Numbered

/-!
# Requests with one number

A request is made of known words and one number, which may have a percent sign behind it. No pattern of
any table begins with one of the words, and none has a digit in it, so whatever the number is: nothing in
the request is replaced, it is one clause (`clausesOf_text`), the rules see its words and the number
(`words_text`), and the number is its only numeral (`isNumberIn`).
-/

namespace Teleop

open Numeric Text

/-! ## The words of requests -/

def spokenWords : List String :=
  ["move", "forward", "backward", "left", "right", "for", "seconds", "minutes", "meters", "rotate",
   "degrees", "set", "speed"]

/-- Whether each of some patterns differs from all words that requests are made of, as far as both reach. -/
def isApartFromSpoken (patterns : List (List Char)) : Bool :=
  patterns.all fun w => spokenWords.all fun u => !agree w (u.toList ++ [' '])

set_option maxRecDepth 20000 in
theorem isApartFromSpoken_sources :
    isApartFromSpoken (Lexicon.builtinEntries.map (·.source.toList)) = true := by
  rfl

set_option maxRecDepth 20000 in
theorem isApartFromSpoken_spellings :
    isApartFromSpoken (NumberWord.spellings.map String.toList) = true := by
  rfl

theorem isApartFromSpoken_joiningWords :
    isApartFromSpoken (Clause.joiningWords.map String.toList) = true := by
  decide

section SpokenWords

variable {w : String} {patterns : List (List Char)}

theorem spoken_isLower (hw : w ∈ spokenWords) :
    w.toList ≠ [] ∧ ∀ c ∈ w.toList, c.isLower = true := by
  have hall : (spokenWords.all fun w => !w.toList.isEmpty && w.toList.all Char.isLower) = true := by decide
  have hword := List.all_eq_true.mp hall w hw
  rw [Bool.and_eq_true, List.all_eq_true] at hword
  exact ⟨by simpa using hword.1, hword.2⟩

theorem isTableLetter_of_isLower {c : Char} (h : c.isLower = true) : Lexicon.isTableLetter c = true :=
  isTableLetter_iff.mpr (Or.inl h)

theorem isPlain_spoken (hw : w ∈ spokenWords) : isPlain w.toList = true :=
  isPlain_of_isTableLetter fun c hc => isTableLetter_of_isLower ((spoken_isLower hw).2 c hc)

/-- A letter of the tables is one of its own forms. -/
theorem isLetterForm_of_isTableLetter {c : Char} (h : Lexicon.isTableLetter c = true) :
    isLetterForm c = true :=
  (isLetterForm_of_sameLetter h (sameLetter_iff.mpr (Or.inl rfl))).1

theorem isLetterForm_of_isLower {c : Char} (h : c.isLower = true) : isLetterForm c = true :=
  isLetterForm_of_isTableLetter (isTableLetter_of_isLower h)

theorem misses_spoken (hapart : isApartFromSpoken patterns = true) {p : List Char} (hp : p ∈ patterns)
    (hplain : isPlain p = true) (hw : w ∈ spokenWords) : Misses p w.toList := by
  have hdiffer := List.all_eq_true.mp (List.all_eq_true.mp hapart p hp) w hw
  exact misses_of_agree hplain (isPlain_spoken hw) (by simpa using hdiffer)

/-- Among the words only the verbs have a verb in them, which is the whole word. -/
theorem length_verbs_le (hw : w ∈ spokenWords) :
    ((scan Clause.recogniseVerb w.toList).filterMap Piece.value?).length ≤
      if Clause.actionVerbs.contains w then 1 else 0 := by
  cases hverb : Clause.actionVerbs.contains w with
  | true =>
    have hall : ((spokenWords.filter Clause.actionVerbs.contains).all fun w =>
        ((scan Clause.recogniseVerb w.toList).filterMap Piece.value?).length ≤ 1) = true := by rfl
    rw [if_pos rfl]
    simpa using List.all_eq_true.mp hall w (List.mem_filter.mpr ⟨hw, hverb⟩)
  | false =>
    have hall : ((spokenWords.filter (!Clause.actionVerbs.contains ·)).all fun u =>
        Clause.actionVerbs.all fun v => !agree v.toList (u.toList ++ [' '])) = true := by decide
    have hdiffer := List.all_eq_true.mp hall w (List.mem_filter.mpr ⟨hw, by simpa using hverb⟩)
    have hletters := (spoken_isLower hw).2
    have hopening : goesOn (w.toList ++ []) = true :=
      goesOn_append (fun c hc => Clause.isWordChar_of_isLower (hletters c hc)) nofun
    rw [List.append_nil] at hopening
    rw [Clause.verbs_of_misses hopening fun v hv => ?_]
    · exact Nat.zero_le _
    · have hplain : isPlain v.toList = true := isPlain_of_isTableLetter fun c hc =>
        isTableLetter_of_isLower (List.all_eq_true.mp (Clause.actionVerbs_lower v hv) c hc)
      exact misses_of_agree hplain (isPlain_spoken hw)
        (by simpa using List.all_eq_true.mp hdiffer v hv)

end SpokenWords

/-! ## Bare words -/

section BareWords

variable {w mark : List Char}

theorem isBare_of_isAlphanumeric (hne : w ≠ []) (hw : ∀ c ∈ w, isAlphanumeric c = true) :
    View.isBare w = true := by
  rw [View.isBare, List.head?_eq_some_head hne, List.getLast?_eq_some_getLast hne, Option.any_some,
    Option.any_some, hw _ (List.head_mem hne), hw _ (List.getLast_mem hne), Bool.and_self]

/-- The rules see a bare word in small letters without the signs behind it. -/
theorem lower_bareWord (hbare : View.isBare w = true) (hsettled : ∀ c ∈ w, IsSettled c)
    (hmark : ∀ c ∈ mark, isAlphanumeric c = false) : lower (View.bareWord (w ++ mark)) = w := by
  have hself : View.bareWord ([] ++ (w ++ mark)) = w := View.bareWord_append hbare (by simp) hmark
  rw [List.nil_append] at hself
  rw [hself, lower_of_settled hsettled]

theorem lower_bareWord_spoken {w : String} (hw : w ∈ spokenWords) :
    lower (View.bareWord w.toList) = w.toList := by
  obtain ⟨hne, hletters⟩ := spoken_isLower hw
  have hbare : View.isBare w.toList = true := isBare_of_isAlphanumeric hne fun c hc =>
    isAlphanumeric_of_sameLetter (hletters c hc) (sameLetter_iff.mpr (Or.inl rfl))
  have hsettled : ∀ c ∈ w.toList, IsSettled c := fun c hc =>
    Lexicon.isSettled_of_isTableLetter (isTableLetter_of_isLower (hletters c hc))
  have hself : lower (View.bareWord (w.toList ++ [])) = w.toList := lower_bareWord hbare hsettled (by simp)
  rwa [List.append_nil] at hself

end BareWords

/-! ## Numbers among words -/

section Digits

variable {digits : List Char}

theorem isBare_digits (hdigits : IsDigits digits) : View.isBare digits = true :=
  isBare_of_isAlphanumeric hdigits.ne_nil fun c hc =>
    isAlphanumeric_of_isAsciiDigit (hdigits.digits c hc)

/-- The words of a table are not numbers. -/
theorem contains_digits (table : List String) (htable : ∀ w ∈ table, IsDigitless w.toList)
    (hdigits : IsDigits digits) : table.contains (String.ofList digits) = false := by
  cases hcontains : table.contains (String.ofList digits) with
  | false => rfl
  | true =>
    obtain ⟨c, rest, rfl, hc⟩ := hdigits.exists_head
    have hnot := htable _ (List.contains_iff_mem.mp hcontains) c (by simp)
    rw [hc] at hnot
    exact Bool.noConfusion hnot

/-- No direction is a number. -/
theorem directionOf?_digits (hdigits : IsDigits digits) :
    View.directionOf? (String.ofList digits) = none := by
  have hforward := contains_digits ["forward", "forwards", "ahead", "straight"]
    (isDigitless_of_all (by decide)) hdigits
  have hback := contains_digits ["back", "backward", "backwards", "reverse"]
    (isDigitless_of_all (by decide)) hdigits
  have hsides := contains_digits ["left", "right"] (isDigitless_of_all (by decide)) hdigits
  have hleft : ¬ String.ofList digits = "left" := by
    intro heq
    simp [heq] at hsides
  have hright : ¬ String.ofList digits = "right" := by
    intro heq
    simp [heq] at hsides
  rw [View.directionOf?, hforward, hback, if_neg hleft, if_neg hright]
  rfl

end Digits

/-! ## Requests -/

/-- A request with one number: the words in front of it, the sign directly behind it, and the words behind
that. One word at most is a verb. -/
structure SpokenRequest where
  front : List String
  mark : List Char
  behind : List String
  spoken : ∀ w ∈ front ++ behind, w ∈ spokenWords
  sign : mark = [] ∨ mark = ['%']
  oneVerb : (front ++ behind).countP Clause.actionVerbs.contains ≤ 1

namespace SpokenRequest

theorem sign_nil : ([] : List Char) = [] ∨ ([] : List Char) = ['%'] :=
  Or.inl rfl

def words (r : SpokenRequest) (digits : List Char) : List (List Char) :=
  r.front.map String.toList ++ (digits ++ r.mark) :: r.behind.map String.toList

def text (r : SpokenRequest) (digits : List Char) : String :=
  String.ofList (unwords (r.words digits))

section Text

variable {r : SpokenRequest} {u digits : List Char}

theorem of_mem_words (hu : u ∈ r.words digits) :
    (∃ w ∈ spokenWords, u = w.toList) ∨ u = digits ++ r.mark := by
  have hspoken := r.spoken
  rw [words, List.mem_append, List.mem_cons, List.mem_map, List.mem_map] at hu
  rcases hu with ⟨w, hw, rfl⟩ | rfl | ⟨w, hw, rfl⟩
  · exact Or.inl ⟨w, hspoken w (List.mem_append_left _ hw), rfl⟩
  · exact Or.inr rfl
  · exact Or.inl ⟨w, hspoken w (List.mem_append_right _ hw), rfl⟩

theorem eq_of_mem_mark {c : Char} (hc : c ∈ r.mark) : c = '%' := by
  rcases r.sign with hsign | hsign
  · simp [hsign] at hc
  · simpa [hsign] using hc

/-- A character of a request is a small letter, a digit of the number, or a percent sign. -/
theorem of_mem_word (hu : u ∈ r.words digits) {c : Char} (hc : c ∈ u) :
    c.isLower = true ∨ c ∈ digits ∨ c = '%' := by
  rcases of_mem_words hu with ⟨w, hw, rfl⟩ | rfl
  · exact Or.inl ((spoken_isLower hw).2 c hc)
  · rcases List.mem_append.mp hc with hdigit | hmark
    · exact Or.inr (Or.inl hdigit)
    · exact Or.inr (Or.inr (eq_of_mem_mark hmark))

theorem isSpoken (hdigits : IsDigits digits) : IsSpoken (r.words digits) where
  ne_nil := by simp [words]
  words := by
    intro u hu
    refine ⟨?_, fun c hc => ?_⟩
    · rcases of_mem_words hu with ⟨w, hw, rfl⟩ | rfl
      · exact (spoken_isLower hw).1
      · simp [hdigits.ne_nil]
    · rcases of_mem_word hu hc with hlower | hdigit | rfl
      · exact isBlank_of_isLetterForm (isLetterForm_of_isLower hlower)
      · exact isBlank_of_isAsciiDigit (hdigits.digits c hdigit)
      · decide
  opening := by
    intro u hu
    rcases of_mem_words hu with ⟨w, hw, rfl⟩ | rfl
    · have hopening : goesOn (w.toList ++ []) = true := goesOn_append
        (fun c hc => Clause.isWordChar_of_isLower ((spoken_isLower hw).2 c hc)) nofun
      rwa [List.append_nil] at hopening
    · refine goesOn_append (fun c hc => isWordChar_of_isAsciiDigit (hdigits.digits c hc)) fun c hc => ?_
      rw [eq_of_mem_mark hc]
      decide
  settled := by
    intro u hu c hc
    rcases of_mem_word hu hc with hlower | hdigit | rfl
    · exact Lexicon.isSettled_of_isTableLetter (isTableLetter_of_isLower hlower)
    · exact isSettled_of_isAsciiDigit (hdigits.digits c hdigit)
    · exact ⟨by decide, by decide, by decide⟩

theorem misses (hdigits : IsDigits digits) {patterns : List (List Char)}
    (hapart : isApartFromSpoken patterns = true) {p : List Char} (hp : p ∈ patterns)
    (hplain : isPlain p = true) (hdigitless : IsDigitless p) (hne : p ≠ []) :
    ∀ u ∈ r.words digits, Misses p u := by
  intro u hu
  rcases of_mem_words hu with ⟨w, hw, rfl⟩ | rfl
  · exact misses_spoken hapart hp hplain hw
  · exact misses_digits hdigitless hne hdigits r.mark

/-- Nothing in a request is replaced. -/
theorem normalize_text (hdigits : IsDigits digits) :
    Lexicon.builtin.normalize (r.text digits) = r.text digits := by
  refine Lexicon.normalize_unwords (isSpoken hdigits) (fun u hu c hc => ?_)
    Lexicon.head?_source_builtin fun e he => ?_
  · refine asciiForm_of_not_arabic (Or.inl ?_)
    rcases of_mem_word hu hc with hlower | hdigit | rfl
    · have := (bounds_of_isLower hlower).2
      omega
    · have := (isAsciiDigit_iff.mp (hdigits.digits c hdigit)).2
      omega
    · decide
  · exact misses hdigits isApartFromSpoken_sources (List.mem_map_of_mem he)
      (Lexicon.isApart_builtin.sources e he).plain (Lexicon.hasNoDigits_builtin e he)
      (Lexicon.builtin.source_ne_nil he)

theorem length_verbs_words_le (hdigits : IsDigits digits) :
    ((r.words digits).flatMap fun u =>
      (scan Clause.recogniseVerb u).filterMap Piece.value?).length ≤ 1 := by
  have hcount (ws : List String) (hws : ∀ w ∈ ws, w ∈ spokenWords) : ((ws.map String.toList).flatMap
      fun u => (scan Clause.recogniseVerb u).filterMap Piece.value?).length ≤
        ws.countP Clause.actionVerbs.contains := by
    induction ws with
    | nil => exact Nat.le_refl 0
    | cons w ws ih =>
      have hrest := ih fun v hv => hws v (List.mem_cons_of_mem _ hv)
      have hhere := length_verbs_le (hws w List.mem_cons_self)
      rw [List.map_cons, List.flatMap_cons, List.length_append, List.countP_cons]
      omega
  have hnumber : (scan Clause.recogniseVerb (digits ++ r.mark)).filterMap Piece.value? = [] := by
    refine Clause.verbs_of_misses ((isSpoken (r := r) hdigits).opening _ (by simp [words])) fun v hv => ?_
    exact misses_digits (Clause.isDigitless_actionVerbs v hv) (Clause.actionVerbs_ne_nil v hv) hdigits r.mark
  have hfront := hcount r.front fun w hw => r.spoken w (List.mem_append_left _ hw)
  have hbehind := hcount r.behind fun w hw => r.spoken w (List.mem_append_right _ hw)
  have hone := r.oneVerb
  rw [List.countP_append] at hone
  rw [words, List.flatMap_append, List.flatMap_cons, hnumber, List.nil_append, List.length_append]
  omega

/-- A request is one clause. -/
theorem segment_text (hdigits : IsDigits digits) : Clause.segment (r.text digits) = [r.text digits] := by
  refine Clause.segment_unwords (isSpoken hdigits) (fun u hu c hc => ?_) (fun w hw => ?_)
    (length_verbs_words_le hdigits)
  · rcases of_mem_word hu hc with hlower | hdigit | rfl
    · have hform := isLetterForm_of_isLower hlower
      rintro (rfl | rfl | rfl) <;> exact absurd hform (by decide)
    · have hascii := hdigits.digits c hdigit
      rintro (rfl | rfl | rfl) <;> exact absurd hascii (by decide)
    · decide
  · exact misses hdigits isApartFromSpoken_joiningWords (List.mem_map_of_mem hw)
      (Clause.joiningWords_plain w hw) (Clause.isDigitless_joiningWords w hw)
      (Clause.joiningWords_ne_nil w hw)

theorem clausesOf_text (hdigits : IsDigits digits) :
    Interpreter.default.clausesOf (r.text digits) = [r.text digits] := by
  rw [Interpreter.clausesOf, Interpreter.default, normalize_text hdigits]
  exact segment_text hdigits

end Text

/-! ## What the rules see of a request -/

section View

variable {r : SpokenRequest} {digits : List Char}

/-- The rules see the words of a request and its number. -/
theorem words_text (hdigits : IsDigits digits) :
    (View.ofClause (r.text digits)).words = r.front ++ String.ofList digits :: r.behind := by
  have hnumber : lower (View.bareWord (digits ++ r.mark)) = digits := by
    refine lower_bareWord (isBare_digits hdigits)
      (fun c hc => isSettled_of_isAsciiDigit (hdigits.digits c hc)) fun c hc => ?_
    rw [eq_of_mem_mark hc]
    decide
  have hwords (ws : List String) (hws : ∀ w ∈ ws, w ∈ spokenWords) :
      ((ws.map String.toList).map (lower ∘ View.bareWord)).filter (!·.isEmpty) =
        ws.map String.toList := by
    have hkept : (ws.map String.toList).map (lower ∘ View.bareWord) = ws.map String.toList := by
      rw [List.map_map]
      exact List.map_congr_left fun w hw => lower_bareWord_spoken (hws w hw)
    rw [hkept]
    refine List.filter_eq_self.mpr fun u hu => ?_
    obtain ⟨w, hw, rfl⟩ := List.mem_map.mp hu
    simpa using (spoken_isLower (hws w hw)).1
  have hfront := hwords r.front fun w hw => r.spoken w (List.mem_append_left _ hw)
  have hbehind := hwords r.behind fun w hw => r.spoken w (List.mem_append_right _ hw)
  have hsolid : (!(lower (View.bareWord (digits ++ r.mark))).isEmpty) = true := by
    rw [hnumber, List.isEmpty_eq_false_iff.mpr hdigits.ne_nil]
    rfl
  refine (List.map_inj_right fun _ _ h => String.toList_inj.mp h).mp ?_
  rw [View.words_ofClause, text, String.toList_ofList, words_unwords (isSpoken hdigits).words, words,
    List.map_append, List.map_cons, List.filter_append, List.filter_cons, hfront, hbehind,
    Function.comp_apply, if_pos hsolid, hnumber, List.map_append, List.map_cons, String.toList_ofList]

/-- A cue without digits is heard if it is one of the words. -/
theorem has_text (hdigits : IsDigits digits) {cues : List String}
    (hcues : ∀ cue ∈ cues, IsDigitless cue.toList) :
    (View.ofClause (r.text digits)).has cues = (r.front ++ r.behind).any cues.contains := by
  rw [View.has, words_text hdigits, List.any_append, List.any_cons, contains_digits cues hcues hdigits,
    Bool.false_or, List.any_append]

/-- A cue that no request is made of is not heard. -/
theorem has_of_foreign (hdigits : IsDigits digits) (cues : List String)
    (hcues : cues.all (fun cue => cue.toList.all (!isAsciiDigit ·) && !spokenWords.contains cue) = true) :
    (View.ofClause (r.text digits)).has cues = false := by
  have hcue (cue : String) (hcue : cue ∈ cues) : IsDigitless cue.toList ∧ cue ∉ spokenWords := by
    have hhere := List.all_eq_true.mp hcues cue hcue
    rw [Bool.and_eq_true, List.all_eq_true] at hhere
    exact ⟨fun c hc => by simpa using hhere.1 c hc, by simpa using hhere.2⟩
  rw [has_text hdigits fun cue h => (hcue cue h).1, List.any_eq_false]
  intro w hw hcontains
  exact (hcue w (List.contains_iff_mem.mp hcontains)).2 (r.spoken w hw)

/-- Whether a phrase is made of words one of which is neither a number nor a word of requests. -/
def isForeignPhrase (phrase : String) : Bool :=
  unwords (Text.words phrase.toList) == phrase.toList &&
    (Text.words phrase.toList).any fun w =>
      w.all (!isAsciiDigit ·) && !spokenWords.contains (String.ofList w)

/-- A phrase that no request is made of is not heard. -/
theorem hasPhrase_of_foreign (hdigits : IsDigits digits) (phrases : List String)
    (hphrases : phrases.all isForeignPhrase = true) :
    (View.ofClause (r.text digits)).hasPhrase phrases = false := by
  rw [View.hasPhrase, List.any_eq_false]
  intro phrase hphrase hcontains
  have hforeign := List.all_eq_true.mp hphrases phrase hphrase
  rw [isForeignPhrase, Bool.and_eq_true, beq_iff_eq, List.any_eq_true] at hforeign
  obtain ⟨hself, w, hw, hout⟩ := hforeign
  rw [Bool.and_eq_true, List.all_eq_true] at hout
  have hcases : ∀ u ∈ (View.ofClause (r.text digits)).words.map String.toList,
      (∃ v ∈ spokenWords, u = v.toList) ∨ u = digits := by
    intro u hu
    obtain ⟨v, hv, rfl⟩ := List.mem_map.mp hu
    rw [words_text hdigits, List.mem_append, List.mem_cons] at hv
    rcases hv with hv | rfl | hv
    · exact Or.inl ⟨v, r.spoken v (List.mem_append_left _ hv), rfl⟩
    · exact Or.inr String.toList_ofList
    · exact Or.inl ⟨v, r.spoken v (List.mem_append_right _ hv), rfl⟩
  have hspaces : ∀ u ∈ (View.ofClause (r.text digits)).words.map String.toList, ' ' ∉ u := by
    intro u hu hspace
    rcases hcases u hu with ⟨v, hv, rfl⟩ | rfl
    · exact absurd ((spoken_isLower hv).2 ' ' hspace) (by decide)
    · exact absurd (hdigits.digits ' ' hspace) (by decide)
  rw [← hself, containsPhrase_iff hspaces (List.ne_nil_of_mem hw) (areWords_words _)] at hcontains
  rcases hcases w (hcontains.subset hw) with ⟨v, hv, rfl⟩ | rfl
  · rw [String.ofList_toList, List.contains_iff_mem.mpr hv] at hout
    exact Bool.noConfusion hout.2
  · obtain ⟨d, rest, rfl, hd⟩ := hdigits.exists_head
    have hnot := hout.1 d List.mem_cons_self
    rw [hd] at hnot
    exact Bool.noConfusion hnot

theorem direction?_text (hdigits : IsDigits digits) : (View.ofClause (r.text digits)).direction? =
    (r.front ++ r.behind).findSome? View.directionOf? := by
  rw [View.direction?, words_text hdigits, List.findSome?_append, List.findSome?_cons,
    directionOf?_digits hdigits, List.findSome?_append]

theorem moveStyle_text (hdigits : IsDigits digits) :
    (View.ofClause (r.text digits)).moveStyle = .normal := by
  rw [View.moveStyle, has_of_foreign hdigits View.sharpWords (by decide),
    has_of_foreign hdigits View.littleWords (by decide)]
  rfl

theorem isAlarm_text (hdigits : IsDigits digits) : (View.ofClause (r.text digits)).isAlarm = false := by
  rw [View.isAlarm, has_of_foreign hdigits Rule.safetyWords (by decide),
    hasPhrase_of_foreign hdigits Rule.safetyPhrases (by decide)]
  rfl

theorem has_stopWords_text (hdigits : IsDigits digits) :
    (View.ofClause (r.text digits)).has Rule.stopWords = false :=
  has_of_foreign hdigits Rule.stopWords (by decide)

/-- A request that does not name the speed is quiet. -/
theorem isQuiet_text (hdigits : IsDigits digits) (hspeed : "speed" ∉ r.front ++ r.behind) :
    (View.ofClause (r.text digits)).IsQuiet where
  safety := isAlarm_text hdigits
  stop := has_stopWords_text hdigits
  speed := by
    have hothers : ∀ w ∈ spokenWords, Rule.speedWords.contains w = true → w = "speed" := by decide
    rw [has_text hdigits (isDigitless_of_all (by decide)), List.any_eq_false]
    intro w hw hcontains
    exact hspeed (hothers w (r.spoken w hw) hcontains ▸ hw)
  wait := has_of_foreign hdigits Rule.waitWords (by decide)

end View

/-! ## The number of a request -/

def leading (r : SpokenRequest) : List Char :=
  r.front.flatMap (·.toList ++ [' '])

def trailing (r : SpokenRequest) : List Char :=
  r.mark ++ r.behind.flatMap (' ' :: ·.toList)

section Number

variable {r : SpokenRequest} {digits : List Char}

theorem unwords_words (r : SpokenRequest) (digits : List Char) :
    unwords (r.words digits) = r.leading ++ (digits ++ r.trailing) := by
  rw [words, unwords_around, List.flatMap_map, List.flatMap_map, leading, trailing, List.append_assoc]

theorem text_eq {front behind : String} (hfront : r.leading = front.toList)
    (hbehind : r.trailing = behind.toList) (digits : List Char) :
    r.text digits = front ++ String.ofList digits ++ behind := by
  refine String.toList_inj.mp ?_
  rw [text, String.toList_ofList, unwords_words, hfront, hbehind, String.toList_append,
    String.toList_append, String.toList_ofList, List.append_assoc]

theorem isNumberIn (hdigits : IsDigits digits) :
    Mention.IsNumberIn (r.words digits) r.leading digits r.trailing where
  spoken := isSpoken hdigits
  misses := by
    intro w hw
    exact misses hdigits isApartFromSpoken_spellings (List.mem_map_of_mem hw)
      (isPlain_of_isTableLetter (NumberWord.isTableLetter_of_mem_spellings hw))
      (Mention.isDigitless_spellings w hw) (NumberWord.toList_ne_nil_of_mem_spellings hw)
  number := hdigits
  text_eq := unwords_words r digits
  front := by
    intro c hc
    obtain ⟨w, hw, hc⟩ := List.mem_flatMap.mp hc
    rcases List.mem_append.mp hc with hc | hc
    · exact isDecimalDigit_of_isLetterForm (isLetterForm_of_isLower
        ((spoken_isLower (r.spoken w (List.mem_append_left _ hw))).2 c hc))
    · rw [List.mem_singleton.mp hc]
      decide
  behind := by
    intro c hc
    rcases List.mem_append.mp hc with hc | hc
    · rw [eq_of_mem_mark hc]
      decide
    · obtain ⟨w, hw, hc⟩ := List.mem_flatMap.mp hc
      rcases List.mem_cons.mp hc with rfl | hc
      · decide
      · exact isDecimalDigit_of_isLetterForm (isLetterForm_of_isLower
          ((spoken_isLower (r.spoken w (List.mem_append_right _ hw))).2 c hc))
  point := by
    rw [trailing]
    rcases r.sign with hsign | hsign
    · rw [hsign, List.nil_append]
      cases r.behind with
      | nil => exact nofun
      | cons w behind => exact fun h => absurd (Option.some.inj h) (by decide)
    · rw [hsign]
      exact fun h => absurd (Option.some.inj h) (by decide)

/-- The number of a request with the unit behind it. -/
theorem quantity_measured (hdigits : IsDigits digits) {u : Measure}
    (hunit : (Mention.wordBehind r.trailing).1.bind Measure.ofText? = some u)
    (hbehind : Mention.isPercentBehind (some '0') r.trailing = false) :
    (View.ofClause (r.text digits)).quantity = ⟨some (Binary.ofInt (ofDigits digits)), some u⟩ :=
  Quantity.extract_measured (isNumberIn hdigits) hunit hbehind

/-- The number of a request as a percentage. -/
theorem quantity_percentage (hdigits : IsDigits digits)
    (hbehind : Mention.isPercentBehind (some '0') r.trailing = true) :
    (View.ofClause (r.text digits)).quantity =
      ⟨some (Binary.ofInt (min (ofDigits digits) 100 : Nat)), some .percent⟩ :=
  Quantity.extract_percentage (isNumberIn hdigits) hbehind

end Number

end SpokenRequest

end Teleop
