import Teleop.Classification.View
import Teleop.Proofs.Text.Phrase

/-!
# Cues in their surroundings

A cue counts wherever only punctuation parts it from the blanks around it. `LeadsIn` and `LeadsOut` say
this of the text before and behind a cue; both survive when the text is cut further away, so a clause
that keeps the cue hears it. What else the clause contains plays no part.
-/

namespace Teleop

namespace Text

/-! ## What may stand around a cue -/

/-- A text that ends in punctuation which belongs to the word behind it. -/
def LeadsIn (a : List Char) : Prop :=
  ∃ outer pre, a = outer ++ pre ∧ EndsOpen outer ∧
    ∀ c ∈ pre, isBlank c = false ∧ isAlphanumeric c = false

/-- A text that begins with punctuation which belongs to the word before it. -/
def LeadsOut (b : List Char) : Prop :=
  ∃ post outer, b = post ++ outer ∧ BeginsOpen outer ∧
    ∀ c ∈ post, isBlank c = false ∧ isAlphanumeric c = false

theorem LeadsIn.suffix {a a' : List Char} (h : LeadsIn a) (hs : a' <:+ a) : LeadsIn a' := by
  obtain ⟨outer, pre, rfl, hopen, hpre⟩ := h
  rcases List.suffix_or_suffix_of_suffix hs (List.suffix_append outer pre) with hin | ⟨s, rfl⟩
  · exact ⟨[], a', rfl, endsOpen_nil, fun c hc => hpre c (hin.subset hc)⟩
  · refine ⟨s, pre, rfl, ?_, hpre⟩
    obtain ⟨t, ht⟩ := hs
    rw [← List.append_assoc, List.append_cancel_right_eq] at ht
    intro c hc
    exact hopen c (by rw [← ht, List.getLast?_append, hc]; rfl)

theorem LeadsOut.prefixed {b b' : List Char} (h : LeadsOut b) (hp : b' <+: b) : LeadsOut b' := by
  obtain ⟨post, outer, rfl, hopen, hpost⟩ := h
  rcases List.prefix_or_prefix_of_prefix hp (List.prefix_append post outer) with hin | ⟨s, rfl⟩
  · exact ⟨b', [], by simp, beginsOpen_nil, fun c hc => hpost c (hin.subset hc)⟩
  · refine ⟨post, s, rfl, ?_, hpost⟩
    rw [List.prefix_append_right_inj] at hp
    obtain ⟨t, rfl⟩ := hp
    intro c hc
    exact hopen c (by rw [List.head?_append, hc]; rfl)

/-- Neither a letter nor a number stands right before a cue. -/
theorem LeadsIn.isAlphanumeric_getLast? {a : List Char} (h : LeadsIn a) :
    ∀ c ∈ a.getLast?, isAlphanumeric c = false := by
  obtain ⟨outer, pre, rfl, hopen, hpre⟩ := h
  intro c hc
  rw [List.getLast?_append] at hc
  cases hlast : pre.getLast? with
  | none =>
    rw [hlast, Option.none_or] at hc
    exact isAlphanumeric_of_isBlank (hopen c hc)
  | some d =>
    rw [hlast, Option.some_or] at hc
    cases hc
    exact (hpre c (List.mem_of_getLast? hlast)).2

/-- The word that a cue ends, with the punctuation before it. -/
theorem LeadsIn.words_append {a y : List Char} (h : LeadsIn a) (hne : y ≠ [])
    (hy : ∀ c ∈ y, isBlank c = false) : ∃ ws pre, words (a ++ y) = ws ++ [pre ++ y] ∧
      ∀ c ∈ pre, isBlank c = false ∧ isAlphanumeric c = false := by
  obtain ⟨outer, pre, rfl, hopen, hpre⟩ := h
  refine ⟨words outer, pre, ?_, hpre⟩
  have hword : ∀ c ∈ pre ++ y, isBlank c = false := by
    intro c hc
    rcases List.mem_append.mp hc with hc | hc
    · exact (hpre c hc).1
    · exact hy c hc
  rw [List.append_assoc, hopen.words_append, words_of_unbroken (by simp [hne]) hword]

/-- The word that a cue begins, with the punctuation behind it. -/
theorem LeadsOut.words_append {b z : List Char} (h : LeadsOut b) (hne : z ≠ [])
    (hz : ∀ c ∈ z, isBlank c = false) : ∃ post ws, words (z ++ b) = (z ++ post) :: ws ∧
      ∀ c ∈ post, isBlank c = false ∧ isAlphanumeric c = false := by
  obtain ⟨post, outer, rfl, hopen, hpost⟩ := h
  refine ⟨post, words outer, ?_, hpost⟩
  have hword : ∀ c ∈ z ++ post, isBlank c = false := by
    intro c hc
    rcases List.mem_append.mp hc with hc | hc
    · exact hz c hc
    · exact (hpost c hc).1
  rw [← List.append_assoc, hopen.words_append, words_of_unbroken (by simp [hne]) hword,
    List.singleton_append]

/-- A cue that is one word stands in one word with punctuation on both sides. -/
theorem exists_words_around {a x b : List Char} (ha : LeadsIn a) (hb : LeadsOut b) (hne : x ≠ [])
    (hx : ∀ c ∈ x, isBlank c = false) : ∃ ws pre post vs,
      words (a ++ (x ++ b)) = ws ++ (pre ++ (x ++ post)) :: vs ∧
      (∀ c ∈ pre, isAlphanumeric c = false) ∧ ∀ c ∈ post, isAlphanumeric c = false := by
  obtain ⟨outer, pre, rfl, hopen, hpre⟩ := ha
  obtain ⟨post, outer', rfl, hopen', hpost⟩ := hb
  refine ⟨words outer, pre, post, words outer', ?_, fun c hc => (hpre c hc).2,
    fun c hc => (hpost c hc).2⟩
  have hword : ∀ c ∈ pre ++ (x ++ post), isBlank c = false := by
    intro c hc
    simp only [List.mem_append] at hc
    rcases hc with hc | hc | hc
    · exact (hpre c hc).1
    · exact hx c hc
    · exact (hpost c hc).1
  have hsplit : (outer ++ pre) ++ (x ++ (post ++ outer')) =
      outer ++ ((pre ++ (x ++ post)) ++ outer') := by simp only [List.append_assoc]
  rw [hsplit, words_between hopen hopen' (by simp [hne]) hword]

end Text

namespace View

open Text

/-- Whether a text begins and ends with letters or numbers. -/
def isBare (x : List Char) : Bool :=
  x.head?.any isAlphanumeric && x.getLast?.any isAlphanumeric

theorem bareWord_append {pre x post : List Char} (hx : isBare x = true)
    (hpre : ∀ c ∈ pre, isAlphanumeric c = false) (hpost : ∀ c ∈ post, isAlphanumeric c = false) :
    bareWord (pre ++ (x ++ post)) = x := by
  rw [isBare, Bool.and_eq_true] at hx
  obtain ⟨hhead, hlast⟩ := hx
  refine trimBoth_append ?_ ?_ ?_ ?_ ?_
  · intro c hc
    simp [hpre c hc]
  · intro c hc
    simp [hpost c hc]
  · rintro rfl
    simp at hhead
  · intro c hc
    rw [hc] at hhead
    simpa using hhead
  · intro c hc
    rw [hc] at hlast
    simpa using hlast

/-- What the rules see of the words of a clause. -/
theorem words_ofClause (clause : String) : (ofClause clause).words.map String.toList =
    ((Text.words clause.toList).map (lower ∘ bareWord)).filter (!·.isEmpty) := by
  simp [ofClause, Function.comp_def]

/-- A clause hears a cue that is one of its bare words. -/
theorem has_of_mem {clause cue : String} {cues : List String} {w : List Char} (hcue : cue ∈ cues)
    (hne : cue.toList ≠ []) (hw : w ∈ Text.words clause.toList)
    (hbare : lower (bareWord w) = cue.toList) : (ofClause clause).has cues = true := by
  have hmem : cue.toList ∈ (ofClause clause).words.map String.toList := by
    rw [words_ofClause]
    refine List.mem_filter.mpr ⟨List.mem_map.mpr ⟨w, hw, hbare⟩, ?_⟩
    simpa using hne
  obtain ⟨cue', hcue', he⟩ := List.mem_map.mp hmem
  rw [String.toList_inj.mp he] at hcue'
  exact List.any_eq_true.mpr ⟨cue, hcue', by simpa using hcue⟩

/-- A clause hears a phrase that two bare words of it form. -/
theorem hasPhrase_of_words {clause phrase : String} {phrases : List String}
    {ws vs : List (List Char)} {w v y z : List Char} (hphrase : phrase ∈ phrases)
    (hsplit : phrase.toList = y ++ ' ' :: z) (hy : y ≠ []) (hz : z ≠ [])
    (hwords : Text.words clause.toList = ws ++ w :: v :: vs) (hw : lower (bareWord w) = y)
    (hv : lower (bareWord v) = z) : (ofClause clause).hasPhrase phrases = true := by
  refine List.any_eq_true.mpr ⟨phrase, hphrase, ?_⟩
  have hseen : (ofClause clause).words.map String.toList =
      (ws.map (lower ∘ bareWord)).filter (!·.isEmpty) ++
        ([y, z] ++ (vs.map (lower ∘ bareWord)).filter (!·.isEmpty)) := by
    rw [words_ofClause, hwords]
    simp [hw, hv, hy, hz]
  rw [hseen, hsplit]
  have hpair : unwords [y, z] = y ++ ' ' :: z := by
    rw [unwords_cons_cons, unwords_singleton]
  rw [← hpair]
  exact containsPhrase_unwords _ _ (by simp)

end View

end Teleop
