import Teleop.Proofs.Lexicon.Sources
import Teleop.Proofs.Text.Spacing

/-!
# What normalization keeps

The entries of an accepted list are collapsed, and so is what is found in a collapsed text. So replacing
sources keeps a text collapsed, the second collapsing pass of `normalize` changes nothing, and a normalized
text is taken up by the next pass as it is, up to the ASCII form of the canonical words.
-/

namespace Teleop

open Text

/-! ## ASCII forms -/

/-- What digits and marks of the Urdu script become. -/
def asciiMarks : List Char := "0123456789,;.?".toList

theorem asciiMarks_settled : ∀ d ∈ asciiMarks, IsSettled d ∧ isBlank d = false := by
  have hall : asciiMarks.all (fun d =>
      decide (simpleLower d = d ∧ d ≠ 'Σ' ∧ d ≠ 'İ') && !isBlank d) = true := by decide +kernel
  intro d hd
  have h := List.all_eq_true.mp hall d hd
  rw [Bool.and_eq_true, decide_eq_true_eq, Bool.not_eq_true'] at h
  obtain ⟨⟨hfixed, hsigma, hdotted⟩, hblank⟩ := h
  exact ⟨⟨hfixed, hsigma, hdotted⟩, hblank⟩

theorem isBlank_of_urduDigit {c : Char} (h : 0x0660 ≤ c.toNat ∧ c.toNat ≤ 0x06F9) :
    isBlank c = false := by
  apply Spans.has_eq_false
  have hends : ∀ s ∈ blankSpans, s.2 < 0x0660 ∨ 0x06F9 < s.1 := by decide
  intro s hs
  have := hends s hs
  omega

theorem asciiForm_cases (c : Char) :
    asciiForm c = c ∨ (asciiForm c ∈ asciiMarks ∧ isBlank c = false) := by
  have hdigits : ∀ k < 10, Char.ofNat (k + '0'.toNat) ∈ asciiMarks := by decide
  simp only [asciiForm]
  split
  · rename_i h
    simp only [Bool.and_eq_true, decide_eq_true_eq] at h
    exact Or.inr ⟨hdigits _ (by omega), isBlank_of_urduDigit (by omega)⟩
  · split
    · rename_i h
      simp only [Bool.and_eq_true, decide_eq_true_eq] at h
      exact Or.inr ⟨hdigits _ (by omega), isBlank_of_urduDigit (by omega)⟩
    · repeat' split
      all_goals
        first
          | exact Or.inl rfl
          | rename_i h
            subst h
            exact Or.inr ⟨by decide, by decide⟩

theorem isCollapsed_map_asciiForm {t : List Char} (h : IsCollapsed t) :
    IsCollapsed (t.map asciiForm) where
  spaced := by
    rw [← h.spaced]
    refine spacing_congr (by simp) (fun k c d hc hd => ?_) true
    obtain ⟨d', hd', rfl⟩ : ∃ d', t[k]? = some d' ∧ asciiForm d' = c := by simpa using hc
    rw [hd] at hd'
    cases hd'
    have hspace := eq_space_of_spacing h.spaced d (List.mem_of_getElem? hd)
    rcases asciiForm_cases d with he | ⟨hmark, hblank⟩
    · rw [he]
      exact ⟨Iff.rfl, hspace, hspace⟩
    · have hmarkBlank := (asciiMarks_settled _ hmark).2
      refine ⟨⟨fun he => ?_, fun he => ?_⟩, fun he => ?_, fun he => ?_⟩
      · rw [he] at hmarkBlank
        exact absurd hmarkBlank (by decide)
      · rw [he] at hblank
        exact absurd hblank (by decide)
      · rw [hmarkBlank] at he
        exact Bool.noConfusion he
      · rw [hblank] at he
        exact Bool.noConfusion he
  settled := by
    intro c hc
    obtain ⟨d, hd, rfl⟩ := List.mem_map.mp hc
    rcases asciiForm_cases d with he | ⟨hmark, -⟩
    · rw [he]
      exact h.settled d hd
    · exact (asciiMarks_settled _ hmark).1

theorem asciiForm_asciiForm (c : Char) : asciiForm (asciiForm c) = asciiForm c := by
  have hmarks : asciiMarks.all (fun d => asciiForm d == d) = true := by decide
  rcases asciiForm_cases c with h | ⟨h, -⟩
  · rw [h, h]
  · exact beq_iff_eq.mp (List.all_eq_true.mp hmarks _ h)

theorem asciiForm_of_not_arabic {c : Char} (h : c.toNat < 0x600 ∨ 0x700 ≤ c.toNat) :
    asciiForm c = c := by
  have hmarks : ['،', '؛', '۔', '؟'].all
      (fun d => decide (0x600 ≤ d.toNat ∧ d.toNat < 0x700)) = true := by decide
  have hne : ∀ d ∈ ['،', '؛', '۔', '؟'], c ≠ d := by
    rintro d hd rfl
    have := decide_eq_true_eq.mp (List.all_eq_true.mp hmarks c hd)
    omega
  simp only [asciiForm]
  rw [if_neg (by simp; omega), if_neg (by simp; omega), if_neg (hne _ (by decide)),
    if_neg (hne _ (by decide)), if_neg (hne _ (by decide)), if_neg (hne _ (by decide))]

/-- Lower case brings back no digit or mark of the Urdu script. -/
theorem map_asciiForm_collapse (text : List Char) :
    (collapse (text.map asciiForm)).map asciiForm = collapse (text.map asciiForm) := by
  have hfixed : ∀ d ∈ collapse (text.map asciiForm), asciiForm d = d := by
    intro d hd
    rcases mem_collapse hd with rfl | hform | ⟨c, hc, rfl⟩
    · decide
    · have hforms : ['ς', 'σ', 'i', '\u0307'].all (fun e => asciiForm e == e) = true := by decide
      exact beq_iff_eq.mp (List.all_eq_true.mp hforms d hform)
    · obtain ⟨b, -, rfl⟩ := List.mem_map.mp hc
      by_cases hfix : shiftInRuns lowercaseRuns (asciiForm b).toNat = (asciiForm b).toNat
      · rw [simpleLower, hfix, Char.ofNat_toNat, asciiForm_asciiForm]
      · apply asciiForm_of_not_arabic
        rw [toNat_simpleLower]
        exact (image_bounds hfix).2.2.2.1
  exact (List.map_congr_left hfixed).trans (List.map_id' _)

namespace Lexicon

/-! ## Entries -/

/-- The texts of all entries are collapsed. -/
def HasCollapsedEntries (l : Lexicon) : Prop :=
  ∀ e ∈ l.entries, IsCollapsed e.source.toList ∧ IsCollapsed e.canonical.toList

theorem ofEntries_eq_ok {entries : List Entry}
    (h : Entry.fault? (entries.map Entry.collapsed) = none) :
    ofEntries entries = .ok ⟨entries.map Entry.collapsed, h⟩ := by
  simp only [ofEntries]
  split
  · rfl
  · rename_i fault hfault
    rw [h] at hfault
    exact absurd hfault (by simp)

theorem entries_of_ofEntries {entries : List Entry} {l : Lexicon} (h : ofEntries entries = .ok l) :
    l.entries = entries.map Entry.collapsed := by
  simp only [ofEntries] at h
  split at h
  · cases h
    rfl
  · cases h

theorem hasCollapsedEntries_of_ofEntries {entries : List Entry} {l : Lexicon}
    (h : ofEntries entries = .ok l) : l.HasCollapsedEntries := by
  intro e he
  have hsource := l.source_ne_nil he
  have hcanonical := l.canonical_ne_nil he
  rw [entries_of_ofEntries h] at he
  obtain ⟨raw, -, rfl⟩ := List.mem_map.mp he
  simp only [Entry.collapsed, collapseString, String.toList_ofList] at hsource hcanonical ⊢
  exact ⟨isCollapsed_of_collapse (collapse_collapse _) hsource,
    isCollapsed_of_collapse (collapse_collapse _) hcanonical⟩

/-- A lexicon whose entries are collapsed is made from its own entries. -/
theorem HasCollapsedEntries.ofEntries_eq {l : Lexicon} (h : l.HasCollapsedEntries) :
    ofEntries l.entries = .ok l := by
  have hsame : l.entries.map Entry.collapsed = l.entries := by
    refine (List.map_congr_left fun e he => ?_).trans (List.map_id _)
    obtain ⟨hsource, hcanonical⟩ := h e he
    rw [Entry.collapsed, collapseString, collapseString, hsource.collapse_eq, hcanonical.collapse_eq,
      String.ofList_toList, String.ofList_toList, id]
  have hfault : Entry.fault? (l.entries.map Entry.collapsed) = none := by
    rw [hsame]
    exact l.consistent
  rw [ofEntries_eq_ok hfault]
  obtain ⟨entries, consistent⟩ := l
  simp only [hsame]

/-- A list of entries that was accepted, by itself or beside the built-in table. -/
def IsAccepted (l : Lexicon) : Prop :=
  ∃ entries, ofEntries entries = .ok l ∨ withExtra entries = .ok l

theorem IsAccepted.hasCollapsedEntries {l : Lexicon} (h : l.IsAccepted) : l.HasCollapsedEntries := by
  obtain ⟨entries, h | h⟩ := h
  · exact hasCollapsedEntries_of_ofEntries h
  · simp only [withExtra, bind, Except.bind] at h
    split at h
    · cases h
    · exact hasCollapsedEntries_of_ofEntries h

theorem exists_of_lookup? {l : Lexicon} {f : List Char} (hf : collapse f = f) {canonical : String}
    (h : l.lookup? (String.ofList f) = some canonical) :
    ∃ e ∈ l.entries, e.source.toList = f ∧ e.canonical = canonical := by
  simp only [lookup?, Option.map_eq_some_iff] at h
  obtain ⟨e, he, rfl⟩ := h
  refine ⟨e, List.mem_of_find?_eq_some he, ?_, rfl⟩
  have hsource := List.find?_some he
  rw [decide_eq_true_eq] at hsource
  rw [hsource, collapseString, String.toList_ofList, String.toList_ofList, hf]

/-! ## Pieces of a collapsed text -/

section Pieces

variable {l : Lexicon} {t : List Char} {ps : List (Piece Unit)}

theorem stands_of_found {P Q : List (Piece Unit)} {u : Unit} {f : List Char}
    (h : Scanned l.recogniser none t (P ++ .found u f :: Q)) :
    ∃ e ∈ l.entries, Stands e.source.toList (textOf P).getLast? f (textOf Q) := by
  have htaken := h.taken_of_split.2
  rw [Option.or_none] at htaken
  obtain ⟨e, he, m, q, htext, hlength, hstands⟩ := recogniser_eq_some htaken
  obtain ⟨rfl, rfl⟩ := List.append_inj htext hlength.symm
  exact ⟨e, he, hstands⟩

/-- What is found in a collapsed text is collapsed, as the sources are. -/
theorem isCollapsed_of_found (hl : l.HasCollapsedEntries) (ht : IsCollapsed t)
    (hps : Scanned l.recogniser none t ps) {u : Unit} {f : List Char} (hf : .found u f ∈ ps) :
    IsCollapsed f := by
  have hmem : ∀ c ∈ f, c ∈ t := by
    intro c hc
    rw [← hps.textOf_eq]
    exact List.mem_flatMap.mpr ⟨_, hf, hc⟩
  obtain ⟨P, Q, rfl⟩ := List.append_of_mem hf
  obtain ⟨e, he, hstands⟩ := stands_of_found hps
  have hsource := (hl e he).1
  refine ⟨?_, fun c hc => ht.settled c (hmem c hc)⟩
  rw [← hsource.spaced]
  refine spacing_congr hstands.length_eq (fun k c d hc hd => ?_) true
  have hsame := hstands.letters k d c hd hc
  refine ⟨⟨fun he => ?_, fun he => ?_⟩, ?_, ?_⟩
  · subst he
    exact sameLetter_space_right hsame
  · subst he
    exact sameLetter_space_left hsame
  · exact eq_space_of_spacing ht.spaced c (hmem c (List.mem_of_getElem? hc))
  · exact eq_space_of_spacing hsource.spaced d (List.mem_of_getElem? hd)

theorem isCollapsed_replacement (hl : l.HasCollapsedEntries) {f : List Char} (hf : IsCollapsed f) :
    IsCollapsed (l.replacement f) := by
  rw [replacement]
  cases hlookup : l.lookup? (String.ofList f) with
  | none =>
    rw [Option.map_none, Option.getD_none, hf.collapse_eq]
    exact hf
  | some canonical =>
    obtain ⟨e, he, -, rfl⟩ := exists_of_lookup? hf.collapse_eq hlookup
    exact (hl e he).2

/-- Replacing sources leaves the words of a text apart as they are. -/
theorem spacing_replaced (hl : l.HasCollapsedEntries)
    (hfound : ∀ u f, .found u f ∈ ps → IsCollapsed f) (afterBlank : Bool) :
    spacing afterBlank (ps.flatMap l.replacePiece) = spacing afterBlank (textOf ps) := by
  induction ps generalizing afterBlank with
  | nil => rfl
  | cons p ps ih =>
    have hrest := ih fun u f hf => hfound u f (List.mem_cons_of_mem _ hf)
    rw [List.flatMap_cons, textOf_cons, spacing_append, spacing_append]
    cases p with
    | plain c => simp only [replacePiece, Piece.chars, hrest]
    | found u f =>
      have hf := hfound u f List.mem_cons_self
      simp only [replacePiece, Piece.chars, hrest,
        spacing_any (isCollapsed_replacement hl hf).spaced, spacing_any hf.spaced]

theorem isCollapsed_replaceSources (hl : l.HasCollapsedEntries) (ht : IsCollapsed t) :
    IsCollapsed (l.replaceSources t) := by
  have hps := scanned_scan l.isBounded_recogniser t
  have hfound := fun u f hf => isCollapsed_of_found hl ht hps (u := u) (f := f) hf
  rw [replaceSources_eq]
  refine ⟨?_, fun c hc => ?_⟩
  · rw [spacing_replaced hl hfound, hps.textOf_eq, ht.spaced]
  · obtain ⟨p, hp, hc⟩ := List.mem_flatMap.mp hc
    cases p with
    | plain d =>
      refine ht.settled c ?_
      rw [← hps.textOf_eq]
      exact List.mem_flatMap.mpr ⟨_, hp, hc⟩
    | found u f => exact (isCollapsed_replacement hl (hfound u f hp)).settled c hc

end Pieces

/-! ## Normalized texts -/

section Normalize

variable {l : Lexicon} {u : String}

/-- A normalized text is empty or collapsed. -/
theorem isCollapsed_normalize (h : l.normalize u ≠ "") :
    IsCollapsed (l.normalize u).toList := by
  rw [normalize, String.toList_ofList]
  refine isCollapsed_of_collapse (collapse_collapse _) fun hnil => h ?_
  rw [normalize, hnil]

/-- The second collapsing pass changes nothing. -/
theorem toList_normalize (hl : l.HasCollapsedEntries) (u : String) :
    (l.normalize u).toList = l.replaceSources (collapse (u.toList.map asciiForm)) := by
  rw [normalize, String.toList_ofList]
  by_cases hwords : words (u.toList.map asciiForm) = []
  · rw [collapse_eq_nil hwords]
    rfl
  · exact (isCollapsed_replaceSources hl (isCollapsed_collapse hwords)).collapse_eq

/-- The next pass finds a normalized text as it is, in its ASCII form. -/
theorem toList_normalize_normalize (hl : l.HasCollapsedEntries) (u : String) :
    (l.normalize (l.normalize u)).toList =
      l.replaceSources ((l.normalize u).toList.map asciiForm) := by
  rw [toList_normalize hl]
  by_cases hempty : l.normalize u = ""
  · rw [hempty]
    rfl
  · rw [(isCollapsed_map_asciiForm (isCollapsed_normalize hempty)).collapse_eq]

end Normalize

end Lexicon

end Teleop
