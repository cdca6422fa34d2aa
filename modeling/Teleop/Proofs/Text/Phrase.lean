import Teleop.Proofs.Text.Spacing

/-!
# Phrases of a text

A phrase is looked for as a row of characters with a space on each side. In a text of words with one space
between each two, every place where it is found is the place of whole words: the search says whether the
words of the phrase follow each other among those of the text (`containsPhrase_iff_of_isSpaced`).
-/

namespace Teleop.Text

/-! ## Phrases of words -/

theorem occurs_iff {needle text : List Char} : occurs needle text = true ↔ needle <:+: text := by
  induction text with
  | nil => simp [occurs]
  | cons c rest ih =>
    rw [occurs, Bool.or_eq_true, ih, List.isPrefixOf_iff_prefix, List.infix_cons_iff]

theorem space_unwords {ws : List (List Char)} (h : ws ≠ []) :
    ' ' :: unwords ws = ws.flatMap (' ' :: ·) := by
  induction ws with
  | nil => exact absurd rfl h
  | cons w ws ih =>
    by_cases hws : ws = []
    · subst hws
      simp [unwords_singleton]
    · rw [unwords_cons w hws, ih hws, List.flatMap_cons, List.cons_append]

/-- The text of some words, seen from one of them. -/
theorem unwords_around (ws vs : List (List Char)) (u : List Char) :
    unwords (ws ++ u :: vs) = ws.flatMap (· ++ [' ']) ++ (u ++ vs.flatMap (' ' :: ·)) := by
  induction ws with
  | nil =>
    by_cases hvs : vs = []
    · rw [hvs, List.nil_append, unwords_singleton, List.flatMap_nil, List.flatMap_nil, List.append_nil,
        List.nil_append]
    · rw [List.nil_append, unwords_cons u hvs, space_unwords hvs]
      rfl
  | cons w ws ih =>
    rw [List.cons_append, unwords_cons w (by simp), ih, List.flatMap_cons, List.append_assoc,
      List.append_assoc, List.singleton_append]

/-- Words that follow each other in a text form a phrase of it. -/
theorem containsPhrase_unwords (before behind : List (List Char)) {phrase : List (List Char)}
    (h : phrase ≠ []) :
    containsPhrase (unwords (before ++ (phrase ++ behind))) (unwords phrase) = true := by
  have hend : ∃ rest, behind.flatMap (' ' :: ·) ++ [' '] = ' ' :: rest := by
    cases behind with
    | nil => exact ⟨[], rfl⟩
    | cons w ws => exact ⟨_, rfl⟩
  obtain ⟨rest, hrest⟩ := hend
  rw [containsPhrase, occurs_iff, space_unwords h, space_unwords (by simp [h])]
  refine ⟨before.flatMap (' ' :: ·), rest, ?_⟩
  simp only [List.flatMap_append, List.append_assoc, hrest, List.singleton_append]

/-- Cutting at spaces gives back words that each follow a space. -/
theorem splitOnP_spaced {ws : List (List Char)} (hws : ∀ w ∈ ws, ' ' ∉ w) (a b : List Char) :
    (a ++ (ws.flatMap (' ' :: ·) ++ ' ' :: b)).splitOnP (· == ' ') =
      a.splitOnP (· == ' ') ++ (ws ++ b.splitOnP (· == ' ')) := by
  induction ws generalizing a with
  | nil => exact List.splitOnP_append_cons a b (by simp)
  | cons w ws ih =>
    have hw : w.splitOnP (· == ' ') = [w] :=
      List.splitOnP_eq_singleton fun c hc => by
        simpa using fun he : c = ' ' => hws w List.mem_cons_self (he ▸ hc)
    rw [List.flatMap_cons, List.cons_append, List.cons_append,
      List.splitOnP_append_cons a _ (by simp), List.append_assoc,
      ih (fun v hv => hws v (List.mem_cons_of_mem _ hv)), hw, List.singleton_append,
      List.cons_append]

/-- Words that do not hold the mark at the two ends follow each other between the marks. -/
theorem infix_of_infix_marked {ws vs : List (List Char)} {mark : List Char} (hne : ws ≠ [])
    (hws : mark ∉ ws) (h : ws <:+: [mark] ++ (vs ++ [mark])) : ws <:+: vs := by
  rw [List.singleton_append, List.infix_cons_iff] at h
  rcases h with hprefix | hrest
  · rcases List.prefix_cons_iff.mp hprefix with rfl | ⟨t, rfl, -⟩
    · exact absurd rfl hne
    · exact absurd List.mem_cons_self hws
  · rcases List.infix_concat_iff.mp hrest with hsuffix | hinfix
    · rcases List.suffix_concat_iff.mp hsuffix with rfl | ⟨t, rfl, -⟩
      · exact absurd rfl hne
      · exact absurd (by simp) hws
    · exact hinfix

theorem AreWords.space_not_mem {ws : List (List Char)} (h : AreWords ws) : ∀ w ∈ ws, ' ' ∉ w :=
  fun w hw hmem => absurd ((h w hw).2 ' ' hmem) (by decide)

/-- A phrase is in a text of words exactly where its words follow each other. -/
theorem containsPhrase_iff {ws phrase : List (List Char)} (hws : ∀ w ∈ ws, ' ' ∉ w)
    (hne : phrase ≠ []) (hphrase : AreWords phrase) :
    containsPhrase (unwords ws) (unwords phrase) = true ↔ phrase <:+: ws := by
  constructor
  · intro h
    have hspace := hphrase.space_not_mem
    have hnil : [] ∉ phrase := fun hmem => (hphrase [] hmem).1 rfl
    rw [containsPhrase, occurs_iff, space_unwords hne] at h
    obtain ⟨a, b, hab⟩ := h
    have hcut := congrArg (List.splitOnP (· == ' ')) hab
    rw [List.append_assoc, List.append_assoc, List.singleton_append, splitOnP_spaced hspace] at hcut
    have hinfix : phrase <:+: (' ' :: unwords ws ++ [' ']).splitOnP (· == ' ') := by
      rw [← hcut, ← List.append_assoc]
      exact List.infix_append _ _ _
    by_cases hwsnil : ws = []
    · have hblank : (' ' :: unwords [] ++ [' ']).splitOnP (· == ' ') = [[]] ++ ([[]] ++ [[]]) := by
        decide
      rw [hwsnil, hblank] at hinfix
      have hsub := infix_of_infix_marked hne hnil hinfix
      obtain ⟨w, rest, rfl⟩ := List.exists_cons_of_ne_nil hne
      have hw := hsub.subset List.mem_cons_self
      rw [List.mem_singleton] at hw
      exact absurd (hw ▸ List.mem_cons_self) hnil
    · have hws' := splitOnP_spaced hws [] []
      rw [List.nil_append, ← space_unwords hwsnil] at hws'
      rw [hws'] at hinfix
      exact infix_of_infix_marked hne hnil hinfix
  · rintro ⟨before, behind, rfl⟩
    rw [List.append_assoc]
    exact containsPhrase_unwords before behind hne

/-! ## Phrases of texts -/

/-- The words of a collapsed text with one space between each two are the text. -/
theorem unwords_words_of_collapse {t : List Char} (h : collapse t = t) : unwords (words t) = t := by
  have hwords : words t = (words t).map lower := by
    conv => lhs; rw [← h]
    rw [words_collapse]
  conv => rhs; rw [← h, collapse_eq, ← hwords]

/-- In texts with one space between two words a phrase is found word by word. -/
theorem containsPhrase_iff_words {t k : List Char} (ht : unwords (words t) = t)
    (hk : unwords (words k) = k) (hne : k ≠ []) :
    containsPhrase t k = true ↔ words k <:+: words t := by
  have hspaces := (areWords_words t).space_not_mem
  have hwords : words k ≠ [] := fun hnil => hne (by rw [← hk, hnil, unwords_nil])
  have hiff := containsPhrase_iff hspaces hwords (areWords_words k)
  rwa [ht, hk] at hiff

/-- In a text with single spaces between its words, the search for a phrase that is not empty finds exactly
the words of the phrase, whole and in a row. -/
theorem containsPhrase_iff_of_isSpaced {t k : List Char} (ht : IsSpaced t) (hk : IsSpaced k)
    (hne : k ≠ []) : containsPhrase t k = true ↔ words k <:+: words t :=
  containsPhrase_iff_words (isSpaced_iff.mp ht) (isSpaced_iff.mp hk) hne

/-- The characters of a phrase that begin inside a word are not found. -/
theorem containsPhrase_iff_of_isSpaced_inside :
    IsSpaced "the stop".toList ∧ IsSpaced "e stop".toList ∧ "e stop".toList ≠ [] ∧
    occurs "e stop".toList "the stop".toList = true ∧
    ¬ containsPhrase "the stop".toList "e stop".toList = true := by
  have ht : IsSpaced "the stop".toList := isSpaced_iff.mpr (by decide)
  have hk : IsSpaced "e stop".toList := isSpaced_iff.mpr (by decide)
  have htext : words "the stop".toList = ["the".toList, "stop".toList] := by decide
  have hphrase : words "e stop".toList = ["e".toList, "stop".toList] := by decide
  refine ⟨ht, hk, by decide, by decide, ?_⟩
  rw [containsPhrase_iff_of_isSpaced ht hk (by decide), htext, hphrase]
  decide

end Teleop.Text
