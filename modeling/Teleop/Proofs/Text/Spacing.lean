import Teleop.Proofs.Text.Words

/-!
# Collapsed texts, character by character

A machine with two states reads a text from left to right and accepts it if its words have one space
between each two and none at the ends. So a part of a collapsed text can be exchanged for another
without looking at the words around it: what counts is the state in which each leaves the machine. A text
that the machine accepts is put together again from its words (`isSpaced_iff`).
-/

namespace Teleop.Text

/-- Reads a text behind a blank or behind something else; the last character read decides the state.
A blank other than the space, and a blank behind a blank, is refused. -/
def spacing : Bool → List Char → Option Bool
  | afterBlank, [] => some afterBlank
  | afterBlank, c :: rest =>
    if isBlank c then if c = ' ' && !afterBlank then spacing true rest else none
    else spacing false rest

theorem spacing_append (afterBlank : Bool) (s t : List Char) :
    spacing afterBlank (s ++ t) = (spacing afterBlank s).bind (spacing · t) := by
  induction s generalizing afterBlank with
  | nil => rfl
  | cons c s ih =>
    rw [List.cons_append, spacing, spacing]
    split
    · split
      · exact ih true
      · rfl
    · exact ih false

theorem spacing_of_unbroken {w : List Char} (hne : w ≠ []) (hw : ∀ c ∈ w, isBlank c = false)
    (afterBlank : Bool) : spacing afterBlank w = some false := by
  induction w generalizing afterBlank with
  | nil => exact absurd rfl hne
  | cons c w ih =>
    rw [spacing, if_neg (by simp [hw c List.mem_cons_self])]
    by_cases hnil : w = []
    · rw [hnil, spacing]
    · exact ih hnil (fun d hd => hw d (List.mem_cons_of_mem _ hd)) false

theorem spacing_unwords {ws : List (List Char)} (h : AreWords ws) (hne : ws ≠ [])
    (afterBlank : Bool) : spacing afterBlank (unwords ws) = some false := by
  induction ws generalizing afterBlank with
  | nil => exact absurd rfl hne
  | cons w ws ih =>
    obtain ⟨hw, hblank⟩ := h w List.mem_cons_self
    by_cases hws : ws = []
    · rw [hws, unwords_singleton, spacing_of_unbroken hw hblank]
    · have hrest := ih (fun v hv => h v (List.mem_cons_of_mem _ hv)) hws true
      have hspace : isBlank ' ' = true := by decide
      rw [unwords_cons w hws, spacing_append, spacing_of_unbroken hw hblank, Option.bind_some,
        spacing, if_pos hspace, if_pos (by simp), hrest]

/-- What begins and ends with words is accepted in either state. -/
theorem spacing_false {t : List Char} (h : spacing true t = some false) :
    spacing false t = some false := by
  cases t with
  | nil => simp [spacing] at h
  | cons c t =>
    rw [spacing] at h ⊢
    split at h
    · simp at h
    · rename_i hc
      rwa [if_neg hc]

theorem spacing_any {t : List Char} (h : spacing true t = some false) (afterBlank : Bool) :
    spacing afterBlank t = some false := by
  cases afterBlank with
  | true => exact h
  | false => exact spacing_false h

/-- Every blank of an accepted text is a space. -/
theorem eq_space_of_spacing {t : List Char} {afterBlank b : Bool}
    (h : spacing afterBlank t = some b) : ∀ c ∈ t, isBlank c = true → c = ' ' := by
  induction t generalizing afterBlank with
  | nil => simp
  | cons d t ih =>
    intro c hc hblank
    rw [spacing] at h
    split at h
    · split at h
      · rename_i hspace
        rcases List.mem_cons.mp hc with rfl | hc
        · simp only [Bool.and_eq_true, decide_eq_true_eq] at hspace
          exact hspace.1
        · exact ih h c hc hblank
      · simp at h
    · rename_i hd
      rcases List.mem_cons.mp hc with rfl | hc
      · exact absurd hblank hd
      · exact ih h c hc hblank

/-- Two texts with spaces at the same places are read alike. -/
theorem spacing_congr {s t : List Char} (hlength : s.length = t.length)
    (hspace : ∀ (k : Nat) (c d : Char), s[k]? = some c → t[k]? = some d →
      (c = ' ' ↔ d = ' ') ∧ (isBlank c = true → c = ' ') ∧ (isBlank d = true → d = ' '))
    (afterBlank : Bool) : spacing afterBlank s = spacing afterBlank t := by
  induction s generalizing t afterBlank with
  | nil =>
    cases t with
    | nil => rfl
    | cons => simp at hlength
  | cons c s ih =>
    cases t with
    | nil => simp at hlength
    | cons d t =>
      obtain ⟨hiff, hc, hd⟩ := hspace 0 c d rfl rfl
      have hrest (b : Bool) := ih (by simpa using hlength)
        (fun k c' d' hc' hd' => hspace (k + 1) c' d' (by simpa using hc') (by simpa using hd')) b
      have hblank : isBlank c = isBlank d := by
        rw [Bool.eq_iff_iff]
        constructor
        · intro h
          rw [hiff.mp (hc h)]
          decide
        · intro h
          rw [hiff.mpr (hd h)]
          decide
      simp only [spacing, hblank, hiff, hrest]

theorem unwords_words_of_spacing {t : List Char} (h : spacing true t = some false) :
    unwords (words t) = t := by
  -- on the length, since a step takes a whole word and the space behind it
  obtain ⟨n, hn⟩ : ∃ n, t.length = n := ⟨_, rfl⟩
  induction n using Nat.strongRecOn generalizing t with
  | ind n ih =>
    obtain ⟨s, rest, rfl, hs, hrest⟩ := exists_span_blank t
    by_cases hne : s = []
    · subst hne
      rcases hrest with rfl | ⟨c, r, rfl, hc⟩
      · simp [spacing] at h
      · simp [spacing, hc] at h
    · rw [spacing_append, spacing_of_unbroken hne hs, Option.bind_some] at h
      rcases hrest with rfl | ⟨c, r, rfl, hc⟩
      · rw [List.append_nil, words_of_unbroken hne hs, unwords_singleton]
      · rw [spacing, if_pos hc] at h
        split at h
        · rename_i hspace
          simp only [Bool.not_false, Bool.and_true, decide_eq_true_eq] at hspace
          subst hspace
          have hr := ih r.length (by simp at hn; omega) h rfl
          have hwords : words r ≠ [] := by
            intro hnil
            rw [hnil, unwords_nil] at hr
            rw [← hr, spacing] at h
            exact absurd h (by simp)
          rw [words_append_blank hc, words_of_unbroken hne hs, List.singleton_append,
            unwords_cons s hwords, hr]
        · exact absurd h (by simp)

/-- Words with a single space between each two: no other blank stands in the text, none stands at its ends,
and no two stand together. -/
structure IsSpaced (t : List Char) : Prop where
  spaces : ∀ c ∈ t, isBlank c = true → c = ' '
  begins : BeginsSolid t
  ends : EndsSolid t
  single : ¬ [' ', ' '] <:+: t

/-- The machine of spaces accepts a text of this kind, unless it is empty. -/
theorem spacing_of_single {t : List Char} (hspaces : ∀ c ∈ t, isBlank c = true → c = ' ')
    (hends : EndsSolid t) (hsingle : ¬ [' ', ' '] <:+: t) (hne : t ≠ []) {afterBlank : Bool}
    (hbegins : afterBlank = true → BeginsSolid t) : spacing afterBlank t = some false := by
  induction t generalizing afterBlank with
  | nil => exact absurd rfl hne
  | cons c rest ih =>
    have hspaces' : ∀ d ∈ rest, isBlank d = true → d = ' ' :=
      fun d hd => hspaces d (List.mem_cons_of_mem _ hd)
    have hends' : EndsSolid rest := EndsSolid.of_append (p := [c]) hends
    have hsingle' : ¬ [' ', ' '] <:+: rest := fun h => hsingle (List.infix_cons h)
    cases hc : isBlank c with
    | true =>
      obtain rfl := hspaces c List.mem_cons_self hc
      have hbehind : afterBlank = false := by
        rw [← Bool.not_eq_true]
        intro hafter
        rw [hbegins hafter ' ' rfl] at hc
        exact Bool.noConfusion hc
      have hmore : rest ≠ [] := by
        rintro rfl
        rw [hends ' ' rfl] at hc
        exact Bool.noConfusion hc
      have hsolid : BeginsSolid rest := by
        intro d hd
        rw [← Bool.not_eq_true]
        intro hblank
        obtain rfl := hspaces' d (List.mem_of_head? hd) hblank
        obtain ⟨tail, rfl⟩ := List.head?_eq_some_iff.mp hd
        exact hsingle ⟨[], tail, rfl⟩
      rw [spacing, if_pos hc, hbehind, if_pos (by simp)]
      exact ih hspaces' hends' hsingle' hmore fun _ => hsolid
    | false =>
      rw [spacing, if_neg (by simp [hc])]
      by_cases hmore : rest = []
      · rw [hmore, spacing]
      · exact ih hspaces' hends' hsingle' hmore nofun

/-- A text has single spaces between its words exactly if it is put together again from its words. -/
theorem isSpaced_iff {t : List Char} : IsSpaced t ↔ unwords (words t) = t := by
  constructor
  · intro h
    by_cases hne : t = []
    · rw [hne, words_nil, unwords_nil]
    · exact unwords_words_of_spacing (spacing_of_single h.spaces h.ends h.single hne fun _ => h.begins)
  · intro h
    have hwords := areWords_words t
    refine ⟨fun c hc hblank => ?_, ?_, ?_, ?_⟩
    · rw [← h] at hc
      rcases mem_unwords hc with hspace | ⟨w, hw, hcw⟩
      · exact hspace
      · rw [(hwords w hw).2 c hcw] at hblank
        exact Bool.noConfusion hblank
    · rw [← h]
      exact beginsSolid_unwords hwords
    · rw [← h]
      exact endsSolid_unwords hwords
    · rintro ⟨a, b, hab⟩
      have hne : words t ≠ [] := by
        intro hnil
        rw [hnil, unwords_nil] at h
        rw [← h] at hab
        simp at hab
      have haccepted := spacing_unwords hwords hne true
      rw [h, ← hab, List.append_assoc, spacing_append, Option.bind_eq_some_iff] at haccepted
      obtain ⟨state, -, hrest⟩ := haccepted
      have hblank : isBlank ' ' = true := by decide
      simp [spacing, hblank] at hrest

structure IsCollapsed (t : List Char) : Prop where
  spaced : spacing true t = some false
  settled : ∀ c ∈ t, IsSettled c

theorem IsCollapsed.ne_nil {t : List Char} (h : IsCollapsed t) : t ≠ [] := by
  rintro rfl
  have := h.spaced
  simp [spacing] at this

/-- A part of a collapsed text is collapsed if it has no blanks at its ends. -/
theorem IsCollapsed.part {a c b : List Char} (h : IsCollapsed (a ++ (c ++ b))) (hne : c ≠ [])
    (hbegins : BeginsSolid c) (hends : EndsSolid c) : IsCollapsed c where
  spaced := by
    have hspaced := h.spaced
    rw [spacing_append, Option.bind_eq_some_iff] at hspaced
    obtain ⟨state, -, hrest⟩ := hspaced
    rw [spacing_append, Option.bind_eq_some_iff] at hrest
    obtain ⟨state', hpart, -⟩ := hrest
    have hfirst : spacing true c = spacing state c := by
      obtain ⟨d, c, rfl⟩ := List.exists_cons_of_ne_nil hne
      have hd := hbegins d rfl
      simp [spacing, hd]
    obtain ⟨init, d, rfl⟩ := (List.eq_nil_or_concat c).resolve_left hne
    rw [List.concat_eq_append] at hends hpart hfirst ⊢
    have hd : isBlank d = false := hends d (by simp)
    rw [hfirst, hpart]
    rw [spacing_append, Option.bind_eq_some_iff] at hpart
    obtain ⟨before, -, hlast⟩ := hpart
    rw [spacing_of_unbroken (by simp) (by simpa using hd)] at hlast
    exact hlast.symm
  settled d hd := h.settled d (List.mem_append_right _ (List.mem_append_left _ hd))

theorem IsCollapsed.collapse_eq {t : List Char} (h : IsCollapsed t) : collapse t = t := by
  rw [collapse, unwords_words_of_spacing h.spaced, lower_of_settled h.settled]

theorem isCollapsed_collapse {t : List Char} (h : words t ≠ []) : IsCollapsed (collapse t) where
  spaced := by
    rw [Text.collapse_eq]
    exact spacing_unwords (areWords_words t).map_lower (by simpa using h) true
  settled := fun _ => isSettled_of_mem_collapse

theorem isCollapsed_of_collapse {t : List Char} (h : collapse t = t) (hne : t ≠ []) :
    IsCollapsed t := by
  rw [← h]
  refine isCollapsed_collapse fun hnil => hne ?_
  rw [← h, collapse_eq_nil hnil]

end Teleop.Text
