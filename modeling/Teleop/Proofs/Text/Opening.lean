import Teleop.Proofs.Text.Numbered
import Teleop.Proofs.Text.Slice
import Teleop.Proofs.Text.Spelling
import Teleop.Proofs.Text.Words

/-!
# Texts of words that no pattern begins

A pattern that begins with a letter is recognised only where a word opens. In words that are parted by
spaces and have signs at most behind their letters, a word opens exactly where one of the words stands
(`exists_word_of_opening`). So a pattern is recognised nowhere in the text if it disagrees with each of the
words and a space behind it (`startsWithLetters_of_misses`), and that is seen word by word, whatever the
text is. A number is missed by every pattern without digits.
-/

namespace Teleop.Text

open Numeric

/-! ## Where words open -/

section Opening

variable {ws : List (List Char)} {u p s w : List Char} {c : Char}

/-- Whether each character of a word that is part of a word stands at its head or behind another one. -/
def goesOn : List Char → Bool
  | c :: d :: rest => (isWordChar c || !isWordChar d) && goesOn (d :: rest)
  | _ => true

theorem goesOn_append (hu : ∀ c ∈ u, isWordChar c = true) (hs : ∀ c ∈ s, isWordChar c = false) :
    goesOn (u ++ s) = true := by
  have hsigns : ∀ s : List Char, (∀ c ∈ s, isWordChar c = false) → goesOn s = true := by
    intro s hs
    induction s with
    | nil => rfl
    | cons c s ih =>
      cases s with
      | nil => rfl
      | cons d s =>
        rw [goesOn, hs d (List.mem_cons_of_mem _ List.mem_cons_self),
          ih fun c hc => hs c (List.mem_cons_of_mem _ hc), Bool.not_false, Bool.or_true, Bool.and_true]
  induction u with
  | nil => exact hsigns s hs
  | cons c u ih =>
    have hrest := ih fun c hc => hu c (List.mem_cons_of_mem _ hc)
    rw [List.cons_append]
    cases htail : u ++ s with
    | nil => rfl
    | cons d rest =>
      rw [htail] at hrest
      rw [goesOn, hu c List.mem_cons_self, hrest, Bool.true_or, Bool.and_true]

/-- A word does not open inside a word. -/
theorem eq_nil_of_goesOn (h : goesOn (p ++ c :: s) = true) (hc : isWordChar c = true)
    (hp : p.getLast?.any isWordChar = false) : p = [] := by
  induction p with
  | nil => rfl
  | cons b p ih =>
    cases p with
    | nil =>
      rw [List.getLast?_singleton, Option.any_some] at hp
      rw [List.singleton_append, goesOn, hp, hc] at h
      exact Bool.noConfusion h
    | cons d p =>
      rw [List.cons_append, List.cons_append, goesOn, Bool.and_eq_true] at h
      rw [List.getLast?_cons_cons] at hp
      exact absurd (ih h.2 hp) (List.cons_ne_nil d p)

/-- Where a word opens in a text of words, one of them stands, up to the end or a space. -/
theorem exists_word_of_opening (hws : ∀ u ∈ ws, goesOn u = true) (hsplit : unwords ws = p ++ c :: s)
    (hc : isWordChar c = true) (hp : p.getLast?.any isWordChar = false) :
    ∃ u ∈ ws, c :: s = u ∨ ∃ rest, c :: s = u ++ ' ' :: rest := by
  induction ws generalizing p with
  | nil => simp [unwords_nil] at hsplit
  | cons u ws ih =>
    have hu := hws u List.mem_cons_self
    by_cases hnil : ws = []
    · rw [hnil, unwords_singleton] at hsplit
      rw [hsplit] at hu
      obtain rfl := eq_nil_of_goesOn hu hc hp
      exact ⟨u, List.mem_cons_self, Or.inl hsplit.symm⟩
    · rw [unwords_cons u hnil] at hsplit
      rcases Nat.lt_or_ge u.length p.length with hlater | hwithin
      · obtain ⟨p', rfl, hrest⟩ := exists_append_of_length_le hsplit (Nat.le_of_lt hlater)
        cases p' with
        | nil => simp at hlater
        | cons b p' =>
          rw [List.cons_append] at hrest
          obtain ⟨rfl, hbehind⟩ := List.cons.inj hrest
          have hp' : p'.getLast?.any isWordChar = false := by
            cases p' with
            | nil => rfl
            | cons d p' =>
              rwa [getLast?_append_of_ne_nil (List.cons_ne_nil _ _), List.getLast?_cons_cons] at hp
          obtain ⟨v, hv, hword⟩ := ih (fun v hv => hws v (List.mem_cons_of_mem _ hv)) hbehind hp'
          exact ⟨v, List.mem_cons_of_mem _ hv, hword⟩
      · obtain ⟨u', rfl, hrest⟩ := exists_append_of_length_le hsplit.symm hwithin
        cases u' with
        | nil =>
          obtain ⟨rfl, -⟩ := List.cons.inj hrest
          exact absurd hc (by decide)
        | cons d u' =>
          obtain ⟨rfl, -⟩ := List.cons.inj hrest
          obtain rfl := eq_nil_of_goesOn hu hc hp
          exact ⟨_, List.mem_cons_self, Or.inr ⟨_, hrest⟩⟩

end Opening

/-! ## Patterns that miss words -/

section Misses

variable {ws : List (List Char)} {u w p s digits : List Char}

/-- A pattern is recognised nowhere at the head of a word and a space. -/
def Misses (w u : List Char) : Prop :=
  ∀ rest, startsWithLetters w (u ++ ' ' :: rest) = false

theorem misses_of_agree (hw : isPlain w = true) (hu : isPlain u = true)
    (h : agree w (u ++ [' ']) = false) : Misses w u := by
  intro rest
  have hplain : isPlain (u ++ [' ']) = true := by
    rw [isPlain, List.all_append, Bool.and_eq_true]
    exact ⟨hu, by decide⟩
  cases hstarts : startsWithLetters w (u ++ ' ' :: rest) with
  | false => rfl
  | true =>
    rw [← List.singleton_append, ← List.append_assoc] at hstarts
    rw [agree_of_startsWithLetters hw hplain hstarts] at h
    exact Bool.noConfusion h

/-- A number is missed by a pattern without digits, also with signs behind it. -/
theorem misses_digits (hw : IsDigitless w) (hne : w ≠ []) (hdigits : IsDigits digits) (mark : List Char) :
    Misses w (digits ++ mark) := by
  intro rest
  obtain ⟨d, x, rfl, hd⟩ := hdigits.exists_head
  rw [List.cons_append, List.cons_append]
  exact startsWithLetters_digit hw hne hd

theorem startsWithLetters_append {text : List Char} (h : startsWithLetters w text = true)
    (rest : List Char) : startsWithLetters w (text ++ rest) = true := by
  induction w generalizing text with
  | nil => rfl
  | cons l w ih =>
    cases text with
    | nil => simp [startsWithLetters] at h
    | cons c text =>
      rw [startsWithLetters, Bool.and_eq_true] at h
      rw [List.cons_append, startsWithLetters, h.1, ih h.2, Bool.and_self]

/-- A pattern that begins with a letter and misses all words of a text is nowhere in it. -/
theorem startsWithLetters_of_misses (hws : ∀ u ∈ ws, goesOn u = true)
    (hletter : w.head?.any Lexicon.isTableLetter = true) (hmisses : ∀ u ∈ ws, Misses w u)
    (hsplit : unwords ws = p ++ s) (hopen : isBoundary p.getLast? s.head? = true) :
    startsWithLetters w s = false := by
  cases hstarts : startsWithLetters w s with
  | false => rfl
  | true =>
    cases w with
    | nil => simp at hletter
    | cons l w =>
      cases s with
      | nil => simp [startsWithLetters] at hstarts
      | cons c s =>
        rw [List.head?_cons, Option.any_some] at hletter
        have hsame := hstarts
        rw [startsWithLetters, Bool.and_eq_true] at hsame
        have hc := (isLetterForm_of_sameLetter hletter hsame.1).2
        have hp : p.getLast?.any isWordChar = false := by
          rw [isBoundary, List.head?_cons, Option.any_some, hc] at hopen
          simpa using hopen
        obtain ⟨u, hu, hword | ⟨rest, hword⟩⟩ := exists_word_of_opening hws hsplit hc hp
        · have hspaced := startsWithLetters_append hstarts [' ']
          rw [hword, hmisses u hu] at hspaced
          exact Bool.noConfusion hspaced
        · rw [hword, hmisses u hu] at hstarts
          exact Bool.noConfusion hstarts

theorem isWordAt_of_misses (hws : ∀ u ∈ ws, goesOn u = true)
    (hletter : w.head?.any Lexicon.isTableLetter = true) (hmisses : ∀ u ∈ ws, Misses w u)
    (hsplit : unwords ws = p ++ s) : isWordAt p.getLast? s w = false := by
  cases hopen : isBoundary p.getLast? s.head? with
  | false => rw [isWordAt, hopen, Bool.false_and, Bool.false_and]
  | true =>
    rw [isWordAt, startsWithLetters_of_misses hws hletter hmisses hsplit hopen, Bool.and_false,
      Bool.false_and]

end Misses

/-! ## Spoken texts -/

/-- Words of a text that is its own collapsed form, in each of which the letters stand in front. -/
structure IsSpoken (ws : List (List Char)) : Prop where
  ne_nil : ws ≠ []
  words : AreWords ws
  opening : ∀ u ∈ ws, goesOn u = true
  settled : ∀ u ∈ ws, ∀ c ∈ u, IsSettled c

theorem IsSpoken.isCollapsed {ws : List (List Char)} (h : IsSpoken ws) : IsCollapsed (unwords ws) where
  spaced := spacing_unwords h.words h.ne_nil true
  settled := by
    intro c hc
    rcases mem_unwords hc with rfl | ⟨u, hu, hcu⟩
    · exact ⟨by decide, by decide, by decide⟩
    · exact h.settled u hu c hcu

end Teleop.Text
