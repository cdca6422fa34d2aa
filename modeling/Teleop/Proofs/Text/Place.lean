import Teleop.Proofs.Text.Scan

/-!
# Places of a scanned text

A place of a scanned text lies between two pieces, where the recogniser was asked, or inside an occurrence
(`exists_place`). So what is recognised at a place is lost only to an occurrence that begins in front of it.
-/

namespace Teleop.Text

variable {α : Type} {r : Recogniser α} {before : Option Char} {text a b : List Char}
  {ps P Q : List (Piece α)}

theorem exists_place (h : textOf ps = a ++ b) :
    (∃ P Q, ps = P ++ Q ∧ textOf P = a ∧ textOf Q = b) ∨
    ∃ P value m n Q, ps = P ++ .found value (m ++ n) :: Q ∧ m ≠ [] ∧ n ≠ [] ∧ a = textOf P ++ m ∧
      b = n ++ textOf Q := by
  induction ps generalizing a with
  | nil =>
    obtain ⟨rfl, rfl⟩ := List.append_eq_nil_iff.mp h.symm
    exact Or.inl ⟨[], [], rfl, rfl, rfl⟩
  | cons p ps ih =>
    by_cases ha : a = []
    · subst ha
      exact Or.inl ⟨[], p :: ps, rfl, rfl, h⟩
    rw [textOf_cons] at h
    rcases Nat.lt_or_ge a.length p.chars.length with hinside | hbehind
    · right
      obtain ⟨n, hchars, rfl⟩ := exists_append_of_length_le h.symm (Nat.le_of_lt hinside)
      have hn : n ≠ [] := by
        rintro rfl
        rw [hchars, List.append_nil] at hinside
        exact Nat.lt_irrefl _ hinside
      cases p with
      | plain c =>
        have hlength := congrArg List.length hchars
        rw [Piece.chars, List.length_singleton, List.length_append] at hlength
        have := List.length_pos_iff.mpr ha
        have := List.length_pos_iff.mpr hn
        omega
      | found value m =>
        rw [Piece.chars] at hchars
        subst hchars
        exact ⟨[], value, a, n, ps, rfl, ha, hn, rfl, rfl⟩
    · obtain ⟨a', rfl, hrest⟩ := exists_append_of_length_le h hbehind
      rcases ih hrest with ⟨P, Q, rfl, rfl, hQ⟩ | ⟨P, value, m, n, Q, rfl, hm, hn, rfl, hb⟩
      · exact Or.inl ⟨p :: P, Q, rfl, rfl, hQ⟩
      · exact Or.inr ⟨p :: P, value, m, n, Q, rfl, hm, hn, (List.append_assoc ..).symm, hb⟩

namespace Scanned

/-- What is recognised between two pieces is the next piece. -/
theorem found_of_taken (hr : r.IsBounded) (h : Scanned r before text (P ++ Q)) {value : α} {n : Nat}
    (htaken : r ((textOf P).getLast?.or before) (textOf Q) = some (value, n)) :
    ∃ m R, Q = .found value m :: R ∧ m.length = n := by
  have hs := h.suffix
  generalize ht : textOf Q = t at hs htaken
  cases hs with
  | nil =>
    obtain ⟨hpos, hle⟩ := hr _ _ _ _ htaken
    exact absurd hpos (Nat.not_lt.mpr hle)
  | plain missed _ =>
    rw [missed] at htaken
    simp at htaken
  | @found _ value' m _ R _ taken _ =>
    rw [taken] at htaken
    obtain ⟨rfl, rfl⟩ := Prod.mk.inj (Option.some.inj htaken)
    exact ⟨m, R, rfl, rfl⟩

/-- Where nothing is found, nothing is recognised at any place. -/
theorem missed_of_values (hr : r.IsBounded) (h : Scanned r before (a ++ b) ps)
    (hnone : ps.filterMap Piece.value? = []) : r (a.getLast?.or before) b = none := by
  rw [List.filterMap_eq_nil_iff] at hnone
  rcases exists_place h.textOf_eq with ⟨P, Q, rfl, rfl, rfl⟩ | ⟨P, value, m, n, Q, rfl, -⟩
  · cases htaken : r ((textOf P).getLast?.or before) (textOf Q) with
    | none => rfl
    | some taken =>
      obtain ⟨m, R, rfl, -⟩ := h.found_of_taken hr htaken
      have hvalue := hnone (.found taken.1 m) (by simp)
      simp [Piece.value?] at hvalue
  · have hvalue := hnone (.found value (m ++ n)) (by simp)
    simp [Piece.value?] at hvalue

/-- Two recognisers that agree at each place of a text find the same in it. -/
theorem congr_places {r' : Recogniser α} (hplaces : ∀ p s, text = p ++ s → s ≠ [] →
      r (p.getLast?.or before) s = r' (p.getLast?.or before) s)
    (h : Scanned r before text ps) : Scanned r' before text ps := by
  induction h with
  | nil => exact .nil
  | @plain before c rest ps missed _ ih =>
    refine .plain ?_ (ih fun p s hsplit hs => ?_)
    · exact (hplaces [] (c :: rest) rfl (List.cons_ne_nil _ _)).symm.trans missed
    · rw [← getLast?_cons_or]
      exact hplaces (c :: p) s (by rw [hsplit]; rfl) hs
  | @found before value m rest ps hne taken _ ih =>
    have hsome := List.getLast?_eq_some_getLast hne
    refine .found hne ?_ (ih fun p s hsplit hs => ?_)
    · exact (hplaces [] (m ++ rest) rfl (by simp [hne])).symm.trans taken
    · have hthere := hplaces (m ++ p) s (by rw [hsplit, List.append_assoc]) hs
      rwa [List.getLast?_append, Option.or_assoc, hsome, Option.some_or, ← hsome] at hthere

end Scanned

end Teleop.Text
