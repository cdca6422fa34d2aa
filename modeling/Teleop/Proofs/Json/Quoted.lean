import Teleop.Json.Quoted

/-!
# Quoting a text and reading it back

The escapes that are written are read, and no other: a text that is written between quotes ends at the
closing quote (`takeQuoted?_escape`) and denotes the text it was made of (`unescape?_escape`).
-/

namespace Teleop.Json

/-- How a character is written: by a letter, by its code, or as itself. -/
theorem escapeChar_cases (c : Char) :
    (∃ letter, escapeChar c = ['\\', letter] ∧ letter ≠ 'u' ∧ shortEscape? letter = some c) ∨
    (∃ high low, escapeChar c = ['\\', 'u', '0', '0', high, low] ∧
      codeUnit? '0' '0' high low = some c.toNat) ∨
    (escapeChar c = [c] ∧ c ≠ '"' ∧ c ≠ '\\' ∧ ¬ c.toNat < 0x20) := by
  have hletters : ∀ p ∈ shortEscapes, p.1 ≠ 'u' ∧ shortEscape? p.1 = some p.2 := by decide
  have hcodes : ∀ code < 0x20, codeUnit? '0' '0' (hexDigits[code / 16]?.getD '0')
      (hexDigits[code % 16]?.getD '0') = some code := by decide
  cases hfind : shortEscapes.find? (·.2 = c) with
  | some p =>
    obtain ⟨hnotCode, hshort⟩ := hletters p (List.mem_of_find?_eq_some hfind)
    have hc : p.2 = c := by simpa using List.find?_some hfind
    refine Or.inl ⟨p.1, ?_, hnotCode, by rw [hshort, hc]⟩
    rw [escapeChar, hfind]
  | none =>
    have hothers := List.find?_eq_none.mp hfind
    by_cases hcontrol : c.toNat < 0x20
    · refine Or.inr (Or.inl ⟨_, _, ?_, hcodes c.toNat hcontrol⟩)
      simp only [escapeChar, hfind, if_pos hcontrol]
    · refine Or.inr (Or.inr ⟨?_, ?_, ?_, hcontrol⟩)
      · simp only [escapeChar, hfind, if_neg hcontrol]
      · rintro rfl
        exact hothers ('"', '"') (by decide) (by decide)
      · rintro rfl
        exact hothers ('\\', '\\') (by decide) (by decide)

/-! ## The closing quote -/

theorem takeQuoted?_escapeChar (c : Char) (rest : List Char) :
    takeQuoted? (escapeChar c ++ rest) =
      (takeQuoted? rest).map fun (text, behind) => (escapeChar c ++ text, behind) := by
  rcases escapeChar_cases c with
    ⟨letter, hc, hnotCode, hshort⟩ | ⟨high, low, hc, hcode⟩ | ⟨hc, hquote, hslash, hcontrol⟩
  all_goals
    rw [hc]
    conv => lhs; rw [List.cons_append, takeQuoted?.eq_def]
  · simp [hnotCode, hshort]
  · simp [hcode]
  · simp [hquote, hslash, hcontrol]

/-- What is written between quotes ends at the closing quote. -/
theorem takeQuoted?_escape (text behind : List Char) :
    takeQuoted? (escape text ++ '"' :: behind) = some (escape text, behind) := by
  induction text with
  | nil =>
    rw [escape, List.flatMap_nil, List.nil_append, takeQuoted?.eq_def]
    rfl
  | cons c rest ih =>
    rw [escape, List.flatMap_cons, List.append_assoc, takeQuoted?_escapeChar, ← escape, ih]
    rfl

/-! ## The meaning -/

theorem codes?_escapeChar (c : Char) (rest : List Char) :
    codes? (escapeChar c ++ rest) = (codes? rest).map (c.toNat :: ·) := by
  rcases escapeChar_cases c with
    ⟨letter, hc, hnotCode, hshort⟩ | ⟨high, low, hc, hcode⟩ | ⟨hc, hquote, hslash, hcontrol⟩
  all_goals
    rw [hc]
    conv => lhs; rw [List.cons_append, codes?.eq_def]
  · cases hrest : codes? rest <;> simp [hnotCode, hshort, hrest]
  · cases hrest : codes? rest <;> simp [hcode, hrest]
  · simp [hslash]

theorem codes?_escape (text : List Char) : codes? (escape text) = some (text.map Char.toNat) := by
  induction text with
  | nil => rfl
  | cons c rest ih =>
    rw [escape, List.flatMap_cons, codes?_escapeChar, ← escape, ih]
    rfl

/-- No character is half of a pair. -/
theorem not_half (c : Char) : isHighHalf c.toNat = false ∧ isLowHalf c.toNat = false := by
  have hvalid : c.toNat < 0xD800 ∨ 0xDFFF < c.toNat ∧ c.toNat < 0x110000 := c.valid
  simp only [isHighHalf, isLowHalf, Bool.and_eq_false_iff, decide_eq_false_iff_not]
  omega

theorem ofCodes?_toNat (text : List Char) : ofCodes? (text.map Char.toNat) = some text := by
  induction text with
  | nil => rfl
  | cons c rest ih =>
    obtain ⟨hhigh, hlow⟩ := not_half c
    rw [List.map_cons, ofCodes?.eq_def]
    simp [hhigh, hlow, ih]

/-- What is written between quotes denotes the text it was made of. -/
theorem unescape?_escape (text : List Char) : unescape? (escape text) = some text := by
  rw [unescape?, codes?_escape, Option.bind_some, ofCodes?_toNat]

end Teleop.Json
