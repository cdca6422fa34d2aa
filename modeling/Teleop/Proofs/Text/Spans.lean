import Teleop.Text.Blank
import Teleop.Text.WordChar

/-!
# Laws of character sets given by spans

Membership in spans that ascend is membership in one of them, and spans whose ends are apart share no
code point. Both are read off the ends, so one pass over two tables compares two character sets.
-/

namespace Teleop.Text

namespace Spans

theorem has_eq_false {spans : Spans} {n : Nat} (h : ∀ s ∈ spans, n < s.1 ∨ s.2 < n) :
    spans.has n = false := by
  induction spans with
  | nil => rfl
  | cons s rest ih =>
    have hs := h s List.mem_cons_self
    simp only [has, ih fun t ht => h t (List.mem_cons_of_mem _ ht), Bool.or_false,
      Bool.and_eq_false_imp, decide_eq_true_eq, decide_eq_false_iff_not]
    omega

theorem exists_of_has {spans : Spans} {n : Nat} (h : spans.has n = true) :
    ∃ s ∈ spans, s.1 ≤ n ∧ n ≤ s.2 := by
  induction spans with
  | nil => simp [has] at h
  | cons s rest ih =>
    simp only [has, Bool.and_eq_true, Bool.or_eq_true, decide_eq_true_eq] at h
    obtain ⟨hlow, hhigh | hrest⟩ := h
    · exact ⟨s, List.mem_cons_self, hlow, hhigh⟩
    · obtain ⟨t, ht, hin⟩ := ih hrest
      exact ⟨t, List.mem_cons_of_mem _ ht, hin⟩

/-- The first span of ascending spans ends before all others begin. -/
theorem lt_of_ascending {s t : Nat × Nat} {rest : Spans} (h : ascending (s :: rest) = true)
    (ht : t ∈ rest) : s.2 < t.1 := by
  induction rest generalizing s with
  | nil => simp at ht
  | cons u rest ih =>
    simp only [ascending, Bool.and_eq_true, decide_eq_true_eq] at h
    obtain ⟨⟨-, hsu⟩, hrest⟩ := h
    have hu : u.1 ≤ u.2 := by
      cases rest with
      | nil => simpa [ascending] using hrest
      | cons v rest =>
        simp only [ascending, Bool.and_eq_true, decide_eq_true_eq] at hrest
        exact hrest.1.1
    rcases List.mem_cons.mp ht with rfl | ht
    · exact hsu
    · have := ih hrest ht
      omega

theorem ascending_tail {s : Nat × Nat} {rest : Spans} (h : ascending (s :: rest) = true) :
    ascending rest = true := by
  cases rest with
  | nil => rfl
  | cons t rest =>
    simp only [ascending, Bool.and_eq_true] at h
    exact h.2

theorem first_le_last {s : Nat × Nat} {rest : Spans} (h : ascending (s :: rest) = true) :
    s.1 ≤ s.2 := by
  cases rest with
  | nil => simpa [ascending] using h
  | cons t rest =>
    simp only [ascending, Bool.and_eq_true, decide_eq_true_eq] at h
    exact h.1.1

theorem has_of_mem {spans : Spans} (h : spans.ascending = true) {s : Nat × Nat} (hs : s ∈ spans)
    {n : Nat} (hlow : s.1 ≤ n) (hhigh : n ≤ s.2) : spans.has n = true := by
  induction spans with
  | nil => simp at hs
  | cons t rest ih =>
    simp only [has, Bool.and_eq_true, Bool.or_eq_true, decide_eq_true_eq]
    rcases List.mem_cons.mp hs with rfl | hs
    · exact ⟨hlow, Or.inl hhigh⟩
    · have hbelow := lt_of_ascending h hs
      have hends := first_le_last h
      exact ⟨by omega, Or.inr (ih (ascending_tail h) hs)⟩

/-- Each span of the first set ends before or begins behind each span of the second. -/
def apart (a b : Spans) : Bool :=
  a.all fun s => b.all fun t => Nat.ble (s.2 + 1) t.1 || Nat.ble (t.2 + 1) s.1

theorem has_eq_false_of_apart {a b : Spans} (h : apart a b = true) {n : Nat}
    (ha : a.has n = true) : b.has n = false := by
  obtain ⟨s, hs, hlow, hhigh⟩ := exists_of_has ha
  apply has_eq_false
  intro t ht
  have hst := List.all_eq_true.mp (List.all_eq_true.mp h s hs) t ht
  simp only [Bool.or_eq_true, Nat.ble_eq] at hst
  omega

end Spans

/-! ## Blanks are no part of words -/

def wordSpans : List Spans :=
  [alphabeticSpans, decimalDigitSpans, otherNumberSpans, connectorSpans, otherMarkSpans,
    joinControlSpans]

theorem blankSpans_apart : ∀ spans ∈ wordSpans, blankSpans.apart spans = true := by
  decide +kernel

theorem has_eq_false_of_isBlank {c : Char} (h : isBlank c = true) {spans : Spans}
    (hspans : spans ∈ wordSpans) : spans.has c.toNat = false :=
  Spans.has_eq_false_of_apart (blankSpans_apart spans hspans) h

theorem isAlphanumeric_of_isBlank {c : Char} (h : isBlank c = true) :
    isAlphanumeric c = false := by
  have hapart : ∀ spans ∈ wordSpans, spans.has c.toNat = false :=
    fun _ => has_eq_false_of_isBlank h
  simp only [wordSpans, List.forall_mem_cons] at hapart
  obtain ⟨hletters, hdigits, hnumbers, -⟩ := hapart
  simp only [isAlphanumeric, isAlphabetic, isDecimalDigit, hletters, hdigits, hnumbers,
    Bool.or_false]

theorem isWordChar_of_isBlank {c : Char} (h : isBlank c = true) : isWordChar c = false := by
  have hapart : ∀ spans ∈ wordSpans, spans.has c.toNat = false :=
    fun _ => has_eq_false_of_isBlank h
  simp only [wordSpans, List.forall_mem_cons] at hapart
  obtain ⟨hletters, hdigits, -, hconnectors, hmarks, hjoins, -⟩ := hapart
  simp only [isWordChar, isAlphabetic, isDecimalDigit, hletters, hdigits, hconnectors, hmarks,
    hjoins, Bool.or_false]

theorem isAlphabetic_of_mem {s : Nat × Nat} (hs : s ∈ alphabeticSpans) {c : Char}
    (hlow : s.1 ≤ c.toNat) (hhigh : c.toNat ≤ s.2) : isAlphabetic c = true :=
  Spans.has_of_mem (by decide +kernel) hs hlow hhigh

end Teleop.Text
