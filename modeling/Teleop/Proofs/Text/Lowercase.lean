import Teleop.Proofs.Text.Spans
import Teleop.Text.Lowercase

/-!
# Laws of the lower-case mapping

A run of the table shifts its code points into a stretch that no run reaches into, so a second pass
over a lower-case text finds nothing to shift. The table is consulted once for each of these facts;
everything about texts below follows from them by induction on the text. The sigma rule is covered by
the statements; which of the two sigmas is chosen is not described here.
-/

namespace Teleop.Text

/-- A character that the lower-case mapping leaves as it is, wherever it stands. -/
structure IsSettled (c : Char) : Prop where
  fixed : simpleLower c = c
  ne_sigma : c ≠ 'Σ'
  ne_dotted : c ≠ 'İ'

def runTakes (run : Nat × Nat × Nat × Nat) (n : Nat) : Prop :=
  run.1 ≤ n ∧ n ≤ run.2.1 ∧ (n - run.1) % run.2.2.1 = 0

theorem shiftInRuns_eq_self {runs : List (Nat × Nat × Nat × Nat)} {n : Nat}
    (h : ∀ run ∈ runs, ¬ runTakes run n) : shiftInRuns runs n = n := by
  induction runs with
  | nil => rfl
  | cons run rest ih =>
    obtain ⟨first, last, step, target⟩ := run
    have hr := ih fun r hr => h r (List.mem_cons_of_mem _ hr)
    have hn := h _ List.mem_cons_self
    simp only [runTakes] at hn
    simp only [shiftInRuns, hr]
    split
    · rfl
    · split
      · rename_i hlt hin
        simp only [Bool.and_eq_true, decide_eq_true_eq, beq_iff_eq] at hin
        exact absurd ⟨by omega, hin.1, hin.2⟩ hn
      · rfl

/-- A code point is left alone or shifted by one of the runs. -/
theorem shiftInRuns_cases (runs : List (Nat × Nat × Nat × Nat)) (n : Nat) :
    shiftInRuns runs n = n ∨
      ∃ run ∈ runs, runTakes run n ∧ shiftInRuns runs n = run.2.2.2 + (n - run.1) := by
  induction runs with
  | nil => exact Or.inl rfl
  | cons run rest ih =>
    obtain ⟨first, last, step, target⟩ := run
    simp only [shiftInRuns]
    split
    · exact Or.inl rfl
    · split
      · rename_i hlt hin
        simp only [Bool.and_eq_true, decide_eq_true_eq, beq_iff_eq] at hin
        exact Or.inr ⟨_, List.mem_cons_self, ⟨by simp only; omega, hin.1, hin.2⟩, rfl⟩
      · rcases ih with h | ⟨run, hrun, htakes, h⟩
        · exact Or.inl h
        · exact Or.inr ⟨run, List.mem_cons_of_mem _ hrun, htakes, h⟩

/-! ## What the table says -/

/-- No image of the first run is taken by the second, read off the ends and the parities. -/
def runApart (r s : Nat × Nat × Nat × Nat) : Bool :=
  Nat.ble (r.2.2.2 + (r.2.1 - r.1) + 1) s.1 || (Nat.ble (s.2.1 + 1) r.2.2.2 ||
    ((Nat.beq r.1 r.2.1 || Nat.beq r.2.2.1 2) && Nat.beq s.2.2.1 2 &&
      Nat.beq ((r.2.2.2 + s.1) % 2) 1))

def runWithin (r : Nat × Nat × Nat × Nat) (first last : Nat) : Bool :=
  Nat.ble first r.2.2.2 && Nat.ble (r.2.2.2 + (r.2.1 - r.1)) last

theorem runs_apart : (lowercaseRuns.all fun r => lowercaseRuns.all (runApart r)) = true := by
  decide +kernel

/-- Images are characters, above the ASCII capitals, neither dotted capitals nor blank nor of the Arabic
script. -/
theorem runs_within : (lowercaseRuns.all fun r =>
    (runWithin r 0x61 0x12F || runWithin r 0x131 0x5FF || runWithin r 0x700 0xD7FF ||
        runWithin r 0xE000 0x10FFFF) &&
      blankSpans.all fun s => Nat.blt (r.2.2.2 + (r.2.1 - r.1)) s.1 || Nat.blt s.2 r.2.2.2) =
    true := by
  decide +kernel

theorem runApart_sound {r s : Nat × Nat × Nat × Nat} (h : runApart r s = true) {n : Nat}
    (hn : runTakes r n) : ¬ runTakes s (r.2.2.2 + (n - r.1)) := by
  obtain ⟨first, last, step, target⟩ := r
  obtain ⟨first', last', step', target'⟩ := s
  simp only [runTakes] at hn ⊢
  simp only [runApart, Bool.or_eq_true, Bool.and_eq_true, Nat.ble_eq, Nat.beq_eq] at h
  rintro ⟨hlow, hhigh, hstep⟩
  rcases h with h | h | ⟨⟨h | h, hs⟩, hp⟩
  · omega
  · omega
  · subst hs
    omega
  · subst h
    subst hs
    omega

theorem shiftInRuns_shiftInRuns (n : Nat) :
    shiftInRuns lowercaseRuns (shiftInRuns lowercaseRuns n) = shiftInRuns lowercaseRuns n := by
  rcases shiftInRuns_cases lowercaseRuns n with h | ⟨r, hr, htakes, h⟩
  · rw [h, h]
  · rw [h]
    apply shiftInRuns_eq_self
    intro s hs
    have hall := List.all_eq_true.mp (List.all_eq_true.mp runs_apart r hr) s hs
    exact runApart_sound hall htakes

/-- The image of a code point that a run takes. -/
theorem image_bounds {n : Nat} (h : shiftInRuns lowercaseRuns n ≠ n) :
    let m := shiftInRuns lowercaseRuns n
    0x61 ≤ m ∧ m ≠ 0x130 ∧ m.isValidChar ∧ (m < 0x600 ∨ 0x700 ≤ m) ∧ blankSpans.has m = false := by
  rcases shiftInRuns_cases lowercaseRuns n with he | ⟨r, hr, ⟨hlow, hhigh, -⟩, he⟩
  · exact absurd he h
  · have hall := List.all_eq_true.mp runs_within r hr
    simp only [Bool.and_eq_true, Bool.or_eq_true, List.all_eq_true, runWithin, Nat.ble_eq,
      Nat.blt_eq] at hall
    obtain ⟨hspan, hblank⟩ := hall
    refine ⟨by omega, by omega, ?_, by omega, ?_⟩
    · simp only [Nat.isValidChar]
      omega
    · apply Spans.has_eq_false
      intro s hs
      have := hblank s hs
      omega

/-! ## Characters -/

theorem toNat_ofNat_of_valid {n : Nat} (h : n.isValidChar) : (Char.ofNat n).toNat = n := by
  unfold Char.ofNat
  rw [dif_pos h]
  rfl

theorem toNat_simpleLower (c : Char) :
    (simpleLower c).toNat = shiftInRuns lowercaseRuns c.toNat := by
  apply toNat_ofNat_of_valid
  by_cases h : shiftInRuns lowercaseRuns c.toNat = c.toNat
  · rw [h]
    exact c.valid
  · exact (image_bounds h).2.2.1

theorem isSettled_simpleLower {c : Char} (hd : c ≠ 'İ') :
    IsSettled (simpleLower c) := by
  have htwice : simpleLower (simpleLower c) = simpleLower c := by
    rw [simpleLower, toNat_simpleLower, shiftInRuns_shiftInRuns]
    rfl
  refine ⟨htwice, ?_, ?_⟩
  · intro h
    have hsigma : simpleLower 'Σ' ≠ 'Σ' := by decide
    exact hsigma (h ▸ htwice)
  · intro h
    by_cases hfix : shiftInRuns lowercaseRuns c.toNat = c.toNat
    · apply hd
      rw [← h, simpleLower, hfix, Char.ofNat_toNat]
    · have himage := (image_bounds hfix).2.1
      rw [← toNat_simpleLower, h] at himage
      exact himage rfl

theorem isBlank_simpleLower (c : Char) : isBlank (simpleLower c) = isBlank c ∨
    isBlank (simpleLower c) = false := by
  by_cases h : shiftInRuns lowercaseRuns c.toNat = c.toNat
  · left
    rw [isBlank, toNat_simpleLower, h, isBlank]
  · right
    rw [isBlank, toNat_simpleLower]
    exact (image_bounds h).2.2.2.2

/-! ## Texts -/

/-- A character of a lower-case text: part of the form of a sigma or of a dotted capital, or the
lower-case character of a character of the text. -/
theorem mem_lowerFrom {afterCased : Bool} {d : Char} {text : List Char}
    (h : d ∈ lowerFrom afterCased text) :
    d ∈ ['ς', 'σ', 'i', '\u0307'] ∨ ∃ c ∈ text, c ≠ 'İ' ∧ d = simpleLower c := by
  induction text generalizing afterCased with
  | nil => simp [lowerFrom] at h
  | cons c rest ih =>
    rw [lowerFrom, List.mem_append] at h
    rcases h with h | h
    · unfold lowerAt at h
      split at h
      · left
        rw [List.mem_singleton] at h
        subst h
        split <;> decide
      · split at h
        · exact Or.inl (List.mem_cons_of_mem _ (List.mem_cons_of_mem _ h))
        · rename_i hdotted
          exact Or.inr ⟨c, List.mem_cons_self, hdotted, List.mem_singleton.mp h⟩
    · rcases ih h with hform | ⟨e, he, hlower⟩
      · exact Or.inl hform
      · exact Or.inr ⟨e, List.mem_cons_of_mem _ he, hlower⟩

theorem isSettled_of_mem_lower {d : Char} {text : List Char} (h : d ∈ lower text) :
    IsSettled d := by
  rcases mem_lowerFrom h with hform | ⟨c, -, hdotted, rfl⟩
  · simp only [List.mem_cons, List.not_mem_nil, or_false] at hform
    rcases hform with rfl | rfl | rfl | rfl <;> exact ⟨by decide, by decide, by decide⟩
  · exact isSettled_simpleLower hdotted

theorem lowerFrom_of_settled {afterCased : Bool} {text : List Char}
    (h : ∀ c ∈ text, IsSettled c) : lowerFrom afterCased text = text := by
  induction text generalizing afterCased with
  | nil => rfl
  | cons c rest ih =>
    have hc := h c List.mem_cons_self
    rw [lowerFrom, ih (fun d hd => h d (List.mem_cons_of_mem _ hd)), lowerAt, if_neg hc.ne_sigma,
      if_neg hc.ne_dotted, hc.fixed, List.singleton_append]

/-- A text of settled characters is its own lower-case form. -/
theorem lower_of_settled {text : List Char} (h : ∀ c ∈ text, IsSettled c) : lower text = text :=
  lowerFrom_of_settled h

theorem lower_lower (text : List Char) : lower (lower text) = lower text :=
  lower_of_settled fun _ h => isSettled_of_mem_lower h

/-- Lower case brings no blank into a word. -/
theorem isBlank_of_mem_lower {text : List Char} (h : ∀ c ∈ text, isBlank c = false) :
    ∀ c ∈ lower text, isBlank c = false := by
  intro d hd
  rcases mem_lowerFrom hd with hform | ⟨c, hc, -, rfl⟩
  · have hforms : ['ς', 'σ', 'i', '\u0307'].all (!isBlank ·) = true := by decide
    simpa using List.all_eq_true.mp hforms d hform
  · rcases isBlank_simpleLower c with hb | hb
    · rw [hb, h c hc]
    · exact hb

theorem lower_eq_nil {text : List Char} : lower text = [] ↔ text = [] := by
  constructor
  · cases text with
    | nil => exact fun _ => rfl
    | cons c rest =>
      intro h
      rw [lower, lowerFrom, lowerAt] at h
      split at h <;> simp at h
      split at h <;> simp at h
  · rintro rfl
    rfl

/-! ## Across a space -/

theorem casedAhead_append_space (a b : List Char) :
    casedAhead (a ++ ' ' :: b) = casedAhead a := by
  induction a with
  | nil =>
    have hi : isCaseIgnorable ' ' = false := by decide
    have hc : isCased ' ' = false := by decide
    simp [casedAhead, hi, hc]
  | cons c rest ih => simp only [List.cons_append, casedAhead, ih]

theorem lowerAt_append_space (afterCased : Bool) (c : Char) (a b : List Char) :
    lowerAt afterCased c (a ++ ' ' :: b) = lowerAt afterCased c a := by
  simp only [lowerAt, casedAhead_append_space]

theorem lowerFrom_append_space (afterCased : Bool) (a b : List Char) :
    lowerFrom afterCased (a ++ ' ' :: b) = lowerFrom afterCased a ++ ' ' :: lowerFrom false b := by
  induction a generalizing afterCased with
  | nil =>
    have hi : isCaseIgnorable ' ' = false := by decide
    have hc : isCased ' ' = false := by decide
    have hl : simpleLower ' ' = ' ' := by decide
    simp [lowerFrom, lowerAt, hi, hc, hl]
  | cons c rest ih =>
    rw [List.cons_append, lowerFrom, lowerFrom, lowerAt_append_space, ih, List.append_assoc]

/-- A space ends the context of a sigma on both sides, so the parts around it do not see each other. -/
theorem lower_append_space (a b : List Char) :
    lower (a ++ ' ' :: b) = lower a ++ ' ' :: lower b :=
  lowerFrom_append_space false a b

end Teleop.Text
