import Mathlib.Data.List.Find
import Teleop.Proofs.Text.Scan
import Teleop.Proofs.Text.Standing

/-!
# Scans of a part of a text

A recogniser that sees in a part of a text what it sees there in the whole text finds the same in both
(`scan_append`). At the ends of a part two things can go wrong for a pattern: a word goes on across the
end, or a pattern with a space in it does. `divides` excludes the first, and `isWordAt_append_iff` leaves
no more than the second.
-/

namespace Teleop.Text

theorem getLast?_append_of_ne_nil {m : List Char} (hm : m ≠ []) (p : List Char) :
    (p ++ m).getLast? = m.getLast? := by
  rw [List.getLast?_append, List.getLast?_eq_some_getLast hm, Option.some_or]

/-! ## Scans of two parts -/

section Scan

variable {α : Type} {r : Recogniser α} {a b : List Char}

/-- The pieces of a text are those of its parts where nothing at the end of the first part sees the second
part, and nothing at the start of the second part sees the first. -/
theorem scan_append (hr : r.IsBounded)
    (hblind : ∀ p s, a = p ++ s → s ≠ [] → r p.getLast? (s ++ b) = r p.getLast? s)
    (hfirst : r a.getLast? b = r none b) : scan r (a ++ b) = scan r a ++ scan r b := by
  have ha := scanned_scan hr a
  have hb := (scanned_scan hr b).congr_before hfirst.symm
  refine (ha.append (fun p s hsplit hs => ?_) ?_).scan_eq hr
  · rw [Option.or_none]
    exact hblind p s hsplit hs
  · rwa [Option.or_none]

theorem scan_eq_plains (hr : r.IsBounded) (hmissed : ∀ p c s, a = p ++ c :: s →
      r p.getLast? (c :: s) = none) : scan r a = a.map .plain := by
  have h : Scanned r none (a ++ []) (a.map .plain ++ []) := by
    refine .plains (fun p c s hsplit => ?_) .nil
    rw [Option.or_none, List.append_nil]
    exact hmissed p c s hsplit
  rw [List.append_nil, List.append_nil] at h
  exact h.scan_eq hr

/-- A text with one occurrence. -/
theorem scan_eq_found (hr : r.IsBounded) {value : α} {m : List Char} (hm : m ≠ [])
    (hfront : ∀ p c s, a = p ++ c :: s → r p.getLast? (c :: (s ++ (m ++ b))) = none)
    (htaken : r a.getLast? (m ++ b) = some (value, m.length))
    (hbehind : ∀ p c s, b = p ++ c :: s → r (a ++ (m ++ p)).getLast? (c :: s) = none) :
    scan r (a ++ (m ++ b)) = a.map .plain ++ .found value m :: b.map .plain := by
  have hrest : Scanned r m.getLast? (b ++ []) (b.map .plain ++ []) := by
    refine .plains (fun p c s hsplit => ?_) .nil
    have hnone := hbehind p c s hsplit
    have hne : m ++ p ≠ [] := by simp [hm]
    rw [getLast?_append_of_ne_nil hne, List.getLast?_append] at hnone
    rwa [List.append_nil]
  have h : Scanned r none (a ++ (m ++ b)) (a.map .plain ++ .found value m :: b.map .plain) := by
    rw [List.append_nil, List.append_nil] at hrest
    refine .plains (fun p c s hsplit => ?_) (.found hm ?_ hrest)
    · rw [Option.or_none]
      exact hfront p c s hsplit
    · rwa [Option.or_none]
  exact h.scan_eq hr

theorem textOf_plains (text : List Char) : textOf (text.map (Piece.plain (α := α))) = text := by
  induction text with
  | nil => rfl
  | cons c text ih => rw [List.map_cons, textOf_cons, ih]; rfl

theorem values_plains (text : List Char) :
    (text.map (Piece.plain (α := α))).filterMap Piece.value? = [] := by
  induction text with
  | nil => rfl
  | cons c text ih => rw [List.map_cons, List.filterMap_cons_none rfl, ih]

theorem stretches_plains_append (text : List Char) (ps : List (Piece α)) :
    stretches (text.map .plain ++ ps) = (stretches ps).modifyHead (text ++ ·) := by
  induction text with
  | nil => exact (congrFun List.modifyHead_id (stretches ps)).symm
  | cons c text ih =>
    rw [List.map_cons, List.cons_append, stretches, ih, List.modifyHead_modifyHead]
    rfl

/-- The pieces that a stretch comes from, with an occurrence on each side of it unless the text ends
there. -/
theorem exists_of_stretches {ps : List (Piece α)} {init tail : List (List Char)} {s : List Char}
    (h : stretches ps = init ++ s :: tail) : ∃ P Q, ps = P ++ (s.map .plain ++ Q) ∧
      (init = [] → P = []) ∧ (init ≠ [] → ∃ P' value m, P = P' ++ [.found value m]) ∧
      (Q = [] ∨ ∃ value m Q', Q = .found value m :: Q') := by
  induction ps generalizing init s with
  | nil =>
    have hlength := congrArg List.length h
    simp only [stretches, List.length_append, List.length_cons, List.length_nil] at hlength
    obtain rfl : init = [] := List.length_eq_zero_iff.mp (by omega)
    obtain ⟨rfl, -⟩ := List.cons.inj h
    exact ⟨[], [], rfl, fun _ => rfl, by simp, Or.inl rfl⟩
  | cons p ps ih =>
    cases p with
    | plain c =>
      obtain ⟨s₀, ss, hs₀⟩ := List.exists_cons_of_ne_nil (stretches_ne_nil ps)
      rw [stretches, hs₀, List.modifyHead_cons] at h
      cases init with
      | nil =>
        obtain ⟨rfl, rfl⟩ := List.cons.inj h
        obtain ⟨P, Q, rfl, hP, -, hQ⟩ := @ih [] s₀ hs₀
        obtain rfl := hP rfl
        exact ⟨[], Q, rfl, fun _ => rfl, by simp, hQ⟩
      | cons i init =>
        obtain ⟨rfl, rfl⟩ := List.cons.inj h
        obtain ⟨P, Q, rfl, -, hP, hQ⟩ := @ih (s₀ :: init) s hs₀
        obtain ⟨P', value, m, rfl⟩ := hP (List.cons_ne_nil _ _)
        exact ⟨.plain c :: (P' ++ [.found value m]), Q, rfl, by simp,
          fun _ => ⟨.plain c :: P', value, m, rfl⟩, hQ⟩
    | found value m =>
      rw [stretches] at h
      cases init with
      | nil =>
        obtain ⟨rfl, -⟩ := List.cons.inj h
        exact ⟨[], .found value m :: ps, rfl, fun _ => rfl, by simp, Or.inr ⟨value, m, ps, rfl⟩⟩
      | cons i init =>
        obtain ⟨-, hrest⟩ := List.cons.inj h
        obtain ⟨P, Q, rfl, hnil, hP, hQ⟩ := ih hrest
        refine ⟨.found value m :: P, Q, rfl, by simp, fun _ => ?_, hQ⟩
        by_cases hinit : init = []
        · rw [hnil hinit]
          exact ⟨[], value, m, rfl⟩
        · obtain ⟨P', value', m', rfl⟩ := hP hinit
          exact ⟨.found value m :: P', value', m', rfl⟩

end Scan

/-! ## Where no word goes on -/

/-- Whether no word goes on from one character to the next, `none` standing for the edge of the text. -/
def divides (before after : Option Char) : Bool :=
  !(before.any isWordChar && after.any isWordChar)

section Divides

variable {before after : Option Char}

theorem divides_none_right : divides before none = true := by
  simp [divides]

theorem divides_of_isBoundary (h : isBoundary before after = true) : divides before after = true := by
  rw [isBoundary] at h
  rw [divides]
  cases hbefore : before.any isWordChar <;> cases hafter : after.any isWordChar <;> simp_all

theorem divides_of_left (h : ∀ c ∈ before, isWordChar c = false) : divides before after = true := by
  cases before with
  | none => rfl
  | some c => simp [divides, h c rfl]

theorem divides_of_right (h : ∀ c ∈ after, isWordChar c = false) : divides before after = true := by
  cases after with
  | none => exact divides_none_right
  | some c => simp [divides, h c rfl]

end Divides

/-! ## Patterns at the ends of a part -/

/-- A pattern that begins and ends with characters of words, in a text where only such characters stand
for characters of words. -/
structure IsLegible (w text : List Char) : Prop where
  head : w.head?.any isWordChar = true
  last : w.getLast?.any isWordChar = true
  kind : ∀ l ∈ w, ∀ c ∈ text, sameLetter l c = true → isWordChar l = isWordChar c

section Patterns

variable {w m q s b text : List Char} {before : Option Char}

theorem IsLegible.ne_nil (h : IsLegible w text) : w ≠ [] := by
  rintro rfl
  simpa using h.head

theorem IsLegible.mono (h : IsLegible w text) (hs : ∀ c ∈ s, c ∈ text) : IsLegible w s :=
  { h with kind := fun l hl c hc => h.kind l hl c (hs c hc) }

theorem Stands.ne_nil_text (h : Stands w before m q) : m ≠ [] := by
  rw [← List.length_pos_iff, h.length_eq]
  exact List.length_pos_iff.mpr h.ne_nil

/-- The characters of an occurrence are of the kind of the letters they stand for. -/
theorem Stands.isWordChar_eq (h : Stands w before m q) (hw : IsLegible w m) (k : Nat) :
    m[k]?.any isWordChar = w[k]?.any isWordChar := by
  cases hm : m[k]? with
  | none =>
    rw [List.getElem?_eq_none_iff, h.length_eq, ← List.getElem?_eq_none_iff] at hm
    rw [hm]
  | some c =>
    have hk : k < w.length := h.length_eq ▸ (List.getElem?_eq_some_iff.mp hm).1
    have hl : w[k]? = some w[k] := List.getElem?_eq_getElem hk
    rw [hl]
    exact (hw.kind _ (List.getElem_mem hk) c (List.mem_of_getElem? hm) (h.letters k _ c hl hm)).symm

theorem Stands.head (h : Stands w before m q) (hw : IsLegible w m) :
    m.head?.any isWordChar = true := by
  rw [List.head?_eq_getElem?, h.isWordChar_eq hw, ← List.head?_eq_getElem?]
  exact hw.head

theorem Stands.last (h : Stands w before m q) (hw : IsLegible w m) :
    m.getLast?.any isWordChar = true := by
  rw [List.getLast?_eq_getElem?, h.isWordChar_eq hw, h.length_eq, ← List.getLast?_eq_getElem?]
  exact hw.last

/-- At the start of a part the character before it plays no part. -/
theorem isWordAt_of_divides (hw : IsLegible w s) (hdiv : divides before s.head? = true) :
    isWordAt before s w = isWordAt none s w := by
  cases hbefore : before.any isWordChar with
  | false =>
    rw [isWordAt, isWordAt, isBoundary, isBoundary, hbefore]
    rfl
  | true =>
    have hhead : s.head?.any isWordChar = false := by simpa [divides, hbefore] using hdiv
    have hnot (x : Option Char) : isWordAt x s w = false := by
      refine Bool.eq_false_iff.mpr fun hat => ?_
      obtain ⟨m, q, rfl, hstands⟩ := (isWordAt_iff hw.ne_nil).mp hat
      have hm := hstands.head (hw.mono fun c hc => List.mem_append_left _ hc)
      rw [head?_append_of_ne_nil hstands.ne_nil_text, hm] at hhead
      exact Bool.noConfusion hhead
    rw [hnot, hnot]

/-- A pattern stands in a part exactly where it stands in the text and does not reach out of the part. -/
theorem isWordAt_append_iff (hw : IsLegible w s) (hdiv : divides s.getLast? b.head? = true) :
    isWordAt before s w = true ↔ isWordAt before (s ++ b) w = true ∧ w.length ≤ s.length := by
  have hcloses {m q : List Char} (hs : s = m ++ q) (hm : m.getLast?.any isWordChar = true) :
      isBoundary m.getLast? q.head? = isBoundary m.getLast? (q ++ b).head? := by
    cases q with
    | cons c q => rfl
    | nil =>
      rw [List.append_nil] at hs
      rw [hs, divides, hm, Bool.true_and, Bool.not_eq_true'] at hdiv
      rw [List.nil_append, isBoundary, isBoundary, hdiv]
      rfl
  rw [isWordAt_iff hw.ne_nil, isWordAt_iff hw.ne_nil]
  constructor
  · rintro ⟨m, q, hs, hstands⟩
    have hm := hstands.last (hw.mono fun c hc => hs ▸ List.mem_append_left _ hc)
    refine ⟨⟨m, q ++ b, by rw [hs, List.append_assoc], { hstands with closes := ?_ }⟩, ?_⟩
    · rw [← hcloses hs hm]
      exact hstands.closes
    · rw [hs, List.length_append, hstands.length_eq]
      exact Nat.le_add_right _ _
  · rintro ⟨⟨m, q', htext, hstands⟩, hle⟩
    obtain ⟨q, hs, rfl⟩ := exists_append_of_length_le htext.symm (hstands.length_eq.trans_le hle)
    have hm := hstands.last (hw.mono fun c hc => hs ▸ List.mem_append_left _ hc)
    refine ⟨m, q, hs, { hstands with closes := ?_ }⟩
    rw [hcloses hs hm]
    exact hstands.closes

/-- A pattern without a space does not reach out of a part in which no word goes on. -/
theorem length_le_of_divides (hw : IsLegible w (s ++ b)) (hword : ∀ l ∈ w, isWordChar l = true)
    (hdiv : divides s.getLast? b.head? = true) (hs : s ≠ [])
    (hat : isWordAt before (s ++ b) w = true) : w.length ≤ s.length := by
  obtain ⟨m, q, htext, hstands⟩ := (isWordAt_iff hw.ne_nil).mp hat
  have hm := hw.mono (s := m) fun c hc => htext ▸ List.mem_append_left _ hc
  have hpos := List.length_pos_iff.mpr hs
  apply Nat.le_of_not_lt
  intro hover
  have hkind (k : Nat) (hk : k < w.length) : (s ++ b)[k]?.any isWordChar = true := by
    rw [htext, List.getElem?_append_left (by rw [hstands.length_eq]; exact hk),
      hstands.isWordChar_eq hm, List.getElem?_eq_getElem hk]
    exact hword _ (List.getElem_mem hk)
  have hlast := hkind (s.length - 1) (by omega)
  have hhead := hkind s.length hover
  rw [List.getElem?_append_left (by omega), ← List.getLast?_eq_getElem?] at hlast
  rw [List.getElem?_append_right (Nat.le_refl _), Nat.sub_self, ← List.head?_eq_getElem?] at hhead
  rw [divides, hlast, hhead] at hdiv
  exact Bool.noConfusion hdiv

/-- The first of some patterns is the same in a part and in the text if none of them reaches out. -/
theorem find?_isWordAt_append {β : Type} {ws : List β} {f : β → List Char}
    (hws : ∀ w ∈ ws, IsLegible (f w) s) (hdiv : divides s.getLast? b.head? = true)
    (hwithin : ∀ w ∈ ws, isWordAt before (s ++ b) (f w) = true → (f w).length ≤ s.length) :
    (ws.find? fun w => isWordAt before (s ++ b) (f w)) = ws.find? fun w => isWordAt before s (f w) :=
  List.find?_congr fun w hw => Bool.eq_iff_iff.mpr
    ⟨fun hat => (isWordAt_append_iff (hws w hw) hdiv).mpr ⟨hat, hwithin w hw hat⟩,
      fun hat => ((isWordAt_append_iff (hws w hw) hdiv).mp hat).1⟩

end Patterns

end Teleop.Text
