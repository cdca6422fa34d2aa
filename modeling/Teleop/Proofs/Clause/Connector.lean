import Teleop.Clause
import Teleop.Proofs.Text.Scan
import Teleop.Proofs.Text.Standing

/-!
# What a connector is

A connector is a comma, a semicolon, a full stop or a joining word, with the blanks around it
(`recogniseConnector_eq_some`). It follows that a block of characters which neither begins nor ends
with a blank, has no such punctuation and fits no joining word is never touched by a connector. Where
a full stop is a connector and where it is not plays no part here.
-/

namespace Teleop.Clause

open Text

/-- What stands in a connector between the blanks: a mark, or a joining word between boundaries. -/
def Joins (before : Option Char) (body q : List Char) : Prop :=
  (∃ c, body = [c] ∧ (c = ',' ∨ c = ';' ∨ c = '.')) ∨
    ∃ w ∈ joiningWords, Stands w.toList before body q

theorem joiningWords_ne_nil : ∀ w ∈ joiningWords, w.toList ≠ [] := by decide

theorem joiningWords_plain : ∀ w ∈ joiningWords, isPlain w.toList = true := by decide

theorem Joins.length_pos {before : Option Char} {body q : List Char} (h : Joins before body q) :
    0 < body.length := by
  rcases h with ⟨c, rfl, -⟩ | ⟨w, hw, hstands⟩
  · simp
  · rw [hstands.length_eq]
    exact List.length_pos_iff.mpr (joiningWords_ne_nil w hw)

theorem connectorLength?_eq_some {before : Option Char} {text : List Char} {n : Nat}
    (h : connectorLength? before text = some n) :
    ∃ body q, text = body ++ q ∧ Joins before body q ∧ n = body.length + blanksAhead q := by
  cases text with
  | nil => simp [connectorLength?] at h
  | cons c rest =>
    rw [connectorLength?] at h
    split at h
    · rename_i hc
      simp only [Bool.or_eq_true, decide_eq_true_eq] at hc
      cases h
      exact ⟨[c], rest, rfl, Or.inl ⟨c, rfl, by rcases hc with rfl | rfl <;> simp⟩, rfl⟩
    · split at h
      · rename_i hc
        split at h
        · cases h
          exact ⟨[c], rest, rfl, Or.inl ⟨c, rfl, Or.inr (Or.inr hc)⟩, rfl⟩
        · simp at h
      · obtain ⟨w, hw, hn⟩ := Option.map_eq_some_iff.mp h
        have hmem := List.mem_of_find?_eq_some hw
        have hat := List.find?_some hw
        obtain ⟨m, q, htext, hstands⟩ := (isWordAt_iff (joiningWords_ne_nil w hmem)).mp hat
        have hlength : w.length = m.length := by rw [hstands.length_eq, String.length_toList]
        refine ⟨m, q, htext, Or.inr ⟨w, hmem, hstands⟩, ?_⟩
        rw [← hn, htext, hlength, List.drop_left]

/-- A connector and the blanks on both sides of it. -/
theorem recogniseConnector_eq_some {before : Option Char} {text : List Char} {u : Unit} {n : Nat}
    (h : recogniseConnector before text = some (u, n)) :
    ∃ gap body behind q, text = gap ++ (body ++ (behind ++ q)) ∧
      (∀ c ∈ gap, isBlank c = true) ∧ (∀ c ∈ behind, isBlank c = true) ∧
      Joins (gap.getLast?.or before) body (behind ++ q) ∧
      n = gap.length + (body.length + behind.length) := by
  simp only [recogniseConnector, Option.map_eq_some_iff, Prod.mk.injEq] at h
  obtain ⟨k, hk, -, rfl⟩ := h
  have hall (s : List Char) : ∀ c ∈ s.takeWhile isBlank, isBlank c = true :=
    List.all_eq_true.mp List.all_takeWhile
  have htext : text.takeWhile isBlank ++ text.dropWhile isBlank = text :=
    List.takeWhile_append_dropWhile
  have hdrop : text.drop (text.takeWhile isBlank).length = text.dropWhile isBlank := by
    have hleft : (text.takeWhile isBlank ++ text.dropWhile isBlank).drop
        (text.takeWhile isBlank).length = text.dropWhile isBlank := List.drop_left
    rwa [htext] at hleft
  rw [hdrop] at hk
  obtain ⟨body, q, hbody, hjoins, rfl⟩ := connectorLength?_eq_some hk
  have hq : q.takeWhile isBlank ++ q.dropWhile isBlank = q := List.takeWhile_append_dropWhile
  refine ⟨text.takeWhile isBlank, body, q.takeWhile isBlank, q.dropWhile isBlank, ?_, hall text,
    hall q, ?_, rfl⟩
  · rw [hq, ← hbody, htext]
  · rwa [hq]

theorem isBounded_recogniseConnector : Recogniser.IsBounded recogniseConnector := by
  intro before text value n h
  obtain ⟨gap, body, behind, q, rfl, -, -, hjoins, rfl⟩ := recogniseConnector_eq_some h
  have := hjoins.length_pos
  simp only [List.length_append]
  omega

theorem ne_empty_of_mem_segment {text clause : String} (h : clause ∈ segment text) : text ≠ "" := by
  rintro rfl
  have hnone : segment "" = [] := by decide
  rw [hnone] at h
  simp at h

/-- A block of characters that no connector can touch. -/
def isSolid (x : List Char) : Bool :=
  x.head?.any (!isBlank ·) && x.getLast?.any (!isBlank ·) &&
    x.all (fun c => c ≠ ',' && c ≠ ';' && c ≠ '.') && isPlain x &&
    joiningWords.all fun w =>
      (List.range x.length).all fun i => (List.range w.length).all fun j => !fits x w.toList i j

section Solid

variable {p g q a x b : List Char}

theorem length_pos_of_isSolid (hx : isSolid x = true) : 0 < x.length := by
  cases x with
  | nil => simp [isSolid] at hx
  | cons => simp

theorem isPlain_of_isSolid (hx : isSolid x = true) : isPlain x = true := by
  simp only [isSolid, Bool.and_eq_true] at hx
  exact hx.1.2

theorem fits_of_isSolid (hx : isSolid x = true) {w : String} (hw : w ∈ joiningWords) {i j : Nat}
    (hi : i < x.length) (hj : j < w.length) : fits x w.toList i j = false := by
  simp only [isSolid, Bool.and_eq_true, List.all_eq_true, List.mem_range] at hx
  simpa using hx.2 w hw i hi j hj

/-- Blanks do not reach into a solid block from before it. -/
theorem blanks_before_solid (hx : isSolid x = true) (hg : ∀ c ∈ g, isBlank c = true)
    (htext : p ++ (g ++ q) = a ++ (x ++ b)) (hlow : p.length ≤ a.length) :
    p.length + g.length ≤ a.length := by
  apply Nat.le_of_not_lt
  intro hover
  have hk := getElem?_overlap htext (k := 0) (length_pos_of_isSolid hx) (by omega) (by omega)
  simp only [isSolid, Bool.and_eq_true] at hx
  have hhead := hx.1.1.1.1
  rw [List.head?_eq_getElem?, hk, Option.any_eq_true] at hhead
  obtain ⟨c, hc, hblank⟩ := hhead
  simp [hg c (List.mem_of_getElem? hc)] at hblank

/-- Blanks do not reach into a solid block from behind it. -/
theorem blanks_behind_solid (hx : isSolid x = true) (hg : ∀ c ∈ g, isBlank c = true)
    (htext : p ++ (g ++ q) = a ++ (x ++ b)) (hhigh : a.length + x.length ≤ p.length + g.length) :
    a.length + x.length ≤ p.length := by
  apply Nat.le_of_not_lt
  intro hover
  have hpos := length_pos_of_isSolid hx
  have hk := getElem?_overlap htext (k := x.length - 1) (by omega) (by omega) (by omega)
  simp only [isSolid, Bool.and_eq_true] at hx
  have hlast := hx.1.1.1.2
  rw [List.getLast?_eq_getElem?, hk, Option.any_eq_true] at hlast
  obtain ⟨c, hc, hblank⟩ := hlast
  simp [hg c (List.mem_of_getElem? hc)] at hblank

/-- The mark or word of a connector does not overlap a solid block. -/
theorem joins_apart_solid (hx : isSolid x = true) (hg : Joins p.getLast? g q)
    (htext : p ++ (g ++ q) = a ++ (x ++ b)) (ha : ∀ c ∈ a.getLast?, isAlphanumeric c = false) :
    p.length + g.length ≤ a.length ∨ a.length + x.length ≤ p.length := by
  rw [Decidable.or_iff_not_imp_left, Nat.not_le]
  intro hends
  apply Nat.le_of_not_lt
  intro hbegins
  rcases hg with ⟨c, rfl, hc⟩ | ⟨w, hw, hstands⟩
  · simp only [List.length_singleton] at hends
    have hk := getElem?_overlap htext (k := p.length - a.length) (by omega) (by omega)
      (by simp only [List.length_singleton]; omega)
    rw [show a.length + (p.length - a.length) - p.length = 0 from by omega,
      List.getElem?_cons_zero] at hk
    simp only [isSolid, Bool.and_eq_true, List.all_eq_true] at hx
    have hmark := hx.1.1.2 c (List.mem_of_getElem? hk)
    rcases hc with rfl | rfl | rfl <;> simp at hmark
  · have hfits := hstands.fits (joiningWords_plain w hw) (isPlain_of_isSolid hx) htext ha
      hbegins hends
    have hlength : w.length = g.length := by rw [hstands.length_eq, String.length_toList]
    have hg : 0 < g.length := Joins.length_pos (Or.inr ⟨w, hw, hstands⟩)
    have hx0 := length_pos_of_isSolid hx
    rw [fits_of_isSolid hx hw (by omega) (by omega)] at hfits
    exact Bool.noConfusion hfits

/-- The connectors of a text leave a solid block alone. -/
theorem clear_of_isSolid {ps : List (Piece Unit)} (hx : isSolid x = true)
    (ha : ∀ c ∈ a.getLast?, isAlphanumeric c = false)
    (hps : Scanned recogniseConnector none (a ++ (x ++ b)) ps) :
    Clear ps a.length (a.length + x.length) := by
  rintro P value m Q rfl
  have htext := hps.textOf_eq
  obtain ⟨gap, body, behind, q, hm, hgap, hbehind, hjoins, hlength⟩ :=
    recogniseConnector_eq_some hps.taken_of_split.2
  simp only [textOf_append, textOf_cons, Piece.chars, hm] at htext
  have hbody : (textOf P ++ gap) ++ (body ++ (behind ++ q)) = a ++ (x ++ b) := by
    rw [← htext, List.append_assoc]
  have htail : (textOf P ++ (gap ++ body)) ++ (behind ++ q) = a ++ (x ++ b) := by
    rw [← htext]
    simp only [List.append_assoc]
  have hbefore : gap.getLast?.or ((textOf P).getLast?.or none) = (textOf P ++ gap).getLast? := by
    rw [Option.or_none, List.getLast?_append]
  rw [hbefore] at hjoins
  rw [hlength]
  rcases joins_apart_solid hx hjoins hbody ha with hout | hout
  · have := blanks_before_solid hx hbehind htail (by simpa [Nat.add_assoc] using hout)
    simp only [List.length_append] at this
    exact Or.inl (by omega)
  · exact Or.inr (blanks_behind_solid hx hgap htext (by simpa using hout))

end Solid

end Teleop.Clause
