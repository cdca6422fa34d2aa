import Teleop.Proofs.Clause.Segment
import Teleop.Proofs.Text.Slice

/-!
# Parts that no verb cuts

Joining words and action verbs are made of small letters, so what stands for them is made of letters in
every text, and an action verb never reaches across a place where no word goes on. The verbs of a text
are then those of its parts (`scan_recogniseVerb_append`), and a part of a text that no verb cuts is not
cut by itself (`IsUncut.of_edges`).
-/

namespace Teleop.Clause

open Text

/-! ## The words that cut a text -/

/-- Joining words and action verbs. -/
def cuttingWords : List String :=
  joiningWords ++ actionVerbs

theorem cuttingWords_lower : ∀ w ∈ cuttingWords, w.toList.head?.any Char.isLower = true ∧
    w.toList.getLast?.any Char.isLower = true ∧
      w.toList.all (fun c => c == ' ' || c.isLower) = true := by
  decide

theorem actionVerbs_lower : ∀ w ∈ actionVerbs, w.toList.all Char.isLower = true := by
  decide

theorem isWordChar_of_isLower {l : Char} (h : l.isLower = true) : isWordChar l = true := by
  rw [isWordChar, isAlphabetic_of_sameLetter h (sameLetter_iff.mpr (Or.inl rfl))]
  rfl

theorem any_isWordChar_of_isLower {l : Option Char} (h : l.any Char.isLower = true) :
    l.any isWordChar = true := by
  obtain ⟨c, hc, hlower⟩ := (Option.any_eq_true ..).mp h
  exact (Option.any_eq_true ..).mpr ⟨c, hc, isWordChar_of_isLower hlower⟩

theorem isLegible_of_mem {w : String} (hw : w ∈ cuttingWords) (text : List Char) :
    IsLegible w.toList text := by
  obtain ⟨hhead, hlast, hall⟩ := cuttingWords_lower w hw
  refine ⟨any_isWordChar_of_isLower hhead, any_isWordChar_of_isLower hlast, fun l hl c _ hsame => ?_⟩
  have hletter := List.all_eq_true.mp hall l hl
  rw [Bool.or_eq_true, beq_iff_eq] at hletter
  rcases hletter with rfl | hlower
  · rw [sameLetter_space_left hsame]
  · rw [isWordChar_of_isLower hlower, isWordChar, isAlphabetic_of_sameLetter hlower hsame]
    rfl

section Words

variable {w : String}

theorem mem_cuttingWords_of_joining (hw : w ∈ joiningWords) : w ∈ cuttingWords :=
  List.mem_append_left _ hw

theorem mem_cuttingWords_of_verb (hw : w ∈ actionVerbs) : w ∈ cuttingWords :=
  List.mem_append_right _ hw

theorem isWordChar_of_mem_verb (hw : w ∈ actionVerbs) : ∀ l ∈ w.toList, isWordChar l = true :=
  fun l hl => isWordChar_of_isLower (List.all_eq_true.mp (actionVerbs_lower w hw) l hl)

end Words

/-! ## Verbs of two parts -/

section Verbs

variable {before : Option Char} {a b s : List Char}

theorem recogniseVerb_append (hs : s ≠ []) (hdiv : divides s.getLast? b.head? = true) :
    recogniseVerb before (s ++ b) = recogniseVerb before s := by
  have hlegible (text : List Char) (w : String) (hw : w ∈ actionVerbs) : IsLegible w.toList text :=
    isLegible_of_mem (mem_cuttingWords_of_verb hw) text
  rw [recogniseVerb, recogniseVerb, find?_isWordAt_append (hlegible s) hdiv fun w hw hat =>
    length_le_of_divides (hlegible _ w hw) (isWordChar_of_mem_verb hw) hdiv hs hat]

theorem recogniseVerb_of_divides (hdiv : divides before s.head? = true) :
    recogniseVerb before s = recogniseVerb none s := by
  have hfind : (actionVerbs.find? fun w => isWordAt before s w.toList) =
      actionVerbs.find? fun w => isWordAt none s w.toList := List.find?_congr fun w hw =>
    isWordAt_of_divides (isLegible_of_mem (mem_cuttingWords_of_verb hw) s) hdiv
  rw [recogniseVerb, recogniseVerb, hfind]

/-- The verbs of a text are those of its two parts where no word goes on. -/
theorem scan_recogniseVerb_append (hdiv : divides a.getLast? b.head? = true) :
    scan recogniseVerb (a ++ b) = scan recogniseVerb a ++ scan recogniseVerb b := by
  refine scan_append isBounded_recogniseVerb (fun p s hsplit hs => recogniseVerb_append hs ?_)
    (recogniseVerb_of_divides hdiv)
  rwa [hsplit, getLast?_append_of_ne_nil hs] at hdiv

/-- There are no verbs among blanks. -/
theorem scan_recogniseVerb_blank (h : ∀ c ∈ a, isBlank c = true) :
    scan recogniseVerb a = a.map .plain := by
  refine scan_eq_plains isBounded_recogniseVerb fun p c s hsplit => ?_
  cases hverb : recogniseVerb p.getLast? (c :: s) with
  | none => rfl
  | some found =>
    obtain ⟨hmem, m, q, htext, -, hstands⟩ := recogniseVerb_eq_some hverb
    have hhead := hstands.head (isLegible_of_mem (mem_cuttingWords_of_verb hmem) m)
    rw [← head?_append_of_ne_nil hstands.ne_nil_text q, ← htext, List.head?_cons,
      Option.any_some, isWordChar_of_isBlank (h c (by simp [hsplit]))] at hhead
    exact Bool.noConfusion hhead

end Verbs

/-! ## Parts that are not cut -/

theorem cutAtVerbs_ne_nil (last : Option String) (adjacent : Bool) (ps : List (Piece String)) :
    cutAtVerbs last adjacent ps ≠ [] := by
  obtain ⟨s, tail, hs, -⟩ := exists_first_part (Nat.zero_le _) (verbsBehind_zero ps) last adjacent
  rw [hs]
  exact List.cons_ne_nil _ _

/-- Before the first verb nothing depends on whether only blanks came before. -/
theorem cutAtVerbs_none (adjacent adjacent' : Bool) (ps : List (Piece String)) :
    cutAtVerbs none adjacent ps = cutAtVerbs none adjacent' ps := by
  induction ps generalizing adjacent adjacent' with
  | nil => rfl
  | cons p ps ih =>
    cases p with
    | plain c => rw [cutAtVerbs, cutAtVerbs, ih]
    | found verb m => rw [cutAtVerbs, cutAtVerbs]; rfl

/-- The pieces of each part, which is not cut by itself. All parts but the first begin with a verb. -/
theorem exists_groups (last : Option String) (adjacent : Bool) (ps : List (Piece String)) :
    ∃ (g : List (Piece String)) (gs : List (List (Piece String))),
      cutAtVerbs last adjacent ps = textOf g :: gs.map textOf ∧ g ++ gs.flatten = ps ∧
      cutAtVerbs last adjacent g = [textOf g] ∧
      ∀ g' ∈ gs, (∃ verb m rest, g' = .found verb m :: rest) ∧
        cutAtVerbs none true g' = [textOf g'] := by
  induction ps generalizing last adjacent with
  | nil => exact ⟨[], [], rfl, rfl, rfl, by simp⟩
  | cons p ps ih =>
    cases p with
    | plain c =>
      obtain ⟨g, gs, hparts, rfl, hfirst, hrest⟩ := ih last (adjacent && isBlank c)
      refine ⟨.plain c :: g, gs, ?_, rfl, ?_, hrest⟩
      · rw [cutAtVerbs, hparts]
        rfl
      · rw [cutAtVerbs, hfirst]
        rfl
    | found verb m =>
      obtain ⟨g, gs, hparts, rfl, hfirst, hrest⟩ := ih (some verb) true
      rw [cutAtVerbs, hparts]
      by_cases hcut : (last.any fun v => !(adjacent && isOneAction v verb)) = true
      · refine ⟨[], (.found verb m :: g) :: gs, ?_, rfl, rfl, fun g' hg' => ?_⟩
        · rw [if_pos hcut]
          rfl
        · rcases List.mem_cons.mp hg' with rfl | hg'
          · refine ⟨⟨verb, m, g, rfl⟩, ?_⟩
            rw [cutAtVerbs, hfirst]
            rfl
          · exact hrest g' hg'
      · refine ⟨.found verb m :: g, gs, ?_, rfl, ?_, hrest⟩
        · rw [if_neg hcut]
          rfl
        · rw [cutAtVerbs, hfirst, if_neg hcut]
          rfl

/-- Cutting a longer stretch makes as many parts at least. -/
theorem length_cutAtVerbs_le (last : Option String) (adjacent : Bool) (ps qs : List (Piece String)) :
    (cutAtVerbs last adjacent ps).length ≤ (cutAtVerbs last adjacent (ps ++ qs)).length := by
  induction ps generalizing last adjacent with
  | nil => exact List.length_pos_iff.mpr (cutAtVerbs_ne_nil last adjacent qs)
  | cons p ps ih =>
    cases p with
    | plain c =>
      rw [List.cons_append, cutAtVerbs, cutAtVerbs, List.length_modifyHead, List.length_modifyHead]
      exact ih _ _
    | found verb m =>
      have hrest := ih (some verb) true
      rw [List.cons_append, cutAtVerbs, cutAtVerbs]
      split
      · simpa using hrest
      · simpa using hrest

theorem length_cutAtVerbs_plains (adjacent : Bool) (text : List Char) (ps : List (Piece String)) :
    (cutAtVerbs none adjacent (text.map .plain ++ ps)).length =
      (cutAtVerbs none adjacent ps).length := by
  induction text generalizing adjacent with
  | nil => rfl
  | cons c text ih =>
    rw [List.map_cons, List.cons_append, cutAtVerbs, List.length_modifyHead, ih,
      cutAtVerbs_none _ adjacent]

def IsUncut (text : List Char) : Prop :=
  cutAtVerbs none true (scan recogniseVerb text) = [text]

/-- An uncut text stays uncut without the blanks before it, and without its end where no word goes on. -/
theorem IsUncut.of_edges {p x q : List Char} (h : IsUncut (p ++ (x ++ q)))
    (hp : ∀ c ∈ p, isBlank c = true) (hx : divides x.getLast? q.head? = true) : IsUncut x := by
  have hstart : divides p.getLast? (x ++ q).head? = true :=
    divides_of_left fun c hc => isWordChar_of_isBlank (hp c (List.mem_of_getLast? hc))
  rw [IsUncut, scan_recogniseVerb_append hstart, scan_recogniseVerb_append hx,
    scan_recogniseVerb_blank hp] at h
  have hshort := length_cutAtVerbs_le none true (scan recogniseVerb x) (scan recogniseVerb q)
  rw [← length_cutAtVerbs_plains true p (_ ++ _), h, List.length_singleton] at hshort
  obtain ⟨g, gs, hparts, hflat, -, -⟩ := exists_groups none true (scan recogniseVerb x)
  rw [hparts, List.length_cons, List.length_map] at hshort
  obtain rfl : gs = [] := List.length_eq_zero_iff.mp (by omega)
  rw [List.flatten_nil, List.append_nil] at hflat
  rw [IsUncut, hparts, hflat, (scanned_scan isBounded_recogniseVerb x).textOf_eq]
  rfl

end Teleop.Clause
