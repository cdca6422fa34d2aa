import Teleop.Proofs.Lexicon.Apart
import Teleop.Proofs.Lexicon.Idempotence

/-!
# Normalization that is stable

Where canonical words keep out of the sources, the second pass finds in a normalized text exactly what
the first one found and left: the spellings that are sources only up to case variants. Every other place
is settled. So the second pass replaces nothing, and normalizing twice is normalizing once.
-/

namespace Teleop.Lexicon

open Text

variable {l : Lexicon} {before before' : Option Char} {t w : List Char} {ps : List (Piece Unit)}

/-- What a piece is for the next pass: an occurrence that has a canonical form is made of characters
outside all occurrences. -/
def settle (l : Lexicon) : Piece Unit → List (Piece Unit)
  | .plain c => [.plain c]
  | .found u f =>
    match l.lookup? (String.ofList f) with
    | none => [.found u f]
    | some canonical => canonical.toList.map .plain

/-! ## The text as a rewritten one -/

/-- A source opens at the start of a word. -/
theorem isWordChar_before (hl : l.IsApart) {e : Entry} (he : e ∈ l.entries) {rest : List Char}
    {u : Unit} {n : Nat} (h : l.recogniser before (e.source.toList ++ rest) = some (u, n)) :
    before.any isWordChar = false := by
  obtain ⟨_, -, m, q, htext, -, hstands⟩ := recogniser_eq_some h
  have hm : m ≠ [] := by
    rw [← List.length_pos_iff, hstands.length_eq]
    exact List.length_pos_iff.mpr hstands.ne_nil
  have hopens := hstands.opens
  rw [← head?_append_of_ne_nil hm q, ← htext, head?_append_of_ne_nil (hl.sources e he).ne_nil,
    isBoundary, (hl.sources e he).head] at hopens
  simpa using hopens

/-- The replaced pieces are the scanned text with some sources rewritten. -/
theorem rewritten_of_scanned (hl : l.IsApart) (h : Scanned l.recogniser before t ps)
    (hcollapsed : ∀ u f, .found u f ∈ ps → IsCollapsed f) :
    Rewritten l (before.any isWordChar) t (ps.flatMap l.replacePiece) := by
  induction h with
  | nil => exact .nil
  | plain _ _ ih => exact .kept (ih fun u f hf => hcollapsed u f (List.mem_cons_of_mem _ hf))
  | @found before u m rest ps hne taken _ ih =>
    have hrest := ih fun u f hf => hcollapsed u f (List.mem_cons_of_mem _ hf)
    have hm := hcollapsed u m List.mem_cons_self
    rw [List.flatMap_cons, replacePiece]
    cases hlookup : l.lookup? (String.ofList m) with
    | none =>
      rw [replacement_of_lookup?_none hm hlookup]
      exact .keep hne hrest
    | some canonical =>
      obtain ⟨e, he, rfl, rfl⟩ := exists_of_lookup? hm.collapse_eq hlookup
      rw [(hl.sources e he).last] at hrest
      rw [isWordChar_before hl he taken, replacement_of_lookup?_some hlookup]
      exact .replaced he hrest

/-! ## What the next pass meets -/

/-- An occurrence that is left as it is is found again: no longer source stands there now. -/
theorem recogniser_of_kept {m rest : List Char} {u : Unit}
    (hreach : ∀ e ∈ l.entries, isWordAt before' (m ++ w) e.source.toList = true →
      isWordAt before (m ++ rest) e.source.toList = true)
    (hbefore : before'.any isWordChar = before.any isWordChar)
    (hhead : rest.head?.any isWordChar = w.head?.any isWordChar)
    (taken : l.recogniser before (m ++ rest) = some (u, m.length)) :
    l.recogniser before' (m ++ w) = some (u, m.length) := by
  simp only [recogniser, recogniseSource, Option.map_eq_some_iff, Prod.mk.injEq] at taken ⊢
  obtain ⟨source, hfind, hu, hlength⟩ := taken
  obtain ⟨hat, longer, others, hsources, hlonger⟩ := List.find?_eq_some_iff_append.mp hfind
  have hmem (s : List Char) (hs : s ∈ longer ++ source :: others) :
      ∃ e ∈ l.entries, e.source.toList = s := by
    rw [← hsources] at hs
    exact mem_sourcesByLength.mp hs
  refine ⟨source, List.find?_eq_some_iff_append.mpr ⟨?_, longer, others, hsources, ?_⟩, hu,
    hlength⟩
  · obtain ⟨e, he, rfl⟩ := hmem source (by simp)
    obtain ⟨m', q, hsplit, hstands⟩ := (isWordAt_iff (l.source_ne_nil he)).mp hat
    obtain ⟨rfl, rfl⟩ := List.append_inj hsplit (by rw [hstands.length_eq, hlength])
    refine (isWordAt_iff (l.source_ne_nil he)).mpr ⟨m, w, rfl, ?_⟩
    have hopens := hstands.opens
    have hcloses := hstands.closes
    rw [isBoundary] at hopens hcloses
    exact { hstands with
      opens := by rwa [isBoundary, hbefore]
      closes := by rwa [isBoundary, ← hhead] }
  · intro s hs
    obtain ⟨e, he, rfl⟩ := hmem s (List.mem_append_left _ hs)
    cases hnow : isWordAt before' (m ++ w) e.source.toList with
    | false => rfl
    | true =>
      have hlong := hlonger _ hs
      rw [hreach e he hnow] at hlong
      exact Bool.noConfusion hlong

/-- Nothing is found where a canonical form stands. -/
theorem recogniser_of_canonical (hl : l.IsApart) {e : Entry} (he : e ∈ l.entries) {a b : List Char}
    {c : Char} (hsplit : e.canonical.toList = a ++ c :: b) :
    l.recogniser (a.getLast?.or before) (c :: (b ++ w)) = none := by
  have hcanonical := hl.canonicals e he
  rcases List.eq_nil_or_concat a with ha | ⟨init, d, ha⟩
  · exact hl.recogniser_eq_none he hsplit (Or.inl ha) _ w
  · rw [List.concat_eq_append] at ha
    have hlast : a.getLast? = some d := by rw [ha, List.getLast?_concat]
    have hd : d ∈ e.canonical.toList := by simp [hsplit, ha]
    have hc : c ∈ e.canonical.toList := by simp [hsplit]
    rcases hcanonical.spaced d hd with rfl | hdword
    · exact hl.recogniser_eq_none he hsplit (Or.inr hlast) _ w
    · rcases hcanonical.spaced c hc with rfl | hcword
      · refine recogniser_space (fun other hother hspace => ?_) _ _
        have hhead := (hl.sources other hother).head
        rw [hspace] at hhead
        exact absurd hhead (by decide)
      · rw [hlast, Option.some_or]
        exact recogniser_inside (by simp [isBoundary, hdword, hcword]) _

/-- The pieces of the next pass: everything that had a canonical form is settled. -/
theorem scanned_settled (hl : l.IsApart) (h : Scanned l.recogniser before t ps)
    (hcollapsed : ∀ u f, .found u f ∈ ps → IsCollapsed f)
    (hlower : ∀ c ∈ ps.flatMap l.replacePiece, simpleLower c = c)
    (hbefore : before'.any isWordChar = before.any isWordChar) :
    Scanned l.recogniser before' (ps.flatMap l.replacePiece) (ps.flatMap l.settle) := by
  induction h generalizing before' with
  | nil => exact .nil
  | @plain before c rest ps missed behind ih =>
    have hall := rewritten_of_scanned hl (.plain missed behind) hcollapsed
    refine .plain (recogniser_eq_none_iff.mpr fun e he => ?_)
      (ih (fun u f hf => hcollapsed u f (List.mem_cons_of_mem _ hf))
        (fun d hd => hlower d (List.mem_cons_of_mem _ hd)) rfl)
    cases hat : isWordAt before' (c :: ps.flatMap l.replacePiece) e.source.toList with
    | false => exact hat
    | true =>
      have hthere := hall.isWordAt hl hbefore hlower he hat
      rw [recogniser_eq_none_iff.mp missed e he] at hthere
      exact Bool.noConfusion hthere
  | @found before u m rest ps hne taken behind ih =>
    have hall := rewritten_of_scanned hl (.found hne taken behind) hcollapsed
    have hrest := fun u f hf => hcollapsed u f (List.mem_cons_of_mem _ hf)
    have hm := hcollapsed u m List.mem_cons_self
    simp only [List.flatMap_cons, replacePiece, settle] at hall hlower ⊢
    have hbehind {before' : Option Char} (hb : before'.any isWordChar = m.getLast?.any isWordChar) :=
      ih hrest (fun d hd => hlower d (List.mem_append_right _ hd)) hb
    cases hlookup : l.lookup? (String.ofList m) with
    | none =>
      rw [replacement_of_lookup?_none hm hlookup] at hall hlower ⊢
      have hhead := (rewritten_of_scanned hl behind hrest).head_eq hl
      exact .found hne (recogniser_of_kept
        (fun e he hat => hall.isWordAt hl hbefore hlower he hat) hbefore hhead taken) (hbehind rfl)
    | some canonical =>
      obtain ⟨e, he, rfl, rfl⟩ := exists_of_lookup? hm.collapse_eq hlookup
      have hcanonical := hl.canonicals e he
      rw [replacement_of_lookup?_some hlookup]
      refine .plains (fun a c b hk => recogniser_of_canonical hl he hk) (hbehind ?_)
      rw [(hl.sources e he).last, List.getLast?_eq_some_getLast hcanonical.ne_nil, Option.some_or,
        ← List.getLast?_eq_some_getLast hcanonical.ne_nil, hcanonical.last]

/-! ## Normal texts -/

/-- Replacing sources leaves nothing to replace. -/
theorem isNormal_replaceSources (hl : l.IsApart) (hentries : l.HasCollapsedEntries)
    (ht : IsCollapsed t) (hascii : t.map asciiForm = t) : l.IsNormal (l.replaceSources t) := by
  have hbounded := l.isBounded_recogniser
  have hps := scanned_scan hbounded t
  have hfound := fun u f hf => isCollapsed_of_found hentries ht hps (u := u) (f := f) hf
  have hw := isCollapsed_replaceSources hentries ht
  rw [replaceSources_eq] at hw ⊢
  have hagain : Scanned l.recogniser none _ _ :=
    scanned_settled hl hps hfound (fun c hc => (hw.settled c hc).fixed) rfl
  refine ⟨(rewritten_of_scanned hl hps hfound).map_asciiForm hl hascii, fun u f hf => ?_⟩
  · rw [hagain.scan_eq hbounded, List.mem_flatMap] at hf
    obtain ⟨p, -, hf⟩ := hf
    cases p with
    | plain c => simp [settle] at hf
    | found v g =>
      rw [settle] at hf
      split at hf
      · rename_i hnone
        rw [List.mem_singleton] at hf
        cases hf
        exact hnone
      · simp at hf

/-- A normalized text is normal, unless it is empty. -/
theorem isNormal_normalize (hl : l.IsApart) (hentries : l.HasCollapsedEntries) {u : String}
    (h : l.normalize u ≠ "") : l.IsNormal (l.normalize u).toList := by
  have htext := toList_normalize hentries u
  have hwords : words (u.toList.map asciiForm) ≠ [] := by
    intro hnil
    rw [collapse_eq_nil hnil] at htext
    exact h (String.toList_eq_nil_iff.mp htext)
  rw [htext]
  exact isNormal_replaceSources hl hentries (isCollapsed_collapse hwords)
    (map_asciiForm_collapse u.toList)

/-- Normalizing keeps a normal text. -/
theorem normalize_of_isNormal (hentries : l.HasCollapsedEntries) {u : String}
    (hw : IsCollapsed u.toList) (h : l.IsNormal u.toList) : l.normalize u = u := by
  refine String.toList_inj.mp ?_
  rw [toList_normalize hentries, (isCollapsed_map_asciiForm hw).collapse_eq,
    replaceSources_of_isNormal hentries hw h]

/-- Where canonical words keep out of the sources, normalizing twice is normalizing once. -/
theorem normalize_normalize_of_isApart (hl : l.IsApart) (hentries : l.HasCollapsedEntries)
    (u : String) : l.normalize (l.normalize u) = l.normalize u := by
  by_cases hempty : l.normalize u = ""
  · rw [hempty]
    rfl
  · exact normalize_of_isNormal hentries (isCollapsed_normalize hempty)
      (isNormal_normalize hl hentries hempty)

end Teleop.Lexicon
