import Teleop.Proofs.Clause.Slice
import Teleop.Proofs.Text.Place

/-!
# Nothing of a text is lost

A text is made of its clauses, one behind the other, and of what separates them: blanks and connectors
(`segment_account`). Each clause names one action. This rests on two facts about verbs, that a scan finds
every verb of a text (`VerbAt.found`), and that a part with two verbs in it is cut, the pair `camera zoom`
apart (`verbs_of_isUncut`).
-/

namespace Teleop.Clause

open Text

/-! ## What a text is made of -/

/-- What may separate two clauses besides blanks: a comma, a semicolon, a full stop before a blank or the
end of the text, and a joining word between boundaries. -/
inductive IsConnector (before : Option Char) : List Char → List Char → Prop
  | mark {c : Char} {behind : List Char} (known : c = ',' ∨ c = ';') : IsConnector before [c] behind
  | stop {behind : List Char} (ends : ∀ c ∈ behind.head?, isBlank c = true) :
      IsConnector before ['.'] behind
  | word {w : String} {body behind : List Char} (known : w ∈ joiningWords)
      (stands : Stands w.toList before body behind) : IsConnector before body behind

/-- The text behind `a` is made of some clauses, in their order, with only blanks and connectors before,
between and behind them. -/
inductive IsMadeOf : List Char → List (List Char) → List Char → Prop
  | nil {a : List Char} : IsMadeOf a [] []
  | blank {a text : List Char} {c : Char} {clauses : List (List Char)} (is_blank : isBlank c = true)
      (behind : IsMadeOf (a ++ [c]) clauses text) : IsMadeOf a clauses (c :: text)
  | connector {a body text : List Char} {clauses : List (List Char)}
      (joins : IsConnector a.getLast? body text) (behind : IsMadeOf (a ++ body) clauses text) :
      IsMadeOf a clauses (body ++ text)
  | clause {a c text : List Char} {clauses : List (List Char)}
      (behind : IsMadeOf (a ++ c) clauses text) : IsMadeOf a (c :: clauses) (c ++ text)

namespace IsMadeOf

variable {a gap m s text : List Char} {clauses : List (List Char)}

theorem blanks (h : IsMadeOf (a ++ gap) clauses text) (hgap : ∀ c ∈ gap, isBlank c = true) :
    IsMadeOf a clauses (gap ++ text) := by
  induction gap generalizing a with
  | nil => rwa [List.append_nil] at h
  | cons c gap ih =>
    rw [List.append_cons] at h
    exact .blank (hgap c List.mem_cons_self) (ih h fun d hd => hgap d (List.mem_cons_of_mem c hd))

/-- A part is its clause with blanks around it, or only blanks. -/
theorem part (h : IsMadeOf (a ++ m) clauses text) :
    IsMadeOf a (([m].map trim).filter (!·.isEmpty) ++ clauses) (m ++ text) := by
  obtain ⟨pre, post, hm, hpre, hpost, -, -⟩ : ∃ pre post, m = pre ++ (trim m ++ post) ∧
    (∀ c ∈ pre, isBlank c = true) ∧ (∀ c ∈ post, isBlank c = true) ∧ BeginsSolid (trim m) ∧
      EndsSolid (trim m) := exists_trimBoth isBlank m
  rw [List.map_singleton]
  generalize trim m = c at hm ⊢
  subst hm
  by_cases hc : c = []
  · subst hc
    have hnone : [[]].filter (!List.isEmpty (α := Char) ·) = [] := rfl
    rw [hnone, List.nil_append]
    refine h.blanks fun d hd => ?_
    rcases List.mem_append.mp hd with hd | hd
    · exact hpre d hd
    · exact hpost d hd
  · have hclause : [c].filter (!·.isEmpty) = [c] := by simp [hc]
    rw [hclause, List.singleton_append, List.append_assoc, List.append_assoc]
    refine blanks (.clause (blanks ?_ hpost)) hpre
    simpa only [List.append_assoc] using h

theorem parts {ms : List (List Char)} (h : IsMadeOf (a ++ ms.flatten) clauses text) :
    IsMadeOf a ((ms.map trim).filter (!·.isEmpty) ++ clauses) (ms.flatten ++ text) := by
  induction ms generalizing a with
  | nil => rwa [List.flatten_nil, List.append_nil] at h
  | cons m ms ih =>
    rw [List.flatten_cons, ← List.append_assoc] at h
    have hparts := (ih h).part
    rwa [← List.append_assoc, ← List.filter_append, ← List.map_append, ← List.append_assoc] at hparts

end IsMadeOf

theorem textOf_flatten {α : Type} (gs : List (List (Piece α))) :
    textOf gs.flatten = (gs.map textOf).flatten := by
  induction gs with
  | nil => rfl
  | cons g gs ih => rw [List.flatten_cons, textOf_append, ih, List.map_cons, List.flatten_cons]

/-- Cutting at verbs loses nothing. -/
theorem flatten_cutAtVerbs (last : Option String) (adjacent : Bool) (ps : List (Piece String)) :
    (cutAtVerbs last adjacent ps).flatten = textOf ps := by
  obtain ⟨g, gs, hparts, rfl, -, -⟩ := exists_groups last adjacent ps
  rw [hparts, List.flatten_cons, textOf_append, textOf_flatten]

theorem IsMadeOf.stretch {a s text : List Char} {clauses : List (List Char)}
    (h : IsMadeOf (a ++ s) clauses text) : IsMadeOf a (ofStretch s ++ clauses) (s ++ text) := by
  have hflat : (cutAtVerbs none true (scan recogniseVerb s)).flatten = s := by
    rw [flatten_cutAtVerbs, (scanned_scan isBounded_recogniseVerb s).textOf_eq]
  rw [← hflat] at h
  have hparts := h.parts
  rwa [hflat] at hparts

/-- A full stop in a connector has a blank or the end behind it. -/
theorem isConnector_of_found {text m : List Char} {P Q : List (Piece Unit)} {u : Unit}
    (h : Scanned recogniseConnector none text (P ++ .found u m :: Q)) :
    ∃ gap body behind, m = gap ++ (body ++ behind) ∧ (∀ c ∈ gap, isBlank c = true) ∧
      (∀ c ∈ behind, isBlank c = true) ∧
      IsConnector (textOf P ++ gap).getLast? body (behind ++ textOf Q) := by
  obtain ⟨gap, body, behind, rfl, hgap, hbehind, hjoins⟩ := exists_of_connector h
  refine ⟨gap, body, behind, rfl, hgap, hbehind, ?_⟩
  rcases hjoins with ⟨c, rfl, hc⟩ | ⟨w, hw, hstands⟩
  · rw [← or_assoc] at hc
    rcases hc with hc | rfl
    · exact .mark hc
    · have htaken := h.taken_of_split.2
      have hsplit : gap ++ (['.'] ++ behind) ++ textOf Q = gap ++ '.' :: (behind ++ textOf Q) := by simp
      rw [hsplit, recogniseConnector_gap hgap (by decide), connectorLength?] at htaken
      refine .stop fun c hc => ?_
      cases hblank : isBlank c with
      | true => rfl
      | false =>
        obtain ⟨rest, hrest⟩ : ∃ rest, behind ++ textOf Q = c :: rest :=
          List.head?_eq_some_iff.mp hc
        rw [hrest, blanksAhead_cons_eq_zero_iff.mpr hblank] at htaken
        simp at htaken
  · exact .word hw hstands

/-- The text from a place inside a stretch on, `s` being what of the stretch lies before it. -/
theorem isMadeOf_of_scanned {text a s : List Char} {P Q : List (Piece Unit)}
    (h : Scanned recogniseConnector none text (P ++ Q)) (hP : textOf P = a ++ s) :
    IsMadeOf a (((stretches Q).modifyHead (s ++ ·)).flatMap ofStretch) (s ++ textOf Q) := by
  induction Q generalizing P a s with
  | nil =>
    rw [stretches, List.modifyHead_cons, List.append_nil, List.flatMap_cons, List.flatMap_nil]
    exact .stretch .nil
  | cons p Q ih =>
    rw [List.append_cons] at h
    cases p with
    | plain c =>
      have hhead : (s ++ ·) ∘ (c :: ·) = ((s ++ [c]) ++ ·) := funext fun t => List.append_cons s c t
      rw [stretches, List.modifyHead_modifyHead, hhead, textOf_cons, ← List.append_assoc]
      refine ih h ?_
      rw [textOf_append, hP, List.append_assoc]
      rfl
    | found u m =>
      have hnext := ih h (a := textOf (P ++ [.found u m])) (List.append_nil _).symm
      rw [← List.append_cons] at h
      obtain ⟨gap, body, behind, rfl, hgap, hbehind, hjoins⟩ := isConnector_of_found h
      have hid : (([] : List Char) ++ ·) = id := rfl
      rw [hid, List.modifyHead_id, id, List.nil_append, textOf_append, hP, textOf_cons, textOf_nil,
        List.append_nil, Piece.chars] at hnext
      rw [stretches, List.modifyHead_cons, List.append_nil, List.flatMap_cons, textOf_cons, Piece.chars,
        List.append_assoc, List.append_assoc]
      rw [hP] at hjoins
      refine .stretch (.blanks (.connector hjoins (.blanks ?_ hbehind)) hgap)
      simpa only [List.append_assoc] using hnext

/-! ## Verbs of a clause -/

structure VerbAt (text : List Char) (v : String) (p m q : List Char) : Prop where
  text_eq : text = p ++ (m ++ q)
  known : v ∈ actionVerbs
  stands : Stands v.toList p.getLast? m q

/-- A text with at most one action verb, or with `camera` and `zoom` and only blanks between them. -/
inductive HasOneAction (text : List Char) : Prop
  | single (only : ∀ v p m q v' p' m' q', VerbAt text v p m q → VerbAt text v' p' m' q' →
      v = v' ∧ p = p') : HasOneAction text
  | pair {p camera gap zoom q : List Char}
      (first : VerbAt text "camera" p camera (gap ++ (zoom ++ q)))
      (second : VerbAt text "zoom" (p ++ (camera ++ gap)) zoom q) (blank : ∀ c ∈ gap, isBlank c = true)
      (only : ∀ v p' m q', VerbAt text v p' m q' →
        v = "camera" ∧ p' = p ∨ v = "zoom" ∧ p' = p ++ (camera ++ gap)) : HasOneAction text

section Place

variable {w w' m m' q q' : List Char} {before : Option Char} {v : String}

theorem fold_eq_of_sameLetter {a b : Char} (h : sameLetter a b = true) : fold a = fold b :=
  (sameLetter_iff.mp h).elim (congrArg fold) id

/-- One block of characters is an occurrence of one pattern. -/
theorem eq_of_stands (h : Stands w before m q) (h' : Stands w' before m q') (hw : isPlain w = true)
    (hw' : isPlain w' = true) : w = w' := by
  refine List.ext_getElem (h.length_eq.symm.trans h'.length_eq) fun k hk hk' => ?_
  have hm : k < m.length := h.length_eq ▸ hk
  have hleft := h.letters k _ _ (List.getElem?_eq_getElem hk) (List.getElem?_eq_getElem hm)
  have hright := h'.letters k _ _ (List.getElem?_eq_getElem hk') (List.getElem?_eq_getElem hm)
  refine eq_of_sameLetter hw hw' (List.getElem_mem hk) (List.getElem_mem hk') (sameLetter_iff.mpr ?_)
  exact Or.inr ((fold_eq_of_sameLetter hleft).trans (fold_eq_of_sameLetter hright).symm)

/-- An action verb covers characters of words only. -/
theorem isWordChar_of_stands (h : Stands v.toList before m q) (hv : v ∈ actionVerbs) :
    ∀ c ∈ m, isWordChar c = true := by
  intro c hc
  obtain ⟨k, hk⟩ := List.mem_iff_getElem?.mp hc
  have hkind := h.isWordChar_eq (isLegible_of_mem (mem_cuttingWords_of_verb hv) m) k
  obtain ⟨l, hl⟩ : ∃ l, v.toList[k]? = some l :=
    ⟨_, List.getElem?_eq_getElem (h.length_eq ▸ (List.getElem?_eq_some_iff.mp hk).1)⟩
  rw [hk, hl, Option.any_some, Option.any_some] at hkind
  exact hkind.trans (isWordChar_of_mem_verb hv l (List.mem_of_getElem? hl))

/-- No word goes on behind an occurrence. -/
theorem length_le_of_stands (h : Stands w before m q) (hm : ∀ c ∈ m, isWordChar c = true)
    (hm' : ∀ c ∈ m', isWordChar c = true) (hsplit : m ++ q = m' ++ q') : m'.length ≤ m.length := by
  apply Nat.le_of_not_lt
  intro hover
  obtain ⟨r, rfl, rfl⟩ := exists_append_of_length_le hsplit (Nat.le_of_lt hover)
  have hr : r ≠ [] := by
    rintro rfl
    rw [List.append_nil] at hover
    exact Nat.lt_irrefl _ hover
  have hcloses := h.closes
  rw [head?_append_of_ne_nil hr, List.head?_eq_some_head hr,
    List.getLast?_eq_some_getLast h.ne_nil_text, isBoundary, Option.any_some, Option.any_some,
    hm _ (List.getLast_mem _), hm' _ (List.mem_append_right m (List.head_mem hr))] at hcloses
  exact Bool.noConfusion hcloses

end Place

section Found

variable {text p m q : List Char} {v : String}

/-- Every action verb of a text is found. -/
theorem VerbAt.found (h : VerbAt text v p m q) :
    ∃ P Q, scan recogniseVerb text = P ++ .found v m :: Q ∧ textOf P = p := by
  have hscan := scanned_scan isBounded_recogniseVerb text
  have hword := isWordChar_of_stands h.stands h.known
  rcases exists_place (hscan.textOf_eq.trans h.text_eq) with
    ⟨P, Q, hpieces, rfl, hQ⟩ | ⟨P, v', m', n, Q, hpieces, hm', hn, rfl, hsplit⟩
  · rw [hpieces] at hscan
    have hsome : (recogniseVerb (textOf P).getLast? (m ++ q)).isSome = true := by
      rw [recogniseVerb, Option.isSome_map, List.find?_isSome]
      exact ⟨v, h.known, (isWordAt_iff h.stands.ne_nil).mpr ⟨m, q, rfl, h.stands⟩⟩
    obtain ⟨⟨v', n⟩, htaken⟩ := Option.isSome_iff_exists.mp hsome
    obtain ⟨m', Q', rfl, rfl⟩ := hscan.found_of_taken isBounded_recogniseVerb
      (by rwa [Option.or_none, hQ])
    obtain ⟨hknown, hstands⟩ := stands_of_verb hscan
    have hword' := isWordChar_of_stands hstands hknown
    rw [textOf_cons, Piece.chars] at hQ
    obtain ⟨rfl, rfl⟩ := List.append_inj hQ (Nat.le_antisymm
      (length_le_of_stands h.stands hword hword' hQ.symm)
      (length_le_of_stands hstands hword' hword hQ))
    have hv : v'.toList = v.toList := eq_of_stands hstands h.stands (actionVerbs_plain v' hknown)
      (actionVerbs_plain v h.known)
    obtain rfl := String.toList_inj.mp hv
    exact ⟨P, Q', hpieces, rfl⟩
  · -- no boundary lies inside a verb
    rw [hpieces] at hscan
    obtain ⟨hknown, hstands⟩ := stands_of_verb hscan
    have hword' := isWordChar_of_stands hstands hknown
    have hopens := h.stands.opens
    have hm := h.stands.ne_nil_text
    rw [getLast?_append_of_ne_nil hm', List.getLast?_eq_some_getLast hm', List.head?_eq_some_head hm,
      isBoundary, Option.any_some, Option.any_some, hword _ (List.head_mem hm),
      hword' _ (List.mem_append_left n (List.getLast_mem hm'))] at hopens
    exact Bool.noConfusion hopens

end Found

def IsVerbless (ps : List (Piece String)) : Prop :=
  ∀ v m, .found v m ∉ ps

section Uncut

variable {v : String} {adjacent : Bool} {ps : List (Piece String)}

theorem isVerbless_nil : IsVerbless [] := by
  simp [IsVerbless]

theorem IsVerbless.cons (h : IsVerbless ps) (c : Char) : IsVerbless (.plain c :: ps) := by
  simpa [IsVerbless] using h

/-- A part is uncut behind a verb other than `camera` only without a further verb. -/
theorem isVerbless_of_uncut (hv : v ≠ "camera")
    (h : (cutAtVerbs (some v) adjacent ps).length = 1) : IsVerbless ps := by
  induction ps generalizing adjacent with
  | nil => exact isVerbless_nil
  | cons p ps ih =>
    cases p with
    | plain c =>
      rw [cutAtVerbs, List.length_modifyHead] at h
      exact (ih h).cons c
    | found w m =>
      have hcut : ((some v).any fun v => !(adjacent && isOneAction v w)) = true := by
        simp [isOneAction, hv]
      rw [cutAtVerbs, if_pos hcut, List.length_cons, List.length_modifyHead] at h
      have := List.length_pos_iff.mpr (cutAtVerbs_ne_nil (some w) true ps)
      omega

/-- A part is uncut behind `camera` only without a further verb or with `zoom` behind blanks. -/
theorem zoom_of_uncut (h : (cutAtVerbs (some "camera") adjacent ps).length = 1) :
    IsVerbless ps ∨ adjacent = true ∧ ∃ (gap z : List Char) (Q : List (Piece String)),
      ps = gap.map .plain ++ .found "zoom" z :: Q ∧ (∀ c ∈ gap, isBlank c = true) ∧
        IsVerbless Q := by
  induction ps generalizing adjacent with
  | nil => exact Or.inl isVerbless_nil
  | cons p ps ih =>
    cases p with
    | plain c =>
      rw [cutAtVerbs, List.length_modifyHead] at h
      rcases ih h with hless | ⟨hadjacent, gap, z, Q, rfl, hgap, hQ⟩
      · exact Or.inl (hless.cons c)
      · rw [Bool.and_eq_true] at hadjacent
        refine Or.inr ⟨hadjacent.1, c :: gap, z, Q, rfl, fun d hd => ?_, hQ⟩
        rcases List.mem_cons.mp hd with rfl | hd
        · exact hadjacent.2
        · exact hgap d hd
    | found w m =>
      rw [cutAtVerbs] at h
      by_cases hone : (adjacent && isOneAction "camera" w) = true
      · rw [Bool.and_eq_true] at hone
        obtain ⟨rfl, hw⟩ := hone
        obtain rfl : w = "zoom" := by simpa [isOneAction] using hw
        have hjoined : ((some "camera").any fun v => !(true && isOneAction v "zoom")) = false := by
          decide
        rw [if_neg (Bool.not_eq_true _ ▸ hjoined), List.length_modifyHead] at h
        exact Or.inr ⟨rfl, [], m, ps, rfl, by simp, isVerbless_of_uncut (by decide) h⟩
      · have hcut : ((some "camera").any fun v => !(adjacent && isOneAction v w)) = true := by
          rw [Option.any_some, Bool.eq_false_iff.mpr hone]
          rfl
        rw [if_pos hcut, List.length_cons, List.length_modifyHead] at h
        have := List.length_pos_iff.mpr (cutAtVerbs_ne_nil (some w) true ps)
        omega

/-- An uncut part has no verb, one, or `camera` and `zoom` with blanks between them. -/
theorem verbs_of_uncut (h : (cutAtVerbs none adjacent ps).length = 1) :
    IsVerbless ps ∨ ∃ P v m Q, ps = P ++ .found v m :: Q ∧ IsVerbless P ∧ (IsVerbless Q ∨
      v = "camera" ∧ ∃ (gap z : List Char) (R : List (Piece String)),
        Q = gap.map .plain ++ .found "zoom" z :: R ∧ (∀ c ∈ gap, isBlank c = true) ∧
          IsVerbless R) := by
  induction ps generalizing adjacent with
  | nil => exact Or.inl isVerbless_nil
  | cons p ps ih =>
    cases p with
    | plain c =>
      rw [cutAtVerbs, List.length_modifyHead] at h
      rcases ih h with hless | ⟨P, v, m, Q, rfl, hP, hQ⟩
      · exact Or.inl (hless.cons c)
      · exact Or.inr ⟨.plain c :: P, v, m, Q, rfl, hP.cons c, hQ⟩
    | found v m =>
      rw [cutAtVerbs, Option.any_none, if_neg Bool.false_ne_true, List.length_modifyHead] at h
      refine Or.inr ⟨[], v, m, ps, rfl, isVerbless_nil, ?_⟩
      by_cases hv : v = "camera"
      · subst hv
        exact (zoom_of_uncut h).imp_right fun hzoom => ⟨rfl, hzoom.2⟩
      · exact Or.inl (isVerbless_of_uncut hv h)

end Uncut

section Verbless

variable {P P' Q Q' : List (Piece String)} {v v' : String} {m m' : List Char}

theorem isVerbless_plains (text : List Char) : IsVerbless (text.map .plain) := by
  intro v m hmem
  obtain ⟨c, -, hc⟩ := List.mem_map.mp hmem
  cases hc

/-- Behind pieces without a verb, another verb stands where the next one does or behind that. -/
theorem eq_or_behind (hP : IsVerbless P) (h : P ++ .found v m :: Q = P' ++ .found v' m' :: Q') :
    (P = P' ∧ v = v') ∨ ∃ P'', P' = P ++ .found v m :: P'' ∧ Q = P'' ++ .found v' m' :: Q' := by
  rcases List.append_eq_append_iff.mp h with ⟨R, rfl, hR⟩ | ⟨R, rfl, hR⟩
  · cases R with
    | nil =>
      obtain ⟨hfound, -⟩ := List.cons.inj hR
      exact Or.inl ⟨(List.append_nil P).symm, (Piece.found.inj hfound).1⟩
    | cons p R =>
      obtain ⟨rfl, rfl⟩ := List.cons.inj hR
      exact Or.inr ⟨R, rfl, rfl⟩
  · cases R with
    | nil =>
      obtain ⟨hfound, -⟩ := List.cons.inj hR
      exact Or.inl ⟨List.append_nil P', (Piece.found.inj hfound).1.symm⟩
    | cons p R =>
      obtain ⟨rfl, -⟩ := List.cons.inj hR
      exact absurd (List.mem_append_right P' List.mem_cons_self) (hP v' m')

/-- The only verb of some pieces is the one that stands there. -/
theorem eq_of_only_verb (hP : IsVerbless P) (hQ : IsVerbless Q)
    (h : P ++ .found v m :: Q = P' ++ .found v' m' :: Q') : P = P' ∧ v = v' := by
  refine (eq_or_behind hP h).resolve_right ?_
  rintro ⟨P'', -, rfl⟩
  exact hQ v' m' (List.mem_append_right P'' List.mem_cons_self)

end Verbless

/-- A text that no verb cuts names one action. -/
theorem IsUncut.hasOneAction {text : List Char} (h : IsUncut text) : HasOneAction text := by
  have hscan := scanned_scan isBounded_recogniseVerb text
  have hlength : (cutAtVerbs none true (scan recogniseVerb text)).length = 1 := by
    rw [h, List.length_singleton]
  rcases verbs_of_uncut hlength with hless | ⟨P, v, m, Q, hpieces, hP, hQ⟩
  · refine .single fun v p m q v' p' m' q' hat _ => ?_
    obtain ⟨P, Q, hpieces, -⟩ := hat.found
    exact absurd (hpieces ▸ List.mem_append_right P List.mem_cons_self) (hless v m)
  rcases hQ with hQ | ⟨rfl, gap, z, R, rfl, hgap, hR⟩
  · refine .single fun v₁ p₁ m₁ q₁ v₂ p₂ m₂ q₂ hfirst hsecond => ?_
    obtain ⟨P₁, Q₁, hpieces₁, rfl⟩ := hfirst.found
    obtain ⟨P₂, Q₂, hpieces₂, rfl⟩ := hsecond.found
    obtain ⟨rfl, rfl⟩ := eq_of_only_verb hP hQ (hpieces.symm.trans hpieces₁)
    obtain ⟨rfl, rfl⟩ := eq_of_only_verb hP hQ (hpieces.symm.trans hpieces₂)
    exact ⟨rfl, rfl⟩
  · -- the pieces up to `zoom`, and the text they make up
    have hsplit : P ++ .found "camera" m :: (gap.map .plain ++ .found "zoom" z :: R) =
        (P ++ .found "camera" m :: gap.map .plain) ++ .found "zoom" z :: R := by simp
    have hbefore : textOf (P ++ .found "camera" m :: gap.map .plain) = textOf P ++ (m ++ gap) := by
      rw [textOf_append, textOf_cons, textOf_plains, Piece.chars]
    have htext := hscan.textOf_eq
    rw [hpieces] at hscan
    obtain ⟨hcamera, hfirst⟩ := stands_of_verb hscan
    rw [textOf_append, textOf_plains, textOf_cons, Piece.chars] at hfirst
    rw [hsplit] at hscan
    obtain ⟨hzoom, hsecond⟩ := stands_of_verb hscan
    rw [hbefore] at hsecond
    rw [hpieces, hsplit, textOf_append, hbefore, textOf_cons, Piece.chars] at htext
    refine .pair ⟨by rw [← htext]; simp, hcamera, hfirst⟩ ⟨htext.symm, hzoom, hsecond⟩ hgap ?_
    intro v p' m' q' hat
    obtain ⟨P', Q', hpieces', rfl⟩ := hat.found
    rcases eq_or_behind hP (hpieces.symm.trans hpieces') with ⟨rfl, rfl⟩ | ⟨P'', rfl, hbehind⟩
    · exact Or.inl ⟨rfl, rfl⟩
    · obtain ⟨rfl, rfl⟩ := eq_of_only_verb (isVerbless_plains gap) hR hbehind
      exact Or.inr ⟨rfl, hbefore⟩

/-! ## Clauses of a text -/

/-- Nothing of a text is lost but blanks and connectors, and each clause is a trimmed text that names one
action. -/
theorem segment_account (text : String) :
    IsMadeOf [] ((segment text).map String.toList) text.toList ∧
      ∀ clause ∈ segment text, clause.toList ≠ [] ∧ trim clause.toList = clause.toList ∧
        HasOneAction clause.toList := by
  constructor
  · have hscan := scanned_scan isBounded_recogniseConnector text.toList
    have hmade := isMadeOf_of_scanned (a := []) (P := []) (Q := scan recogniseConnector text.toList)
      hscan rfl
    have hid : (([] : List Char) ++ ·) = id := rfl
    have hsame : String.toList ∘ String.ofList = id := funext fun _ => String.toList_ofList
    rw [hid, List.modifyHead_id, id, List.nil_append, hscan.textOf_eq] at hmade
    rwa [segment, List.map_map, hsame, List.map_id]
  · intro clause hmem
    obtain ⟨a, b, hclause⟩ := exists_isClauseAt hmem
    exact ⟨hclause.ne_nil, trim_eq_self hclause.begins hclause.ends, hclause.uncut.hasOneAction⟩

theorem segment_account_pair : "Camera zoom" ∈ segment "Camera zoom, then go." ∧
    HasOneAction "Camera zoom".toList :=
  have hmem : "Camera zoom" ∈ segment "Camera zoom, then go." := by decide
  ⟨hmem, ((segment_account "Camera zoom, then go.").2 _ hmem).2.2⟩

/-- A clause that does not end in a full stop is its own only clause. -/
theorem segment_of_mem_segment {text clause : String} (h : clause ∈ segment text)
    (hstop : clause.toList.getLast? ≠ some '.') : segment clause = [clause] := by
  obtain ⟨a, b, hclause⟩ := exists_isClauseAt h
  have hself := hclause.segment_eq hstop
  rwa [String.ofList_toList] at hself

theorem segment_of_mem_segment_stop : "wait 2.5 s" ∈ segment "go fast. wait 2.5 s and stop" ∧
    "wait 2.5 s".toList.getLast? ≠ some '.' ∧ segment "wait 2.5 s" = ["wait 2.5 s"] :=
  have hmem : "wait 2.5 s" ∈ segment "go fast. wait 2.5 s and stop" := by decide
  ⟨hmem, by decide, segment_of_mem_segment hmem (by decide)⟩

end Teleop.Clause
