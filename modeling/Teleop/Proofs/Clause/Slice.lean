import Teleop.Proofs.Clause.Seam
import Teleop.Proofs.Clause.Uncut

/-!
# Clauses as parts of a text

A clause is a part of its text that begins behind a connector or at an action verb, ends before one, and
has neither a connector nor a cut inside (`exists_isClauseAt`). No word goes on across its two ends, so the
clause by itself is cut as little as it was in the text: it is its own only clause, up to a full stop at
its end, which ends a text and so becomes a connector (`IsClauseAt.segment_eq`, `IsClauseAt.segment_stop`).
-/

namespace Teleop.Clause

open Text

/-! ## The ends of clauses -/

section Joins

variable {before : Option Char} {body q : List Char}

theorem isWordChar_mark {c : Char} (h : c = ',' ∨ c = ';' ∨ c = '.') : isWordChar c = false := by
  rcases h with rfl | rfl | rfl <;> decide

theorem Joins.divides_before (h : Joins before body q) : divides before body.head? = true := by
  rcases h with ⟨c, rfl, hc⟩ | ⟨w, -, hstands⟩
  · refine divides_of_right fun d hd => ?_
    rw [List.head?_cons, Option.mem_some] at hd
    exact hd ▸ isWordChar_mark hc
  · exact divides_of_isBoundary hstands.opens

theorem Joins.divides_behind (h : Joins before body q) : divides body.getLast? q.head? = true := by
  rcases h with ⟨c, rfl, hc⟩ | ⟨w, -, hstands⟩
  · refine divides_of_left fun d hd => ?_
    rw [List.getLast?_singleton, Option.mem_some] at hd
    exact hd ▸ isWordChar_mark hc
  · exact divides_of_isBoundary hstands.closes

end Joins

/-- The places of a text at which a clause may begin: with only blanks before them, behind a connector
and blanks, and before an action verb. -/
inductive Opens : List Char → List Char → Prop
  | edge {a b : List Char} (blank : ∀ c ∈ a, isBlank c = true) : Opens a b
  | connector {a body behind b : List Char} (joins : Joins a.getLast? body (behind ++ b))
      (blank : ∀ c ∈ behind, isBlank c = true) : Opens (a ++ (body ++ behind)) b
  | verb {a m q : List Char} {v : String} (known : v ∈ actionVerbs)
      (stands : Stands v.toList a.getLast? m q) : Opens a (m ++ q)

/-- The places of a text at which a clause may end: with only blanks behind them, and before blanks and
a connector or an action verb. -/
inductive Closes : List Char → List Char → Prop
  | edge {a b : List Char} (blank : ∀ c ∈ b, isBlank c = true) : Closes a b
  | connector {a gap body q : List Char} (blank : ∀ c ∈ gap, isBlank c = true)
      (joins : Joins (a ++ gap).getLast? body q) : Closes a (gap ++ (body ++ q))
  | verb {a gap m q : List Char} {v : String} (blank : ∀ c ∈ gap, isBlank c = true)
      (known : v ∈ actionVerbs) (stands : Stands v.toList (a ++ gap).getLast? m q) :
      Closes a (gap ++ (m ++ q))

section Ends

variable {a b pre post : List Char}

theorem divides_of_blank_before {p : List Char} (h : ∀ c ∈ p, isBlank c = true) (after : Option Char) :
    divides p.getLast? after = true :=
  divides_of_left fun c hc => isWordChar_of_isBlank (h c (List.mem_of_getLast? hc))

theorem divides_of_blank_behind {q : List Char} (h : ∀ c ∈ q, isBlank c = true)
    (before : Option Char) : divides before q.head? = true :=
  divides_of_right fun c hc => isWordChar_of_isBlank (h c (List.mem_of_head? hc))

theorem Joins.ne_nil {before : Option Char} {body q : List Char} (h : Joins before body q) :
    body ≠ [] :=
  List.length_pos_iff.mp h.length_pos

/-- No word goes on where a clause begins. -/
theorem Opens.divided (h : Opens a b) : divides a.getLast? b.head? = true := by
  cases h with
  | edge blank => exact divides_of_blank_before blank _
  | @connector a body behind b joins blank =>
    rw [← List.append_assoc]
    by_cases hbehind : behind = []
    · subst hbehind
      rw [List.append_nil, getLast?_append_of_ne_nil joins.ne_nil]
      exact joins.divides_behind
    · rw [getLast?_append_of_ne_nil hbehind]
      exact divides_of_blank_before blank _
  | verb known stands =>
    rw [head?_append_of_ne_nil stands.ne_nil_text]
    exact divides_of_isBoundary stands.opens

/-- No word goes on where a clause ends. -/
theorem Closes.divided (h : Closes a b) : divides a.getLast? b.head? = true := by
  have hgap {gap m q : List Char} (blank : ∀ c ∈ gap, isBlank c = true) (hm : m ≠ [])
      (hdiv : divides (a ++ gap).getLast? m.head? = true) :
      divides a.getLast? (gap ++ (m ++ q)).head? = true := by
    by_cases hgap : gap = []
    · subst hgap
      rw [List.append_nil] at hdiv
      rwa [List.nil_append, head?_append_of_ne_nil hm]
    · rw [head?_append_of_ne_nil hgap]
      exact divides_of_blank_behind blank _
  cases h with
  | edge blank => exact divides_of_blank_behind blank _
  | connector blank joins => exact hgap blank joins.ne_nil joins.divides_before
  | verb blank known stands =>
    exact hgap blank stands.ne_nil_text (divides_of_isBoundary stands.opens)

/-- Blanks behind the beginning of a clause do not belong to it. -/
theorem Opens.trim (h : Opens a (pre ++ b)) (hpre : ∀ c ∈ pre, isBlank c = true) :
    Opens (a ++ pre) b := by
  generalize ht : pre ++ b = t at h
  cases h with
  | edge blank =>
    refine .edge fun c hc => ?_
    rcases List.mem_append.mp hc with hc | hc
    · exact blank c hc
    · exact hpre c hc
  | @connector a body behind _ joins blank =>
    subst ht
    have hsplit : a ++ (body ++ behind) ++ pre = a ++ (body ++ (behind ++ pre)) := by simp
    rw [hsplit]
    refine .connector (by rwa [List.append_assoc]) fun c hc => ?_
    rcases List.mem_append.mp hc with hc | hc
    · exact blank c hc
    · exact hpre c hc
  | @verb a m q v known stands =>
    -- a verb does not begin with a blank
    have hhead := stands.head (isLegible_of_mem (mem_cuttingWords_of_verb known) m)
    rw [← head?_append_of_ne_nil stands.ne_nil_text q, ← ht] at hhead
    cases pre with
    | nil =>
      rw [List.append_nil, show b = m ++ q from ht]
      exact .verb known stands
    | cons c pre =>
      rw [List.cons_append, List.head?_cons, Option.any_some,
        isWordChar_of_isBlank (hpre c List.mem_cons_self)] at hhead
      exact Bool.noConfusion hhead

/-- Blanks before the end of a clause do not belong to it. -/
theorem Closes.trim (h : Closes (a ++ post) b) (hpost : ∀ c ∈ post, isBlank c = true) :
    Closes a (post ++ b) := by
  have hblank {gap : List Char} (blank : ∀ c ∈ gap, isBlank c = true) :
      ∀ c ∈ post ++ gap, isBlank c = true := by
    intro c hc
    rcases List.mem_append.mp hc with hc | hc
    · exact hpost c hc
    · exact blank c hc
  generalize ht : a ++ post = t at h
  cases h with
  | edge blank => exact .edge (hblank blank)
  | connector blank joins =>
    subst ht
    rw [← List.append_assoc]
    exact .connector (hblank blank) (by rwa [← List.append_assoc])
  | verb blank known stands =>
    subst ht
    rw [← List.append_assoc]
    exact .verb (hblank blank) known (by rwa [← List.append_assoc])

/-- The end of a clause is seen from its last character. -/
theorem Closes.suffix {p : List Char} (h : Closes (p ++ a) b) (ha : a ≠ []) : Closes a b := by
  have hlast (gap : List Char) : (p ++ a ++ gap).getLast? = (a ++ gap).getLast? := by
    rw [List.append_assoc, getLast?_append_of_ne_nil (by simp [ha])]
  generalize ht : p ++ a = t at h
  cases h with
  | edge blank => exact .edge blank
  | connector blank joins => exact .connector blank (by rwa [← hlast, ht])
  | verb blank known stands => exact .verb blank known (by rwa [← hlast, ht])

end Ends

/-! ## Stretches -/

/-- The part `s` of a text has no connector in it and stands between `a` and `b`, where a clause may begin
and end. -/
structure IsStretchAt (text a s b : List Char) : Prop where
  text_eq : text = a ++ (s ++ b)
  opens : Opens a (s ++ b)
  closes : Closes (a ++ s) b
  unjoined : ∀ p d q, s = p ++ d :: q → recogniseConnector (a ++ p).getLast? (d :: (q ++ b)) = none

section Stretch

variable {text s m : List Char} {P Q : List (Piece Unit)} {u : Unit}

/-- A found connector is a mark or a joining word with blanks around it. -/
theorem exists_of_connector (h : Scanned recogniseConnector none text (P ++ .found u m :: Q)) :
    ∃ gap body behind, m = gap ++ (body ++ behind) ∧ (∀ c ∈ gap, isBlank c = true) ∧
      (∀ c ∈ behind, isBlank c = true) ∧
      Joins (textOf P ++ gap).getLast? body (behind ++ textOf Q) := by
  have htaken := h.taken_of_split.2
  rw [Option.or_none] at htaken
  obtain ⟨gap, body, behind, q, htext, hgap, hbehind, hjoins, hlength⟩ :=
    recogniseConnector_eq_some htaken
  have hassoc : gap ++ (body ++ (behind ++ q)) = (gap ++ (body ++ behind)) ++ q := by simp
  rw [hassoc] at htext
  obtain ⟨rfl, rfl⟩ := List.append_inj htext (by simpa using hlength)
  rw [← List.getLast?_append] at hjoins
  exact ⟨gap, body, behind, rfl, hgap, hbehind, hjoins⟩

theorem exists_isStretchAt (h : s ∈ stretches (scan recogniseConnector text)) :
    ∃ a b, IsStretchAt text a s b := by
  have hscan := scanned_scan isBounded_recogniseConnector text
  obtain ⟨init, tail, hsplit⟩ := List.append_of_mem h
  obtain ⟨P, Q, hpieces, hnil, hP, hQ⟩ := exists_of_stretches hsplit
  rw [hpieces] at hscan
  have htext : text = textOf P ++ (s ++ textOf Q) := by
    rw [← hscan.textOf_eq, textOf_append, textOf_append, textOf_plains]
  refine ⟨textOf P, textOf Q, htext, ?opens, ?closes, ?unjoined⟩
  case opens =>
    by_cases hinit : init = []
    · rw [hnil hinit]
      exact .edge (by simp)
    · obtain ⟨P', u, m, rfl⟩ := hP hinit
      rw [List.append_assoc, List.singleton_append] at hscan
      obtain ⟨gap, body, behind, rfl, -, hbehind, hjoins⟩ := exists_of_connector hscan
      rw [textOf_append, textOf_plains] at hjoins
      have hsplit : textOf (P' ++ [.found u (gap ++ (body ++ behind))]) =
          (textOf P' ++ gap) ++ (body ++ behind) := by simp [Piece.chars]
      rw [hsplit]
      exact .connector hjoins hbehind
  case closes =>
    rcases hQ with rfl | ⟨u, m, Q', rfl⟩
    · exact .edge (by simp)
    · rw [← List.append_assoc] at hscan
      obtain ⟨gap, body, behind, rfl, hgap, -, hjoins⟩ := exists_of_connector hscan
      rw [textOf_append, textOf_plains] at hjoins
      have hsplit : textOf (.found u (gap ++ (body ++ behind)) :: Q') =
          gap ++ (body ++ (behind ++ textOf Q')) := by simp [Piece.chars]
      rw [hsplit]
      exact .connector hgap hjoins
  case unjoined =>
    intro p d q hs
    have hmissed : P ++ (s.map .plain ++ Q) =
        (P ++ p.map .plain) ++ .plain d :: (q.map .plain ++ Q) := by simp [hs]
    rw [hmissed] at hscan
    have hnone := hscan.missed_of_split
    rwa [textOf_append, textOf_append, textOf_plains, textOf_plains, Option.or_none] at hnone

end Stretch

/-! ## Parts of a stretch -/

/-- The pieces of a text with the stretch `s` in it. -/
theorem scan_recogniseVerb_stretch {a s b : List Char} (hopens : Opens a (s ++ b))
    (hcloses : Closes (a ++ s) b) (hs : s ≠ []) : scan recogniseVerb (a ++ (s ++ b)) =
      scan recogniseVerb a ++ (scan recogniseVerb s ++ scan recogniseVerb b) := by
  rw [scan_recogniseVerb_append hopens.divided,
    scan_recogniseVerb_append (hcloses.suffix hs).divided]

/-- The pieces of a part. A verb begins it unless it is the first part, and one follows it unless it is
the last. -/
theorem exists_pieces_of_part {ps : List (Piece String)} {m : List Char}
    (h : m ∈ cutAtVerbs none true ps) : ∃ P g Q, ps = P ++ (g ++ Q) ∧ textOf g = m ∧
      cutAtVerbs none true g = [m] ∧ (P ≠ [] → ∃ v f rest, g = .found v f :: rest) ∧
      (Q ≠ [] → ∃ v f rest, Q = .found v f :: rest) := by
  obtain ⟨g₀, gs, hparts, rfl, hfirst, hrest⟩ := exists_groups none true ps
  rw [hparts, ← List.map_cons] at h
  obtain ⟨g, hg, rfl⟩ := List.mem_map.mp h
  have huncut : cutAtVerbs none true g = [textOf g] := by
    rcases List.mem_cons.mp hg with rfl | hg
    · exact hfirst
    · exact (hrest g hg).2
  obtain ⟨before, behind, hgroups⟩ := List.append_of_mem hg
  refine ⟨before.flatten, g, behind.flatten, ?_, rfl, huncut, fun hP => ?_, fun hQ => ?_⟩
  · rw [← List.flatten_cons, hgroups, List.flatten_append, List.flatten_cons]
  · cases before with
    | nil => exact absurd rfl hP
    | cons g₁ before =>
      obtain ⟨rfl, rfl⟩ := List.cons.inj hgroups
      exact (hrest g (by simp)).1
  · cases behind with
    | nil => exact absurd rfl hQ
    | cons g₁ behind =>
      have hmem : g₁ ∈ gs := by
        cases before with
        | nil =>
          obtain ⟨-, rfl⟩ := List.cons.inj hgroups
          exact List.mem_cons_self
        | cons g₂ before =>
          obtain ⟨-, rfl⟩ := List.cons.inj hgroups
          simp
      obtain ⟨⟨v, f, rest, rfl⟩, -⟩ := hrest g₁ hmem
      exact ⟨v, f, rest ++ behind.flatten, rfl⟩

section Verbs

variable {text f : List Char} {P g Q : List (Piece String)} {v : String}

/-- A clause may begin at a verb. -/
theorem opens_of_verb (h : Scanned recogniseVerb none text (P ++ .found v f :: Q)) :
    Opens (textOf P) (f ++ textOf Q) :=
  have hstands := stands_of_verb h
  .verb hstands.1 hstands.2

/-- A clause may end before a verb. -/
theorem closes_of_verb (h : Scanned recogniseVerb none text (P ++ (g ++ .found v f :: Q)))
    (hg : textOf g ≠ []) : Closes (textOf g) (f ++ textOf Q) := by
  rw [← List.append_assoc] at h
  obtain ⟨hknown, hstands⟩ := stands_of_verb h
  rw [textOf_append, getLast?_append_of_ne_nil hg] at hstands
  have hcloses : Closes (textOf g) ([] ++ (f ++ textOf Q)) :=
    .verb (by simp) hknown (by rwa [List.append_nil])
  exact hcloses

/-- Pieces between two places where no word goes on are those of their text by itself. -/
theorem scan_recogniseVerb_part (h : Scanned recogniseVerb none text (P ++ (g ++ Q)))
    (hbefore : divides (textOf P).getLast? (textOf g).head? = true)
    (hbehind : divides (textOf g).getLast? (textOf Q).head? = true) :
    scan recogniseVerb (textOf g) = g := by
  have hthere := h.suffix
  rw [textOf_append, Option.or_none] at hthere
  have hpart := hthere.of_append (fun p q hpq hq => ?blind) rfl
  · exact (hpart.congr_before (recogniseVerb_of_divides hbefore)).scan_eq isBounded_recogniseVerb
  case blind =>
    refine recogniseVerb_append hq ?_
    rwa [hpq, getLast?_append_of_ne_nil hq] at hbehind

end Verbs

/-- A part that the verbs cut out of a stretch. It is not cut by itself. -/
theorem exists_part {a s b m : List Char} (hopens : Opens a (s ++ b)) (hcloses : Closes (a ++ s) b)
    (h : m ∈ cutAtVerbs none true (scan recogniseVerb s)) (hm : m ≠ []) :
    ∃ x y, s = x ++ (m ++ y) ∧ Opens (a ++ x) (m ++ (y ++ b)) ∧ Closes m (y ++ b) ∧ IsUncut m := by
  have htextOf (text : List Char) : textOf (scan recogniseVerb text) = text :=
    (scanned_scan isBounded_recogniseVerb text).textOf_eq
  obtain ⟨P, g, Q, hpieces, rfl, huncut, hP, hQ⟩ := exists_pieces_of_part h
  have hs : s = textOf P ++ (textOf g ++ textOf Q) := by
    rw [← htextOf s, hpieces, textOf_append, textOf_append]
  have hne : s ≠ [] := fun hnil => by
    rw [hnil, List.nil_eq, List.append_eq_nil_iff, List.append_eq_nil_iff] at hs
    exact hm hs.2.1
  -- a verb of the stretch is a verb of the whole text
  have hscan := scanned_scan isBounded_recogniseVerb (a ++ (s ++ b))
  rw [scan_recogniseVerb_stretch hopens hcloses hne, hpieces, List.append_assoc, List.append_assoc,
    ← List.append_assoc (scan recogniseVerb a)] at hscan
  have hbegins : Opens (a ++ textOf P) (textOf g ++ (textOf Q ++ b)) := by
    by_cases hnil : P = []
    · subst hnil
      rw [hs, textOf_nil, List.nil_append, List.append_assoc] at hopens
      rwa [textOf_nil, List.append_nil]
    · obtain ⟨v, f, rest, rfl⟩ := hP hnil
      rw [List.cons_append] at hscan
      simpa only [textOf_append, textOf_cons, htextOf, Piece.chars, List.append_assoc] using
        opens_of_verb hscan
  have hends : Closes (textOf g) (textOf Q ++ b) := by
    by_cases hnil : Q = []
    · subst hnil
      rw [hs, textOf_nil, List.append_nil, ← List.append_assoc] at hcloses
      exact hcloses.suffix hm
    · obtain ⟨v, f, rest, rfl⟩ := hQ hnil
      rw [List.cons_append] at hscan
      simpa only [textOf_append, textOf_cons, htextOf, Piece.chars, List.append_assoc] using
        closes_of_verb hscan hm
  refine ⟨textOf P, textOf Q, hs, hbegins, hends, ?_⟩
  have hbefore := hbegins.divided
  rw [head?_append_of_ne_nil hm] at hbefore
  have halone := scan_recogniseVerb_part hscan (by rwa [textOf_append, htextOf])
    (by rw [textOf_append, htextOf]; exact hends.divided)
  rw [IsUncut, halone]
  exact huncut

/-! ## Clauses -/

/-- The clause `c` of a text stands between `a` and `b`. It has no connector in it but for a full stop at
its end, and no verb cuts it. -/
structure IsClauseAt (text a c b : List Char) : Prop where
  text_eq : text = a ++ (c ++ b)
  opens : Opens a (c ++ b)
  closes : Closes c b
  unjoined : ∀ p d q, c = p ++ d :: q → recogniseConnector (a ++ p).getLast? (d :: (q ++ b)) = none
  uncut : IsUncut c
  ne_nil : c ≠ []
  begins : BeginsSolid c
  ends : EndsSolid c

/-- Each clause of a text is a part of it. -/
theorem exists_isClauseAt {text clause : String} (h : clause ∈ segment text) :
    ∃ a b, IsClauseAt text.toList a clause.toList b := by
  simp only [segment, ofStretch, List.mem_map, List.mem_flatMap, List.mem_filter] at h
  obtain ⟨c, ⟨s, hs, ⟨m, hm, rfl⟩, hne⟩, rfl⟩ := h
  have hc : trim m ≠ [] := by simpa using hne
  obtain ⟨a, b, hstretch⟩ := exists_isStretchAt hs
  obtain ⟨pre, post, hm', hpre, hpost, hbegins, hends⟩ : ∃ pre post, m = pre ++ (trim m ++ post) ∧
    (∀ c ∈ pre, isBlank c = true) ∧ (∀ c ∈ post, isBlank c = true) ∧ BeginsSolid (trim m) ∧
      EndsSolid (trim m) := exists_trimBoth isBlank m
  have hmne : m ≠ [] := by
    rintro rfl
    exact hc rfl
  obtain ⟨x, y, hparts, hopens, hcloses, huncut⟩ :=
    exists_part hstretch.opens hstretch.closes hm hmne
  rw [String.toList_ofList]
  generalize htrim : trim m = c at *
  subst hm'
  have hsuffix : Closes (c ++ post) (y ++ b) := hcloses.suffix (by simp [hc])
  refine ⟨a ++ (x ++ pre), post ++ (y ++ b), ?_, ?_, hsuffix.trim hpost, ?_, ?_, hc,
    hbegins, hends⟩
  · rw [hstretch.text_eq, hparts]
    simp only [List.append_assoc]
  · rw [← List.append_assoc]
    refine Opens.trim ?_ hpre
    simpa only [List.append_assoc] using hopens
  · intro p d q hsplit
    have hthere := hstretch.unjoined (x ++ (pre ++ p)) d (q ++ (post ++ y)) (by
      rw [hparts, hsplit]
      simp only [List.append_assoc, List.cons_append])
    simpa only [List.append_assoc] using hthere
  · exact huncut.of_edges hpre (divides_of_blank_behind hpost _)

/-! ## A clause by itself -/

section Connector

variable {before : Option Char} {c : Char} {rest b s : List Char}

/-- Where no connector begins, blanks apart. -/
theorem connectorLength?_eq_none_iff : connectorLength? before (c :: rest) = none ↔
    c ≠ ',' ∧ c ≠ ';' ∧ (c = '.' → rest ≠ [] ∧ blanksAhead rest = 0) ∧
      (c ≠ '.' → ∀ w ∈ joiningWords, isWordAt before (c :: rest) w.toList = false) := by
  rw [connectorLength?]
  split
  · rename_i h
    rw [Bool.or_eq_true, decide_eq_true_eq, decide_eq_true_eq] at h
    simp only [reduceCtorEq, false_iff]
    rintro ⟨hcomma, hsemicolon, -⟩
    exact h.elim hcomma hsemicolon
  · rename_i h
    rw [Bool.or_eq_true, decide_eq_true_eq, decide_eq_true_eq, not_or] at h
    split
    · rename_i hstop
      simp only [ite_eq_right_iff, reduceCtorEq, imp_false, Bool.or_eq_true, decide_eq_true_eq, not_or,
        List.isEmpty_iff, Nat.not_lt, Nat.le_zero]
      exact ⟨fun hnot => ⟨h.1, h.2, fun _ => hnot, fun hne => absurd hstop hne⟩,
        fun hall => hall.2.2.1 hstop⟩
    · rename_i hstop
      rw [Option.map_eq_none_iff, List.find?_eq_none]
      simp only [Bool.not_eq_true]
      exact ⟨fun hnot => ⟨h.1, h.2, fun he => absurd he hstop, fun _ => hnot⟩,
        fun hall => hall.2.2.2 hstop⟩

theorem recogniseConnector_gap {gap : List Char} (hgap : ∀ d ∈ gap, isBlank d = true)
    (hc : isBlank c = false) (before : Option Char) (rest : List Char) :
    recogniseConnector before (gap ++ c :: rest) =
      (connectorLength? (gap.getLast?.or before) (c :: rest)).map fun n => ((), gap.length + n) := by
  simp only [recogniseConnector, takeWhile_isBlank rest hgap hc, List.drop_left]

theorem blanksAhead_cons_eq_zero_iff : blanksAhead (c :: rest) = 0 ↔ isBlank c = false := by
  rw [blanksAhead, List.takeWhile_cons]
  cases isBlank c <;> simp

theorem connectorLength?_none_of_divides (hdiv : divides before (some c) = true) :
    connectorLength? before (c :: rest) = none ↔ connectorLength? none (c :: rest) = none := by
  have hwords : ∀ w ∈ joiningWords,
      isWordAt before (c :: rest) w.toList = isWordAt none (c :: rest) w.toList := fun w hw =>
    isWordAt_of_divides (isLegible_of_mem (mem_cuttingWords_of_joining hw) _) hdiv
  rw [connectorLength?_eq_none_iff, connectorLength?_eq_none_iff]
  refine and_congr_right fun _ => and_congr_right fun _ => and_congr_right fun _ => ?_
  refine forall_congr' fun _ => forall₂_congr fun w hw => ?_
  rw [hwords w hw]

/-- A connector that begins in a part begins there in the text, unless it is a full stop that ends the
part. -/
theorem connectorLength?_none_of_append (hdiv : divides (c :: rest).getLast? b.head? = true)
    (hstop : c = '.' → rest ≠ []) (h : connectorLength? before (c :: (rest ++ b)) = none) :
    connectorLength? before (c :: rest) = none := by
  obtain ⟨hcomma, hsemicolon, hdot, hwords⟩ := connectorLength?_eq_none_iff.mp h
  refine connectorLength?_eq_none_iff.mpr ⟨hcomma, hsemicolon, fun he => ?_, fun he w hw => ?_⟩
  · obtain ⟨d, rest, rfl⟩ := List.exists_cons_of_ne_nil (hstop he)
    exact ⟨List.cons_ne_nil _ _,
      blanksAhead_cons_eq_zero_iff.mpr (blanksAhead_cons_eq_zero_iff.mp (hdot he).2)⟩
  · have hlegible := isLegible_of_mem (mem_cuttingWords_of_joining hw) (c :: rest)
    refine Bool.eq_false_iff.mpr fun hat => ?_
    have hthere := ((isWordAt_append_iff hlegible hdiv).mp hat).1
    rw [List.cons_append, hwords he w hw] at hthere
    exact Bool.noConfusion hthere

end Connector

section Alone

variable {text a b c x gap : List Char}

/-- By itself a clause has no connector in it but for a full stop at its end. -/
theorem IsClauseAt.recogniseConnector_eq_none (h : IsClauseAt text a c b) {p q : List Char} {d : Char}
    (hsplit : c = p ++ d :: q)
    (hstop : ∀ gap, (∀ e ∈ gap, isBlank e = true) → d :: q ≠ gap ++ ['.']) :
    recogniseConnector p.getLast? (d :: q) = none := by
  have hends : EndsSolid (d :: q) := EndsSolid.of_append (hsplit ▸ h.ends)
  obtain ⟨gap, e, rest, hgap, hblank, he⟩ := exists_gap hends (List.cons_ne_nil _ _)
  have hthere := h.unjoined p d q hsplit
  have hdiv := h.closes.divided
  rw [hgap] at hsplit
  rw [← List.cons_append, hgap, List.append_assoc, List.cons_append, recogniseConnector_gap hblank he,
    Option.map_eq_none_iff, ← List.getLast?_append] at hthere
  rw [hgap, recogniseConnector_gap hblank he, Option.map_eq_none_iff, ← List.getLast?_append]
  rw [hsplit, ← List.append_assoc, getLast?_append_of_ne_nil (List.cons_ne_nil _ _)] at hdiv
  have hhere := connectorLength?_none_of_append hdiv (fun hdot hrest =>
    hstop gap hblank (by rw [hgap, hdot, hrest])) hthere
  by_cases hnil : p ++ gap = []
  · -- the place is the start of the clause
    have hopens := h.opens.divided
    rw [hsplit, ← List.append_assoc, hnil] at hopens
    obtain ⟨rfl, rfl⟩ := List.append_eq_nil_iff.mp hnil
    rw [List.append_nil, List.append_nil] at hhere
    exact (connectorLength?_none_of_divides hopens).mp hhere
  · rwa [List.append_assoc, getLast?_append_of_ne_nil hnil] at hhere

theorem ofStretch_of_isUncut (h : IsUncut x) (hne : x ≠ []) (hbegins : BeginsSolid x)
    (hends : EndsSolid x) : ofStretch x = [x] := by
  have htrim : trim ([] ++ (x ++ [])) = x := trimBoth_append nofun nofun hne hbegins hends
  rw [List.nil_append, List.append_nil] at htrim
  rw [ofStretch, h, List.map_singleton, htrim]
  simp [hne]

theorem ofStretch_nil : ofStretch [] = [] := rfl

/-- A clause that does not end in a full stop is its own only clause. -/
theorem IsClauseAt.segment_eq (h : IsClauseAt text a c b) (hstop : c.getLast? ≠ some '.') :
    segment (String.ofList c) = [String.ofList c] := by
  have hscan : scan recogniseConnector c = c.map .plain := by
    refine scan_eq_plains isBounded_recogniseConnector fun p d q hsplit => ?_
    refine h.recogniseConnector_eq_none hsplit fun gap _ he => hstop ?_
    rw [hsplit, he, ← List.append_assoc, List.getLast?_concat]
  have hstretches : stretches (scan recogniseConnector c) = [c] := by
    rw [hscan, ← List.append_nil (c.map _), stretches_plains_append, stretches, List.modifyHead_cons,
      List.append_nil]
  rw [segment, String.toList_ofList, hstretches, List.flatMap_singleton,
    ofStretch_of_isUncut h.uncut h.ne_nil h.begins h.ends, List.map_singleton]

/-- A clause that ends in a full stop has the clause without it as its only clause. -/
theorem IsClauseAt.segment_stop (h : IsClauseAt text a (x ++ (gap ++ ['.'])) b) (hne : x ≠ [])
    (hends : EndsSolid x) (hgap : ∀ c ∈ gap, isBlank c = true) :
    segment (String.ofList (x ++ (gap ++ ['.']))) = [String.ofList x] := by
  have hscan : Scanned recogniseConnector none (x ++ (gap ++ ['.']))
      (x.map .plain ++ [.found () (gap ++ ['.'])]) := by
    have hdot : isBlank '.' = false := by decide
    refine .plains (fun p d q hsplit => ?_) ?_
    · rw [Option.or_none]
      refine h.recogniseConnector_eq_none (by rw [hsplit]; simp) fun gap' hgap' he => ?_
      -- the last character of `x` would be one of the blanks before the full stop
      rw [← List.cons_append, ← List.append_assoc, List.append_left_inj] at he
      have hlast : ∃ e, (d :: q).getLast? = some e := ⟨_, List.getLast?_eq_some_getLast (by simp)⟩
      obtain ⟨e, he'⟩ := hlast
      have hsolid := hends e (by rw [hsplit, List.getLast?_append, he']; rfl)
      have hmem : e ∈ gap' := he ▸ List.mem_append_left _ (List.mem_of_getLast? he')
      rw [hgap' e hmem] at hsolid
      exact Bool.noConfusion hsolid
    · have hfound : recogniseConnector (x.getLast?.or none) (gap ++ ['.']) =
          some ((), (gap ++ ['.']).length) := by
        rw [recogniseConnector_gap hgap hdot, List.length_append]
        rfl
      have hlone : Scanned recogniseConnector (x.getLast?.or none) ((gap ++ ['.']) ++ [])
          [.found () (gap ++ ['.'])] := .found (by simp) (by rwa [List.append_nil]) .nil
      rwa [List.append_nil] at hlone
  have hstretches : stretches (scan recogniseConnector (x ++ (gap ++ ['.']))) = [x, []] := by
    rw [hscan.scan_eq isBounded_recogniseConnector, stretches_plains_append, stretches, stretches,
      List.modifyHead_cons, List.append_nil]
  have huncut : IsUncut x := by
    have hall : IsUncut ([] ++ (x ++ (gap ++ ['.']))) := h.uncut
    refine hall.of_edges (by simp) (divides_of_right fun c hc => ?_)
    rcases List.mem_append.mp (List.mem_of_head? hc) with hc | hc
    · exact isWordChar_of_isBlank (hgap c hc)
    · exact isWordChar_mark (Or.inr (Or.inr (List.mem_singleton.mp hc)))
  have hbegins : BeginsSolid x := fun d hd => h.begins d (by
    rwa [head?_append_of_ne_nil hne])
  rw [segment, String.toList_ofList, hstretches, List.flatMap_cons, List.flatMap_singleton,
    ofStretch_of_isUncut huncut hne hbegins hends, ofStretch_nil, List.append_nil, List.map_singleton]

end Alone

end Teleop.Clause
