import Mathlib.Data.List.Find
import Teleop.Proofs.Clause.Connector
import Teleop.Proofs.Text.Seam
import Teleop.Proofs.Text.Words

/-!
# Clauses of two texts joined by `then`

Joining two texts by the word `then` joins their clauses. A connector at the end of the first text
takes the space before `then` as well, and then `then` is a connector of its own: the stretches are
the same, since a text that ends in a connector has an empty stretch behind it. Both texts must not
have blanks at the join.
-/

namespace Teleop.Clause

open Text

theorem joiningWords_not_cross : ∀ w ∈ joiningWords, crosses w.toList seam = false := by
  decide

/-! ## Blanks ahead -/

theorem blanksAhead_lt {s : List Char} (h : EndsSolid s) (hne : s ≠ []) :
    blanksAhead s < s.length := by
  obtain ⟨gap, c, rest, rfl, hgap, hc⟩ := exists_gap h hne
  rw [blanksAhead, takeWhile_isBlank rest hgap hc, List.length_append, List.length_cons]
  omega

/-- At the join one more blank is ahead of a text that has ended, and nothing else changes. -/
theorem blanksAhead_joined {s : List Char} (h : EndsSolid s) (b : List Char) :
    blanksAhead (joined s b) = if blanksAhead s = s.length then s.length + 1 else blanksAhead s := by
  by_cases hne : s = []
  · subst hne
    have ht : isBlank 't' = false := by decide
    have hspace : isBlank ' ' = true := by decide
    simp [blanksAhead, joined, seam, hspace, ht]
  · rw [if_neg (Nat.ne_of_lt (blanksAhead_lt h hne))]
    obtain ⟨gap, c, rest, rfl, hgap, hc⟩ := exists_gap h hne
    rw [blanksAhead, joined, List.append_assoc, List.cons_append, takeWhile_isBlank _ hgap hc,
      blanksAhead, takeWhile_isBlank _ hgap hc]

/-- What takes `p` and the blanks behind it takes one more character if that was all of the text. -/
theorem add_blanksAhead_joined {p q : List Char} (h : EndsSolid (p ++ q)) (b : List Char) :
    p.length + blanksAhead (joined q b) =
      if p.length + blanksAhead q = (p ++ q).length then p.length + blanksAhead q + 1
      else p.length + blanksAhead q := by
  rw [blanksAhead_joined h.of_append b, List.length_append]
  split <;> split <;> omega

/-! ## Connectors -/

/-- Whether a full stop is a connector is seen before the join. -/
theorem isStop_joined {s : List Char} (h : EndsSolid s) (b : List Char) :
    ((joined s b).isEmpty || 0 < blanksAhead (joined s b)) = (s.isEmpty || 0 < blanksAhead s) := by
  rw [blanksAhead_joined h b]
  cases s with
  | nil => rfl
  | cons c s =>
    rw [if_neg (Nat.ne_of_lt (blanksAhead_lt h (List.cons_ne_nil _ _)))]
    rfl

theorem find?_joiningWords_joined {s : List Char} (hne : s ≠ []) (b : List Char)
    (before : Option Char) :
    (joiningWords.find? fun w => isWordAt before (joined s b) w.toList) =
      joiningWords.find? fun w => isWordAt before s w.toList :=
  List.find?_congr fun w hw => isWordAt_append_seam (joiningWords_ne_nil w hw) hne
    (joiningWords_not_cross w hw) before

/-- A connector that reaches the end of a text takes the space of the join as well. -/
theorem connectorLength?_joined {s : List Char} (hs : EndsSolid s) (hne : s ≠ []) (b : List Char)
    (before : Option Char) :
    connectorLength? before (joined s b) =
      (connectorLength? before s).map fun n => if n = s.length then n + 1 else n := by
  cases s with
  | nil => exact absurd rfl hne
  | cons c rest =>
    have hcons : joined (c :: rest) b = c :: joined rest b := rfl
    have hone : 1 + blanksAhead (joined rest b) =
        if 1 + blanksAhead rest = (c :: rest).length then 1 + blanksAhead rest + 1
        else 1 + blanksAhead rest := add_blanksAhead_joined (p := [c]) hs b
    rw [hcons, connectorLength?, connectorLength?]
    split
    · rw [Option.map_some, hone]
    · split
      · rw [isStop_joined (EndsSolid.of_append (p := [c]) hs)]
        split
        · rw [Option.map_some, hone]
        · rfl
      · rw [← hcons, find?_joiningWords_joined hne, Option.map_map]
        cases hw : joiningWords.find? fun w => isWordAt before (c :: rest) w.toList with
        | none => rfl
        | some w =>
          have hmem := List.mem_of_find?_eq_some hw
          have hat : isWordAt before (c :: rest) w.toList = true := by simpa using List.find?_some hw
          obtain ⟨m, q, hmq, hstands⟩ := (isWordAt_iff (joiningWords_ne_nil w hmem)).mp hat
          have hlength : w.length = m.length := by rw [hstands.length_eq, String.length_toList]
          have hassoc : joined (m ++ q) b = m ++ joined q b := by simp [joined]
          rw [hmq] at hs ⊢
          rw [Option.map_some, Option.map_some, Function.comp_apply, hassoc, hlength,
            List.drop_left, List.drop_left, add_blanksAhead_joined hs b]

/-- A connector before the join, with the blanks around it. -/
theorem recogniseConnector_joined {s : List Char} (hs : EndsSolid s) (hne : s ≠ []) (b : List Char)
    (before : Option Char) :
    recogniseConnector before (joined s b) =
      (recogniseConnector before s).map fun p => if p.2 = s.length then ((), p.2 + 1) else p := by
  obtain ⟨gap, c, rest, rfl, hgap, hc⟩ := exists_gap hs hne
  have hassoc : joined (gap ++ c :: rest) b = gap ++ c :: joined rest b := by simp [joined]
  have hsolid : EndsSolid (c :: rest) := hs.of_append
  have hlength := connectorLength?_joined hsolid (List.cons_ne_nil _ _) b (gap.getLast?.or before)
  rw [show joined (c :: rest) b = c :: joined rest b from rfl] at hlength
  simp only [recogniseConnector, hassoc, takeWhile_isBlank _ hgap hc, List.drop_left, hlength,
    Option.map_map]
  congr 1
  funext n
  simp only [Function.comp_apply, List.length_append, Nat.add_left_cancel_iff]
  split <;> rfl

/-! ## The join itself -/

theorem blanksAhead_of_beginsSolid {b : List Char} (h : BeginsSolid b) : blanksAhead b = 0 := by
  cases b with
  | nil => rfl
  | cons c b => simp [Clause.blanksAhead, h c rfl]

theorem connectorLength?_behind_space (text : List Char) :
    connectorLength? (some ' ') text = connectorLength? none text := by
  cases text with
  | nil => rfl
  | cons c rest => simp only [connectorLength?, isWordAt_behind_space]

theorem recogniseConnector_behind_space (text : List Char) :
    recogniseConnector (some ' ') text = recogniseConnector none text := by
  simp only [recogniseConnector]
  cases (text.takeWhile isBlank).getLast? with
  | none => rw [Option.none_or, Option.none_or, connectorLength?_behind_space]
  | some c => rfl

theorem isWordAt_then (b : List Char) :
    isWordAt (some ' ') (seam ++ b) "then".toList = true := by
  refine (isWordAt_iff (by decide)).mpr ⟨"then".toList, ' ' :: b, rfl, by decide, rfl, ?_,
    by decide, ?_⟩
  · intro k l c hl hc
    rw [hl] at hc
    cases hc
    exact sameLetter_iff.mpr (Or.inl rfl)
  · exact (by decide : isBoundary (some 'n') (some ' ') = true)

theorem not_isWordAt_afterThat (b : List Char) :
    isWordAt (some ' ') (seam ++ b) "after that".toList = false := by
  have hfirst : sameLetter 'a' 't' = false := by decide
  have hword : "after that".toList = 'a' :: "fter that".toList := by decide
  simp [isWordAt, hword, seam, startsWithLetters, hfirst]

theorem connectorLength?_seam {b : List Char} (hb : BeginsSolid b) :
    connectorLength? (some ' ') (seam ++ b) = some 5 := by
  have hfind : (joiningWords.find? fun w => isWordAt (some ' ') (seam ++ b) w.toList) =
      some "then" := by
    simp only [joiningWords, List.find?_cons, not_isWordAt_afterThat, isWordAt_then]
  have hlength : "then".length + blanksAhead ((seam ++ b).drop "then".length) = 5 := by
    have hdrop : (seam ++ b).drop "then".length = ' ' :: b := rfl
    have hspace : isBlank ' ' = true := by decide
    have hnone := blanksAhead_of_beginsSolid hb
    rw [blanksAhead] at hnone
    rw [hdrop, blanksAhead, List.takeWhile_cons_of_pos hspace, List.length_cons, hnone]
    rfl
  simp only [seam, List.cons_append, connectorLength?] at hfind hlength ⊢
  rw [if_neg (by decide), if_neg (by decide), hfind, Option.map_some, hlength]

theorem recogniseConnector_seam {b : List Char} (hb : BeginsSolid b) :
    recogniseConnector (some ' ') (seam ++ b) = some ((), seam.length) := by
  have hgap : (seam ++ b).takeWhile isBlank = [] := List.takeWhile_cons_of_neg (by decide)
  simp only [recogniseConnector, hgap, List.length_nil, List.drop_zero, List.getLast?_nil,
    Option.none_or, connectorLength?_seam hb]
  rfl

theorem recogniseConnector_space_seam {b : List Char} (hb : BeginsSolid b) (before : Option Char) :
    recogniseConnector before (' ' :: (seam ++ b)) = some ((), (' ' :: seam).length) := by
  have hgap : (' ' :: (seam ++ b)).takeWhile isBlank = [' '] := by
    rw [List.takeWhile_cons_of_pos (by decide)]
    exact congrArg (' ' :: ·) (List.takeWhile_cons_of_neg (by decide))
  simp only [recogniseConnector, hgap, List.length_singleton, List.drop_succ_cons, List.drop_zero,
    List.getLast?_singleton, Option.some_or, connectorLength?_seam hb]
  rfl

/-- The stretches of two joined texts are those of the texts. -/
theorem exists_scanned_joined {before : Option Char} {a b : List Char} {ps qs : List (Piece Unit)}
    (h : Scanned recogniseConnector before a ps) (ha : EndsSolid a) (hb : BeginsSolid b)
    (hq : Scanned recogniseConnector (some ' ') b qs) :
    ∃ ps', Scanned recogniseConnector before (joined a b) ps' ∧
      stretches ps' = stretches ps ++ stretches qs := by
  induction h with
  | @nil before =>
    refine ⟨.found () (' ' :: seam) :: qs, ?_, rfl⟩
    exact .found (List.cons_ne_nil _ _) (recogniseConnector_space_seam hb before) hq
  | @plain before c rest ps missed _ ih =>
    obtain ⟨ps', hps', hstretches⟩ := ih (EndsSolid.of_append (p := [c]) ha)
    refine ⟨.plain c :: ps', .plain ?_ hps', ?_⟩
    · have hseen := recogniseConnector_joined ha (List.cons_ne_nil _ _) b before
      rwa [missed] at hseen
    · obtain ⟨s, ss, hs⟩ := List.exists_cons_of_ne_nil (stretches_ne_nil ps)
      simp only [stretches, hstretches, hs, List.cons_append, List.modifyHead_cons]
  | @found before value m rest ps hne taken behind ih =>
    have hseen := recogniseConnector_joined ha (by simp [hne]) b before
    rw [taken, Option.map_some, List.length_append] at hseen
    by_cases hrest : rest = []
    · -- the connector ends the text, takes the space of the join, and `then` follows it
      subst hrest
      obtain rfl := behind.unique .nil
      rw [if_pos (by simp)] at hseen
      refine ⟨.found () (m ++ [' ']) :: .found () seam :: qs, ?_, rfl⟩
      have hsplit : joined (m ++ []) b = (m ++ [' ']) ++ (seam ++ b) := by simp [joined]
      rw [hsplit] at hseen ⊢
      refine .found (by simp) (by simpa using hseen) ?_
      rw [List.getLast?_concat]
      exact .found (by simp [seam]) (recogniseConnector_seam hb) hq
    · obtain ⟨ps', hps', hstretches⟩ := ih ha.of_append
      have hlonger : m.length ≠ m.length + rest.length := by
        have := List.length_pos_iff.mpr hrest
        omega
      rw [if_neg hlonger] at hseen
      have hassoc : joined (m ++ rest) b = m ++ joined rest b := by simp [joined]
      rw [hassoc] at hseen ⊢
      refine ⟨.found value m :: ps', .found hne hseen hps', ?_⟩
      rw [stretches, hstretches, stretches, List.cons_append]

/-- The clauses of two texts joined by `then` are the clauses of one and then of the other. -/
theorem segment_joined {a b : List Char} (ha : EndsSolid a) (hb : BeginsSolid b) :
    segment (String.ofList (joined a b)) =
      segment (String.ofList a) ++ segment (String.ofList b) := by
  have hbounded := isBounded_recogniseConnector
  have hscan := (scanned_scan hbounded b).congr_before (recogniseConnector_behind_space b).symm
  obtain ⟨ps, hps, hstretches⟩ := exists_scanned_joined (scanned_scan hbounded a) ha hb hscan
  simp only [segment, String.toList_ofList, hps.scan_eq hbounded, hstretches, List.flatMap_append,
    List.map_append]

end Teleop.Clause
