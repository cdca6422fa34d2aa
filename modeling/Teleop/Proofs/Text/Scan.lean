import Teleop.Text.Scan

/-!
# What a scan leaves behind

`Scanned` is the walk of a scan as a judgement about a text and its pieces. A recogniser that stays
within the text has exactly one such row of pieces for each text, the one that `scan` computes, so a
scan of an unknown text is taken apart, and one of a composed text is put together, by the rules of
the judgement. The last part follows a block of characters that no occurrence touches into one of the
stretches between the occurrences.
-/

namespace Teleop.Text

variable {α : Type} {r : Recogniser α}

def textOf (ps : List (Piece α)) : List Char :=
  ps.flatMap Piece.chars

@[simp] theorem textOf_nil : textOf ([] : List (Piece α)) = [] := rfl

@[simp] theorem textOf_cons (p : Piece α) (ps : List (Piece α)) :
    textOf (p :: ps) = p.chars ++ textOf ps := rfl

@[simp] theorem textOf_append (ps qs : List (Piece α)) :
    textOf (ps ++ qs) = textOf ps ++ textOf qs := List.flatMap_append

/-- A recogniser that takes at least one character and none behind the end of the text. -/
def Recogniser.IsBounded (r : Recogniser α) : Prop :=
  ∀ before text value n, r before text = some (value, n) → 0 < n ∧ n ≤ text.length

inductive Scanned (r : Recogniser α) : Option Char → List Char → List (Piece α) → Prop
  | nil {before : Option Char} : Scanned r before [] []
  | plain {before : Option Char} {c : Char} {rest : List Char} {ps : List (Piece α)}
      (missed : r before (c :: rest) = none) (behind : Scanned r (some c) rest ps) :
      Scanned r before (c :: rest) (.plain c :: ps)
  | found {before : Option Char} {value : α} {m rest : List Char} {ps : List (Piece α)}
      (taken_ne : m ≠ []) (taken : r before (m ++ rest) = some (value, m.length))
      (behind : Scanned r m.getLast? rest ps) :
      Scanned r before (m ++ rest) (.found value m :: ps)

/-- The last character of a text that begins with `c`, behind whatever stood before. -/
theorem getLast?_cons_or (c : Char) (text : List Char) (before : Option Char) :
    (c :: text).getLast?.or before = text.getLast?.or (some c) := by
  rw [List.getLast?_cons]
  cases text.getLast? <;> rfl

theorem scanned_scanFrom (hr : r.IsBounded) (text : List Char) :
    ∀ skip before, skip ≤ text.length →
      Scanned r ((text.take skip).getLast?.or before) (text.drop skip)
        (scanFrom r skip before text) := by
  induction text with
  | nil =>
    intro skip before _
    rw [List.drop_nil]
    unfold scanFrom
    exact .nil
  | cons c rest ih =>
    intro skip before hskip
    have hlast (n : Nat) : (c :: rest.take n).getLast? = (rest.take n).getLast?.or (some c) := by
      rw [← getLast?_cons_or c _ none, Option.or_none]
    cases skip with
    | succ skip =>
      have h := ih skip (some c) (Nat.le_of_succ_le_succ hskip)
      rw [← hlast] at h
      simpa [scanFrom, hlast] using h
    | zero =>
      -- outside an occurrence the recogniser is asked; inside one its answer was taken before
      cases hrec : r before (c :: rest) with
      | none =>
        have h := ih 0 (some c) (Nat.zero_le _)
        simpa [scanFrom, hrec] using Scanned.plain hrec h
      | some found =>
        obtain ⟨value, n⟩ := found
        obtain ⟨hpos, hle⟩ := hr _ _ _ _ hrec
        obtain ⟨taken, rfl⟩ : ∃ taken, n = taken + 1 := ⟨n - 1, by omega⟩
        have htaken : taken ≤ rest.length := Nat.le_of_succ_le_succ hle
        have h := ih taken (some c) htaken
        rw [← hlast] at h
        have hsplit : (c :: rest.take taken) ++ rest.drop taken = c :: rest := by simp
        have hlength : (c :: rest.take taken).length = taken + 1 := by
          rw [List.length_cons, List.length_take_of_le htaken]
        have : Scanned r before ((c :: rest.take taken) ++ rest.drop taken) _ :=
          .found (List.cons_ne_nil _ _) (by rw [hsplit, hlength]; exact hrec) h
        rw [hsplit] at this
        simpa [scanFrom, hrec] using this

/-- The computed pieces of a text are the walk of its scan. -/
theorem scanned_scan (hr : r.IsBounded) (text : List Char) :
    Scanned r none text (scan r text) := by
  simpa [scan] using scanned_scanFrom hr text 0 none (Nat.zero_le _)

/-- What a scan finds was recognised somewhere in the text. -/
theorem exists_of_mem_scanFrom {skip : Nat} {before : Option Char} {text : List Char} {p : Piece α}
    {value : α} (h : p ∈ scanFrom r skip before text) (hvalue : p.value? = some value) :
    ∃ before rest n, r before rest = some (value, n) := by
  induction text generalizing skip before with
  | nil => simp [scanFrom] at h
  | cons c rest ih =>
    cases skip with
    | succ skip => exact ih h
    | zero =>
      rw [scanFrom] at h
      split at h
      · rename_i found taken hrec
        rcases List.mem_cons.mp h with rfl | h
        · cases hvalue
          exact ⟨before, c :: rest, _, hrec⟩
        · exact ih h
      · rcases List.mem_cons.mp h with rfl | h
        · simp [Piece.value?] at hvalue
        · exact ih h

theorem exists_of_mem_scan {text : List Char} {p : Piece α} {value : α} (h : p ∈ scan r text)
    (hvalue : p.value? = some value) : ∃ before rest n, r before rest = some (value, n) :=
  exists_of_mem_scanFrom h hvalue

namespace Scanned

variable {before : Option Char} {text : List Char} {ps qs : List (Piece α)}

/-- The pieces of a text put together again are the text. -/
theorem textOf_eq (h : Scanned r before text ps) : textOf ps = text := by
  induction h with
  | nil => rfl
  | plain _ _ ih => rw [textOf_cons, ih]; rfl
  | found _ _ _ ih => rw [textOf_cons, ih]; rfl

theorem unique (h : Scanned r before text ps) (h' : Scanned r before text qs) : ps = qs := by
  induction h generalizing qs with
  | nil =>
    generalize ht : ([] : List Char) = t at h'
    cases h' with
    | nil => rfl
    | plain => simp at ht
    | found hne => simp [hne] at ht
  | @plain before c rest ps missed _ ih =>
    generalize ht : c :: rest = t at h'
    cases h' with
    | nil => simp at ht
    | plain _ behind =>
      obtain ⟨rfl, rfl⟩ := List.cons.inj ht
      rw [ih behind]
    | found _ taken =>
      rw [← ht, missed] at taken
      simp at taken
  | @found before value m rest ps hne taken _ ih =>
    generalize ht : m ++ rest = t at h'
    cases h' with
    | nil => simp [hne] at ht
    | plain missed =>
      rw [ht, missed] at taken
      simp at taken
    | found _ taken' behind =>
      rw [ht, taken'] at taken
      simp only [Option.some.injEq, Prod.mk.injEq] at taken
      obtain ⟨rfl, hlength⟩ := taken
      obtain ⟨rfl, rfl⟩ := List.append_inj ht hlength.symm
      rw [ih behind]

theorem scan_eq (hr : r.IsBounded) (h : Scanned r none text ps) : scan r text = ps :=
  (scanned_scan hr text).unique h

/-- A scan goes on behind its first pieces as it would have begun there. -/
theorem suffix (h : Scanned r before text (ps ++ qs)) :
    Scanned r ((textOf ps).getLast?.or before) (textOf qs) qs := by
  induction ps generalizing before text with
  | nil => rwa [List.nil_append, ← h.textOf_eq] at h
  | cons p ps ih =>
    rw [textOf_cons, List.getLast?_append, Option.or_assoc]
    cases h with
    | plain _ behind => exact ih behind
    | found hne _ behind =>
      have hlast := ih behind
      have hsome := List.getLast?_eq_some_getLast hne
      rw [hsome] at hlast
      rwa [Piece.chars, hsome, Option.some_or]

/-- Each occurrence among the pieces is what was recognised at its place. -/
theorem taken_of_split {P Q : List (Piece α)} {value : α} {m : List Char}
    (h : Scanned r before text (P ++ .found value m :: Q)) :
    m ≠ [] ∧ r ((textOf P).getLast?.or before) (m ++ textOf Q) = some (value, m.length) := by
  have hs := h.suffix
  generalize ht : textOf (.found value m :: Q) = t at hs
  cases hs with
  | found hne taken behind =>
    rw [behind.textOf_eq]
    exact ⟨hne, taken⟩

/-- Nothing is recognised at a character outside all occurrences. -/
theorem missed_of_split {P Q : List (Piece α)} {c : Char}
    (h : Scanned r before text (P ++ .plain c :: Q)) :
    r ((textOf P).getLast?.or before) (c :: textOf Q) = none := by
  have hs := h.suffix
  generalize ht : textOf (.plain c :: Q) = t at hs
  cases hs with
  | plain missed behind =>
    rw [behind.textOf_eq]
    exact missed

theorem ne_nil_of_found (h : Scanned r before text ps) {value : α} {m : List Char}
    (hm : .found value m ∈ ps) : m ≠ [] := by
  obtain ⟨P, Q, rfl⟩ := List.append_of_mem hm
  exact h.taken_of_split.1

/-- The character before a text matters only to what is recognised at its start. -/
theorem congr_before {before' : Option Char} (hr : r before text = r before' text)
    (h : Scanned r before text ps) : Scanned r before' text ps := by
  cases h with
  | nil => exact .nil
  | plain missed behind => exact .plain (hr ▸ missed) behind
  | found hne taken behind => exact .found hne (hr ▸ taken) behind

/-- Characters at which nothing is recognised are pieces by themselves. -/
theorem plains {k w : List Char} (hmissed : ∀ a c b, k = a ++ c :: b →
      r (a.getLast?.or before) (c :: (b ++ w)) = none)
    (h : Scanned r (k.getLast?.or before) w qs) :
    Scanned r before (k ++ w) (k.map .plain ++ qs) := by
  induction k generalizing before with
  | nil => exact h
  | cons c k ih =>
    rw [getLast?_cons_or] at h
    refine .plain (hmissed [] c k rfl) (ih (fun a d b hk => ?_) h)
    rw [← getLast?_cons_or]
    exact hmissed (c :: a) d b (by rw [hk]; rfl)

section Append

variable {a b : List Char}

/-- A text is scanned by itself where no occurrence sees what follows it. -/
theorem append (hblind : ∀ p s, a = p ++ s → s ≠ [] →
      r (p.getLast?.or before) (s ++ b) = r (p.getLast?.or before) s)
    (ha : Scanned r before a ps) (hb : Scanned r (a.getLast?.or before) b qs) :
    Scanned r before (a ++ b) (ps ++ qs) := by
  induction ha with
  | nil => simpa using hb
  | @plain before c rest ps missed _ ih =>
    rw [List.cons_append, List.cons_append]
    refine .plain ?_ (ih (fun p s hsplit hne => ?_) ?_)
    · have hhere := hblind [] (c :: rest) rfl (List.cons_ne_nil _ _)
      exact hhere.trans missed
    · rw [← getLast?_cons_or]
      exact hblind (c :: p) s (by rw [hsplit]; rfl) hne
    · rwa [getLast?_cons_or] at hb
  | @found before value m rest ps hne taken _ ih =>
    have hsome := List.getLast?_eq_some_getLast hne
    rw [List.append_assoc, List.cons_append]
    refine .found hne ?_ (ih (fun p s hsplit hs => ?_) ?_)
    · have hhere := hblind [] (m ++ rest) rfl (by simp [hne])
      rw [← List.append_assoc]
      exact hhere.trans taken
    · have hthere := hblind (m ++ p) s (by rw [hsplit, List.append_assoc]) hs
      rwa [List.getLast?_append, Option.or_assoc, hsome, Option.some_or, ← hsome] at hthere
    · rw [List.getLast?_append, Option.or_assoc, hsome] at hb
      rw [hsome]
      simpa using hb

/-- The first pieces of a text are the scan of what they make up where no occurrence sees what follows
it. -/
theorem of_append (hblind : ∀ p s, a = p ++ s → s ≠ [] →
      r (p.getLast?.or before) (s ++ b) = r (p.getLast?.or before) s)
    (h : Scanned r before (a ++ b) (ps ++ qs)) (ha : textOf ps = a) : Scanned r before a ps := by
  induction ps generalizing before a with
  | nil =>
    subst ha
    exact .nil
  | cons p ps ih =>
    subst ha
    generalize ht : textOf (p :: ps) ++ b = t at h
    cases h with
    | @plain _ c rest _ missed behind =>
      obtain rfl : textOf ps ++ b = rest := by simpa [Piece.chars] using ht
      refine .plain ?_ (ih (a := textOf ps) (fun p s hsplit hne => ?_) behind rfl)
      · exact (hblind [] (c :: textOf ps) rfl (List.cons_ne_nil _ _)).symm.trans missed
      · rw [← getLast?_cons_or]
        exact hblind (c :: p) s (by rw [textOf_cons, hsplit]; rfl) hne
    | @found _ value m rest _ hne taken behind =>
      have hsome := List.getLast?_eq_some_getLast hne
      obtain rfl : textOf ps ++ b = rest := by simpa [Piece.chars] using ht
      refine .found hne ?_ (ih (a := textOf ps) (fun p s hsplit hs => ?_) behind rfl)
      · rw [← List.append_assoc] at taken
        exact (hblind [] (m ++ textOf ps) rfl (by simp [hne])).symm.trans taken
      · have hthere := hblind (m ++ p) s
          (by rw [textOf_cons, hsplit, Piece.chars, List.append_assoc]) hs
        rwa [List.getLast?_append, Option.or_assoc, hsome, Option.some_or, ← hsome] at hthere

end Append

end Scanned

/-! ## Stretches -/

theorem stretches_ne_nil (ps : List (Piece α)) : stretches ps ≠ [] := by
  induction ps with
  | nil => simp [stretches]
  | cons p ps ih =>
    cases p with
    | plain c =>
      obtain ⟨s, ss, hs⟩ := List.exists_cons_of_ne_nil ih
      simp [stretches, hs]
    | found value m => simp [stretches]

theorem exists_append_of_length_le {m t a z : List Char} (h : m ++ t = a ++ z)
    (hle : m.length ≤ a.length) : ∃ a', a = m ++ a' ∧ t = a' ++ z := by
  obtain ⟨a', rfl⟩ : m <+: a :=
    List.prefix_of_prefix_length_le ⟨t, h⟩ (List.prefix_append _ _) hle
  rw [List.append_assoc] at h
  exact ⟨a', rfl, List.append_cancel_left h⟩

/-- The block `x` between `a` and `b` stands in one of some parts of the text, with what is left of its
surroundings. Nothing is lost before it in the first part. -/
def Keeps (parts : List (List Char)) (a x b : List Char) : Prop :=
  ∃ init a' b' tail, parts = init ++ (a' ++ (x ++ b')) :: tail ∧ a' <:+ a ∧ b' <+: b ∧
    (init = [] → a' = a)

namespace Keeps

variable {parts : List (List Char)} {a x b : List Char}

/-- A part that is long enough keeps a block near the start of the text. -/
theorem of_head {part : List Char} {tail : List (List Char)} (hpart : part <+: a ++ (x ++ b))
    (hlength : a.length + x.length ≤ part.length) : Keeps (part :: tail) a x b := by
  have hblock : a ++ x <+: a ++ (x ++ b) := by
    rw [← List.append_assoc]
    exact List.prefix_append _ _
  obtain ⟨b', rfl⟩ := List.prefix_of_prefix_length_le hblock hpart (by simpa using hlength)
  refine ⟨[], a, b', tail, by simp, List.suffix_rfl, ?_, fun _ => rfl⟩
  rwa [List.append_assoc, List.prefix_append_right_inj, List.prefix_append_right_inj] at hpart

theorem modifyHead (m : List Char) (h : Keeps parts a x b) :
    Keeps (parts.modifyHead (m ++ ·)) (m ++ a) x b := by
  obtain ⟨init, a', b', tail, rfl, ha, hb, hinit⟩ := h
  cases init with
  | nil =>
    have := hinit rfl
    subst this
    exact ⟨[], m ++ a', b', tail, by simp, List.suffix_rfl, hb, fun _ => rfl⟩
  | cons part init =>
    exact ⟨(m ++ part) :: init, a', b', tail, by simp, ha.trans (List.suffix_append _ _), hb,
      by simp⟩

theorem cons (part m : List Char) (h : Keeps parts a x b) : Keeps (part :: parts) (m ++ a) x b := by
  obtain ⟨init, a', b', tail, rfl, ha, hb, -⟩ := h
  exact ⟨part :: init, a', b', tail, by simp, ha.trans (List.suffix_append _ _), hb, by simp⟩

end Keeps

/-- No occurrence among the pieces touches the characters from `start` up to `stop`. -/
def Clear (ps : List (Piece α)) (start stop : Nat) : Prop :=
  ∀ P value m Q, ps = P ++ .found value m :: Q →
    (textOf P).length + m.length ≤ start ∨ stop ≤ (textOf P).length

theorem Clear.tail {p : Piece α} {ps : List (Piece α)} {start stop : Nat}
    (h : Clear (p :: ps) start stop) :
    Clear ps (start - p.chars.length) (stop - p.chars.length) := by
  intro P value m Q he
  have := h (p :: P) value m Q (by rw [he]; rfl)
  rw [textOf_cons, List.length_append] at this
  omega

/-- The first stretch goes at least up to the first occurrence. -/
theorem exists_first_stretch {ps : List (Piece α)} (hne : ∀ value m, .found value m ∈ ps → m ≠ [])
    {n : Nat} (hn : n ≤ (textOf ps).length) (hclear : Clear ps 0 n) :
    ∃ s tail, stretches ps = s :: tail ∧ s <+: textOf ps ∧ n ≤ s.length := by
  induction ps generalizing n with
  | nil => exact ⟨[], [], rfl, List.prefix_rfl, hn⟩
  | cons p ps ih =>
    cases p with
    | plain c =>
      have hrest : Clear ps 0 (n - 1) := hclear.tail
      simp only [textOf_cons, Piece.chars, List.length_append, List.length_singleton] at hn
      obtain ⟨s, tail, hs, hpre, hlen⟩ :=
        ih (fun value m hm => hne value m (List.mem_cons_of_mem _ hm)) (by omega) hrest
      refine ⟨c :: s, tail, by rw [stretches, hs]; rfl, ?_, by simp only [List.length_cons]; omega⟩
      exact (List.prefix_append_right_inj [c]).mpr hpre
    | found value m =>
      have hm : 0 < m.length := List.length_pos_iff.mpr (hne value m List.mem_cons_self)
      have := hclear [] value m ps rfl
      simp only [textOf_nil, List.length_nil] at this
      exact ⟨[], stretches ps, rfl, List.nil_prefix, by simp only [List.length_nil]; omega⟩

/-- A block that no occurrence touches stands in one of the stretches. -/
theorem keeps_stretches {ps : List (Piece α)} (hne : ∀ value m, .found value m ∈ ps → m ≠ [])
    {a x b : List Char} (htext : textOf ps = a ++ (x ++ b))
    (hclear : Clear ps a.length (a.length + x.length)) : Keeps (stretches ps) a x b := by
  induction ps generalizing a with
  | nil =>
    simp only [textOf_nil, List.nil_eq, List.append_eq_nil_iff] at htext
    obtain ⟨rfl, rfl, rfl⟩ := htext
    exact Keeps.of_head List.prefix_rfl (Nat.le_refl _)
  | cons p ps ih =>
    have hne' : ∀ value m, .found value m ∈ ps → m ≠ [] :=
      fun value m hm => hne value m (List.mem_cons_of_mem _ hm)
    rcases Nat.lt_or_ge a.length p.chars.length with hpast | hwithin
    · -- the block has its start at the first piece, and an occurrence there would touch it
      have hstart : a.length = 0 := by
        cases p with
        | plain c =>
          rw [Piece.chars, List.length_singleton] at hpast
          omega
        | found value m =>
          have hout := hclear [] value m ps rfl
          simp only [textOf_nil, List.length_nil, Nat.zero_add] at hout
          rw [Piece.chars] at hpast
          omega
      obtain rfl := List.length_eq_zero_iff.mp hstart
      have hn : x.length ≤ (textOf (p :: ps)).length := by rw [htext]; simp
      obtain ⟨s, tail, hs, hpre, hlen⟩ :=
        exists_first_stretch hne hn (by simpa using hclear)
      rw [hs]
      exact Keeps.of_head (htext ▸ hpre) (by simpa using hlen)
    · rw [textOf_cons] at htext
      obtain ⟨a', rfl, hbehind⟩ := exists_append_of_length_le htext hwithin
      have hrest : Clear ps a'.length (a'.length + x.length) := by
        simpa [Nat.add_assoc] using hclear.tail
      have hkeeps := ih hne' hbehind hrest
      cases p with
      | plain c => exact hkeeps.modifyHead [c]
      | found value m => exact hkeeps.cons [] m

end Teleop.Text
