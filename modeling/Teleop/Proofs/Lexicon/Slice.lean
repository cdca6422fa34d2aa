import Teleop.Proofs.Clause.Slice
import Teleop.Proofs.Lexicon.Stable

/-!
# Normalizing a clause of a normalized text

A source and a word that cuts texts can overlap only where a word of each begins, and where all such
places disagree (`IsClearOfCuts`) they do not overlap at all. A source then reaches across neither end of
a clause, so what is found in the clause was found in the text, and a clause of a normalized text is
normalized (`normalize_clause`). The built-in table keeps clear of the words that cut.
-/

namespace Teleop

open Clause

namespace Text

/-! ## Overlaps -/

/-- Whether no two parts of two patterns that words begin agree. -/
def areApart (w k : List Char) : Bool :=
  (wordTails w).all fun s => (wordTails k).all fun t => !agree s t

theorem agree_comm (s t : List Char) : agree s t = agree t s := by
  induction s generalizing t with
  | nil => cases t <;> rfl
  | cons c s ih =>
    cases t with
    | nil => rfl
    | cons d t =>
      have hrest : (s.zip t).all (fun p => p.1 == p.2) = (t.zip s).all fun p => p.1 == p.2 := ih t
      rw [agree, agree, List.zip_cons_cons, List.zip_cons_cons, List.all_cons, List.all_cons, hrest,
        Bool.beq_comm]

theorem IsPhrase.isLegible {w text : List Char} (h : IsPhrase w)
    (ht : ∀ c ∈ text, simpleLower c = c) : IsLegible w text where
  head := h.head
  last := h.last
  kind l hl c hc hsame :=
    isWordChar_of_sameLetter (beq_iff_eq.mp (List.all_eq_true.mp h.plain l hl)) (ht c hc) hsame

section Overlap

variable {w k p m q p' m' q' : List Char}

/-- A letter of a pattern is the folded character that stands for it. -/
theorem Stands.eq_fold {before : Option Char} {n : Nat} {l c : Char} (h : Stands w before m q)
    (hplain : isPlain w = true) (hl : w[n]? = some l) (hc : m[n]? = some c) : l = fold c := by
  have hfixed : fold l = l :=
    beq_iff_eq.mp (List.all_eq_true.mp hplain l (List.mem_of_getElem? hl))
  rcases sameLetter_iff.mp (h.letters n l c hl hc) with rfl | hsame
  · exact hfixed.symm
  · rw [← hfixed, hsame]

/-- Where a pattern begins inside an occurrence of another or at its start, a word of the other
begins. -/
theorem Stands.word_of_overlap {j : Nat} (hw : Stands w p.getLast? m q)
    (hk : Stands k p'.getLast? m' q') (hphrase : IsPhrase w) (hm : IsLegible w m)
    (hm' : IsLegible k m') (htext : p ++ (m ++ q) = p' ++ (m' ++ q'))
    (hj : p'.length = p.length + j) (hover : j < m.length) : w.drop j ∈ wordTails w := by
  refine mem_wordTails (List.take_append_drop j w).symm ?_
  by_cases hzero : j = 0
  · subst hzero
    exact Or.inl rfl
  · right
    have hlt : j - 1 < w.length := by
      rw [← hw.length_eq]
      omega
    have hbefore : m[j - 1]? = p'.getLast? := by
      have := getElem?_before htext.symm (by omega) (by omega)
      rwa [hj, Nat.add_sub_cancel_left] at this
    -- the word of the second pattern begins there, so no word is before it
    have hopens := hk.opens
    rw [isBoundary, hk.head hm', ← hbefore, hw.isWordChar_eq hm,
      List.getElem?_eq_getElem hlt, Option.any_some] at hopens
    have hout : isWordChar w[j - 1] = false := by simpa using hopens
    have hspace : w[j - 1] = ' ' := by
      rcases hphrase.spaced _ (List.getElem_mem hlt) with h | h
      · exact h
      · rw [h] at hout
        exact Bool.noConfusion hout
    rw [List.getLast?_take, if_neg hzero, List.getElem?_eq_getElem hlt, hspace]
    rfl

/-- Where two patterns overlap they agree. -/
theorem Stands.agree_of_overlap {j : Nat} (hw : Stands w p.getLast? m q)
    (hk : Stands k p'.getLast? m' q') (hplain : isPlain w = true) (hplain' : isPlain k = true)
    (htext : p ++ (m ++ q) = p' ++ (m' ++ q')) (hj : p'.length = p.length + j) :
    agree (w.drop j) k = true := by
  refine List.all_eq_true.mpr ?_
  rintro ⟨l, l'⟩ hmem
  obtain ⟨n, hn⟩ := List.mem_iff_getElem?.mp hmem
  obtain ⟨hl, hl'⟩ := List.getElem?_zip_eq_some.mp hn
  rw [List.getElem?_drop] at hl
  have hnw : j + n < m.length := hw.length_eq ▸ (List.getElem?_eq_some_iff.mp hl).1
  have hnk : n < m'.length := hk.length_eq ▸ (List.getElem?_eq_some_iff.mp hl').1
  have hsame : m'[n]? = m[j + n]? := by
    rw [getElem?_overlap htext hnk (by omega) (by omega)]
    congr 1
    omega
  obtain ⟨c, hc⟩ : ∃ c, m'[n]? = some c := ⟨_, List.getElem?_eq_getElem hnk⟩
  rw [beq_iff_eq, hw.eq_fold hplain hl (hsame ▸ hc), hk.eq_fold hplain' hl' hc]

/-- Patterns that are apart do not overlap in a text. -/
theorem Stands.not_overlap (hw : Stands w p.getLast? m q) (hk : Stands k p'.getLast? m' q')
    (hphrase : IsPhrase w) (hphrase' : IsPhrase k) (hm : IsLegible w m) (hm' : IsLegible k m')
    (htext : p ++ (m ++ q) = p' ++ (m' ++ q')) (hapart : areApart w k = true) :
    p.length + m.length ≤ p'.length ∨ p'.length + m'.length ≤ p.length := by
  have hdisagree {s t : List Char} (hs : s ∈ wordTails w) (ht : t ∈ wordTails k) :
      agree s t = false := by
    simpa using List.all_eq_true.mp (List.all_eq_true.mp hapart s hs) t ht
  rcases Nat.le_total p.length p'.length with hle | hle
  · left
    apply Nat.le_of_not_lt
    intro hover
    obtain ⟨j, hj⟩ := Nat.exists_eq_add_of_le hle
    have hword := hw.word_of_overlap hk hphrase hm hm' htext hj (by omega)
    have hagree := hw.agree_of_overlap hk hphrase.plain hphrase'.plain htext hj
    rw [hdisagree hword List.mem_cons_self] at hagree
    exact Bool.noConfusion hagree
  · right
    apply Nat.le_of_not_lt
    intro hover
    obtain ⟨j, hj⟩ := Nat.exists_eq_add_of_le hle
    have hword := hk.word_of_overlap hw hphrase' hm' hm htext.symm hj (by omega)
    have hagree := hk.agree_of_overlap hw hphrase'.plain hphrase.plain htext.symm hj
    rw [agree_comm, hdisagree List.mem_cons_self hword] at hagree
    exact Bool.noConfusion hagree

end Overlap

end Text

namespace Lexicon

open Text

/-! ## The ends of clauses -/

structure StandsClear (w p m q : List Char) : Prop where
  stands : Stands w p.getLast? m q
  phrase : IsPhrase w
  legible : IsLegible w m
  apart : ∀ k ∈ cuttingWords, areApart w k.toList = true

section Clear

variable {w p m q a b gap r : List Char}

theorem isPhrase_of_mem_cuttingWords {k : String} (hk : k ∈ cuttingWords) : IsPhrase k.toList where
  plain := by
    rcases List.mem_append.mp hk with hk | hk
    · exact joiningWords_plain k hk
    · exact actionVerbs_plain k hk
  spaced c hc := by
    have hletter := List.all_eq_true.mp (cuttingWords_lower k hk).2.2 c hc
    rw [Bool.or_eq_true, beq_iff_eq] at hletter
    exact hletter.imp_right isWordChar_of_isLower
  head := (isLegible_of_mem hk []).head
  last := (isLegible_of_mem hk []).last

namespace StandsClear

theorem not_overlap (h : StandsClear w p m q) {k : String} {p' m' q' : List Char}
    (hk : k ∈ cuttingWords) (hstands : Stands k.toList p'.getLast? m' q')
    (htext : p ++ (m ++ q) = p' ++ (m' ++ q')) :
    p.length + m.length ≤ p'.length ∨ p'.length + m'.length ≤ p.length :=
  h.stands.not_overlap hstands h.phrase (isPhrase_of_mem_cuttingWords hk) h.legible
    (isLegible_of_mem hk m') htext (h.apart k hk)

theorem length_pos (h : StandsClear w p m q) : 0 < m.length :=
  List.length_pos_iff.mpr h.stands.ne_nil_text

/-- A mark does not stand in the occurrence. -/
theorem not_mark (h : StandsClear w p m q) {p' q' : List Char} {c : Char}
    (hc : c = ',' ∨ c = ';' ∨ c = '.') (htext : p ++ (m ++ q) = p' ++ ([c] ++ q')) :
    p.length + m.length ≤ p'.length ∨ p'.length + 1 ≤ p.length := by
  rw [Decidable.or_iff_not_imp_left, Nat.not_le]
  intro hends
  apply Nat.le_of_not_lt
  intro hbegins
  have hlt : p'.length - p.length < m.length := by omega
  have hmark := getElem?_overlap htext.symm hlt (by omega) (by simp; omega)
  rw [show p.length + (p'.length - p.length) - p'.length = 0 from by omega,
    List.getElem?_cons_zero] at hmark
  have hout : isWordChar c = false := isWordChar_mark hc
  have hkind := h.stands.isWordChar_eq h.legible (p'.length - p.length)
  have hwlt : p'.length - p.length < w.length := h.stands.length_eq ▸ hlt
  rw [hmark, Option.any_some, hout, List.getElem?_eq_getElem hwlt, Option.any_some] at hkind
  rcases h.phrase.spaced _ (List.getElem_mem hwlt) with hspace | hword
  · have hsame := h.stands.letters _ _ _ (List.getElem?_eq_getElem hwlt) hmark
    rw [hspace] at hsame
    have := sameLetter_space_left hsame
    rcases hc with rfl | rfl | rfl <;> exact absurd this (by decide)
  · rw [hword] at hkind
    exact Bool.noConfusion hkind

/-- The occurrence is not overlapped by what stands in a connector between the blanks. -/
theorem not_joined (h : StandsClear w p m q) {p' body q' : List Char}
    (hjoins : Joins p'.getLast? body q') (htext : p ++ (m ++ q) = p' ++ (body ++ q')) :
    p.length + m.length ≤ p'.length ∨ p'.length + body.length ≤ p.length := by
  rcases hjoins with ⟨c, rfl, hc⟩ | ⟨k, hk, hstands⟩
  · exact h.not_mark hc htext
  · exact h.not_overlap (mem_cuttingWords_of_joining hk) hstands htext

/-- The occurrence does not end among blanks. -/
theorem ends_outside (h : StandsClear w p m q) (hgap : ∀ c ∈ gap, isBlank c = true)
    (htext : p ++ (m ++ q) = a ++ (gap ++ r)) :
    p.length + m.length ≤ a.length ∨ a.length + gap.length < p.length + m.length := by
  rw [Decidable.or_iff_not_imp_left, Nat.not_le]
  intro hover
  apply Nat.lt_of_not_le
  intro hends
  have hpos := h.length_pos
  have hlast := getElem?_overlap htext.symm (k := m.length - 1) (by omega) (by omega) (by omega)
  have hword := h.stands.last h.legible
  rw [List.getLast?_eq_getElem?, hlast] at hword
  obtain ⟨c, hc, hcword⟩ := (Option.any_eq_true ..).mp hword
  rw [isWordChar_of_isBlank (hgap c (List.mem_of_getElem? hc))] at hcword
  exact Bool.noConfusion hcword

/-- The occurrence does not begin among blanks. -/
theorem begins_outside (h : StandsClear w p m q) (hgap : ∀ c ∈ gap, isBlank c = true)
    (htext : p ++ (m ++ q) = a ++ (gap ++ r)) :
    p.length < a.length ∨ a.length + gap.length ≤ p.length := by
  rw [Decidable.or_iff_not_imp_left, Nat.not_lt]
  intro hover
  apply Nat.le_of_not_lt
  intro hbegins
  have hfirst := getElem?_overlap htext.symm (k := 0) h.length_pos (by omega) (by omega)
  have hword := h.stands.head h.legible
  rw [List.head?_eq_getElem?, hfirst] at hword
  obtain ⟨c, hc, hcword⟩ := (Option.any_eq_true ..).mp hword
  rw [isWordChar_of_isBlank (hgap c (List.mem_of_getElem? hc))] at hcword
  exact Bool.noConfusion hcword

/-- The occurrence does not reach across a place where a clause begins. -/
theorem within_of_opens (h : StandsClear w p m q) (hopens : Opens a b)
    (htext : p ++ (m ++ q) = a ++ b) (hp : p.length < a.length) :
    p.length + m.length ≤ a.length := by
  cases hopens with
  | edge blank =>
    have hout := h.begins_outside (a := []) blank htext
    simp only [List.length_nil, Nat.zero_add] at hout
    omega
  | @connector a body behind b joins blank =>
    have hbehind : p ++ (m ++ q) = (a ++ body) ++ (behind ++ b) := by simp [htext]
    have hbody : p ++ (m ++ q) = a ++ (body ++ (behind ++ b)) := by simp [htext]
    have hbegins := h.begins_outside blank hbehind
    have hjoined := h.not_joined joins hbody
    simp only [List.length_append] at hp hbegins ⊢
    omega
  | @verb a m' q' v known stands =>
    have hout := h.not_overlap (mem_cuttingWords_of_verb known) stands htext
    omega

/-- The occurrence does not reach across a place where a clause ends. -/
theorem within_of_closes (h : StandsClear w p m q) (hcloses : Closes a b)
    (htext : p ++ (m ++ q) = a ++ b) (hp : p.length < a.length) :
    p.length + m.length ≤ a.length := by
  cases hcloses with
  | edge blank =>
    have hends := h.ends_outside (r := []) blank (by rw [htext, List.append_nil])
    have htotal := congrArg List.length htext
    simp only [List.length_append] at htotal
    omega
  | @connector gap body q' blank joins =>
    have hbody : p ++ (m ++ q) = (a ++ gap) ++ (body ++ q') := by simp [htext]
    have hends := h.ends_outside blank htext
    have hjoined := h.not_joined joins hbody
    simp only [List.length_append] at hjoined
    omega
  | @verb gap m' q' v blank known stands =>
    have hverb : p ++ (m ++ q) = (a ++ gap) ++ (m' ++ q') := by simp [htext]
    have hends := h.ends_outside blank htext
    have hout := h.not_overlap (mem_cuttingWords_of_verb known) stands hverb
    simp only [List.length_append] at hout
    omega

end StandsClear

end Clear

/-! ## Sources -/

/-- Every source is apart from every word that cuts. -/
def IsClearOfCuts (l : Lexicon) : Prop :=
  ∀ e ∈ l.entries, ∀ k ∈ cuttingWords, areApart e.source.toList k.toList = true

variable {l : Lexicon} {a b c t : List Char}

theorem isLegible_source (hl : l.IsApart) {source text : List Char} (h : source ∈ l.sourcesByLength)
    (htext : ∀ c ∈ text, simpleLower c = c) : IsLegible source text := by
  obtain ⟨e, he, rfl⟩ := mem_sourcesByLength.mp h
  exact (hl.sources e he).isLegible htext

/-- A source that begins before the place where a clause begins or ends does not reach across it. -/
theorem source_within (hl : l.IsApart) (hcuts : l.IsClearOfCuts) {p s source : List Char}
    (hsettled : ∀ c ∈ (p ++ s) ++ b, simpleLower c = c) (hedge : Opens (p ++ s) b ∨ Closes (p ++ s) b)
    (hs : s ≠ []) (hsource : source ∈ l.sourcesByLength)
    (hat : isWordAt p.getLast? (s ++ b) source = true) : source.length ≤ s.length := by
  obtain ⟨e, he, rfl⟩ := mem_sourcesByLength.mp hsource
  obtain ⟨m, q, htext, hstands⟩ := (isWordAt_iff (l.source_ne_nil he)).mp hat
  have hwhole : p ++ (m ++ q) = (p ++ s) ++ b := by rw [← htext, List.append_assoc]
  have hclear : StandsClear e.source.toList p m q := {
    stands := hstands
    phrase := hl.sources e he
    legible := isLegible_source hl hsource fun c hc => hsettled c (by simp [← hwhole, hc])
    apart := hcuts e he }
  have hp : p.length < (p ++ s).length := by
    have := List.length_pos_iff.mpr hs
    rw [List.length_append]
    omega
  have hle : p.length + m.length ≤ (p ++ s).length := by
    rcases hedge with hopens | hcloses
    · exact hclear.within_of_opens hopens hwhole hp
    · exact hclear.within_of_closes hcloses hwhole hp
  rw [List.length_append] at hle
  rw [← hstands.length_eq]
  omega

/-- The sources of a text are those of its two parts where a clause begins or ends between them. -/
theorem scan_recogniser_append (hl : l.IsApart) (hcuts : l.IsClearOfCuts)
    (hsettled : ∀ c ∈ a ++ b, simpleLower c = c) (hedge : Opens a b ∨ Closes a b) :
    scan l.recogniser (a ++ b) = scan l.recogniser a ++ scan l.recogniser b := by
  have hdiv : divides a.getLast? b.head? = true := by
    rcases hedge with hopens | hcloses
    · exact hopens.divided
    · exact hcloses.divided
  refine scan_append l.isBounded_recogniser (fun p s hsplit hs => ?_) ?_
  · subst hsplit
    have hpart : divides s.getLast? b.head? = true := by rwa [getLast?_append_of_ne_nil hs] at hdiv
    have hfind : (l.sourcesByLength.find? fun source => isWordAt p.getLast? (s ++ b) source) =
        l.sourcesByLength.find? fun source => isWordAt p.getLast? s source :=
      find?_isWordAt_append
        (fun source hsource => isLegible_source hl hsource fun c hc => hsettled c (by simp [hc])) hpart
        fun source hsource => source_within hl hcuts hsettled hedge hs hsource
    rw [recogniser, recogniseSource, recogniseSource]
    exact congrArg _ hfind
  · have hfind : (l.sourcesByLength.find? fun source => isWordAt a.getLast? b source) =
        l.sourcesByLength.find? fun source => isWordAt none b source :=
      List.find?_congr fun source hsource => isWordAt_of_divides
        (isLegible_source hl hsource fun c hc => hsettled c (List.mem_append_right _ hc)) hdiv
    rw [recogniser, recogniseSource, recogniseSource]
    exact congrArg _ hfind

/-! ## Clauses of normalized texts -/

theorem isNormal_clause (hl : l.IsApart) (hcuts : l.IsClearOfCuts) (ht : IsCollapsed t)
    (hnormal : l.IsNormal t) (h : IsClauseAt t a c b) : l.IsNormal c := by
  obtain ⟨hascii, hnone⟩ := hnormal
  have hlower : ∀ d ∈ a ++ (c ++ b), simpleLower d = d := by
    intro d hd
    rw [← h.text_eq] at hd
    exact (ht.settled d hd).fixed
  have hpieces : scan l.recogniser t =
      scan l.recogniser a ++ (scan l.recogniser c ++ scan l.recogniser b) := by
    rw [h.text_eq, scan_recogniser_append hl hcuts hlower (Or.inl h.opens),
      scan_recogniser_append hl hcuts (fun d hd => hlower d (List.mem_append_right _ hd))
        (Or.inr h.closes)]
  refine ⟨?_, fun u f hf => hnone u f ?_⟩
  · rw [h.text_eq, List.map_append, List.map_append] at hascii
    obtain ⟨-, hrest⟩ := List.append_inj hascii (List.length_map asciiForm)
    exact (List.append_inj hrest (List.length_map asciiForm)).1
  · rw [hpieces]
    exact List.mem_append_right _ (List.mem_append_left _ hf)

theorem isCollapsed_clause {u clause : String} (h : clause ∈ segment (l.normalize u)) :
    IsCollapsed clause.toList := by
  have ht := isCollapsed_normalize (ne_empty_of_mem_segment h)
  obtain ⟨a, b, hat⟩ := exists_isClauseAt h
  rw [hat.text_eq] at ht
  exact ht.part hat.ne_nil hat.begins hat.ends

/-- A clause of a normalized text is normalized. -/
theorem normalize_clause (hl : l.IsApart) (hentries : l.HasCollapsedEntries) (hcuts : l.IsClearOfCuts)
    {u clause : String} (h : clause ∈ segment (l.normalize u)) : l.normalize clause = clause := by
  have hne := ne_empty_of_mem_segment h
  obtain ⟨a, b, hat⟩ := exists_isClauseAt h
  exact normalize_of_isNormal hentries (isCollapsed_clause h)
    (isNormal_clause hl hcuts (isCollapsed_normalize hne) (isNormal_normalize hl hentries hne) hat)

/-! ## The built-in table -/

set_option maxRecDepth 20000 in
theorem builtin_apart_checked : (builtinEntries.all fun e =>
    cuttingWords.all fun k => areApart e.source.toList k.toList) = true := by
  rfl

theorem isClearOfCuts_builtin : builtin.IsClearOfCuts := fun e he k hk =>
  List.all_eq_true.mp (List.all_eq_true.mp builtin_apart_checked e he) k hk

end Lexicon

end Teleop
