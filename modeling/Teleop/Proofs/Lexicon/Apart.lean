import Teleop.Proofs.Lexicon.Normalization

/-!
# Canonical words that no source reaches into

A source is recognised from the start of a word and reads on over whole words. So a source can meet a
canonical form only where a word of each begins, and where all such places disagree (`IsApart`),
replacing sources brings no new occurrence about: a source that is read in the rewritten text was read
in the text before (`Rewritten.isWordAt`). The built-in table is such a lexicon. Entries of an operator
need not be; what follows from the condition is stated for every lexicon that meets it.
-/

namespace Teleop

open Text

namespace Text

def tailsBehindSpace : List Char → List (List Char)
  | [] => []
  | c :: rest => if c = ' ' then rest :: tailsBehindSpace rest else tailsBehindSpace rest

/-- The parts of a text that begin with one of its words: the text and its parts behind spaces. -/
def wordTails (text : List Char) : List (List Char) :=
  text :: tailsBehindSpace text

theorem mem_tailsBehindSpace (a b : List Char) : b ∈ tailsBehindSpace (a ++ ' ' :: b) := by
  induction a with
  | nil => simp [tailsBehindSpace]
  | cons c a ih =>
    rw [List.cons_append, tailsBehindSpace]
    split
    · exact List.mem_cons_of_mem _ ih
    · exact ih

/-- What is behind a part of a text that is empty or ends in a space. -/
theorem mem_wordTails {text a b : List Char} (h : text = a ++ b)
    (ha : a = [] ∨ a.getLast? = some ' ') : b ∈ wordTails text := by
  subst h
  rcases ha with rfl | ha
  · exact List.mem_cons_self
  · obtain ⟨a, rfl⟩ := List.getLast?_eq_some_iff.mp ha
    rw [List.append_assoc]
    exact List.mem_cons_of_mem _ (mem_tailsBehindSpace a b)

/-- Whether two texts are the same as far as both reach. -/
def agree (s k : List Char) : Bool :=
  (s.zip k).all fun p => p.1 == p.2

theorem agree_of_startsWithLetters {s k rest : List Char} (hs : isPlain s = true)
    (hk : isPlain k = true) (h : startsWithLetters s (k ++ rest) = true) : agree s k = true := by
  refine List.all_eq_true.mpr fun p hp => ?_
  have hsame := List.all_eq_true.mp (zip_of_startsWithLetters h) p hp
  obtain ⟨hps, hpk⟩ := List.of_mem_zip (a := p.1) (b := p.2) hp
  rw [eq_of_sameLetter hs hk hps hpk hsame]
  exact beq_self_eq_true _

/-- A text of words parted by spaces, each of whose characters stands for itself among its case
forms. -/
structure IsPhrase (text : List Char) : Prop where
  plain : isPlain text = true
  spaced : ∀ c ∈ text, c = ' ' ∨ isWordChar c = true
  head : text.head?.any isWordChar = true
  last : text.getLast?.any isWordChar = true

theorem IsPhrase.ne_nil {text : List Char} (h : IsPhrase text) : text ≠ [] := by
  rintro rfl
  simpa using h.head

end Text

namespace Lexicon

/-- All texts of the lexicon are phrases, the canonical ones their own ASCII forms, and no word of a
source begins a part of it that agrees with a part of a canonical form which a word begins. -/
structure IsApart (l : Lexicon) : Prop where
  sources : ∀ e ∈ l.entries, IsPhrase e.source.toList
  canonicals : ∀ e ∈ l.entries, IsPhrase e.canonical.toList
  ascii : ∀ e ∈ l.entries, e.canonical.toList.map asciiForm = e.canonical.toList
  apart : ∀ e ∈ l.entries, ∀ other ∈ l.entries, ∀ s ∈ wordTails e.source.toList,
    ∀ k ∈ wordTails other.canonical.toList, agree s k = false

/-- No source is recognised where a word of a canonical form begins. -/
theorem IsApart.recogniser_eq_none {l : Lexicon} (hl : l.IsApart) {e : Entry} (he : e ∈ l.entries)
    {a b : List Char} (hsplit : e.canonical.toList = a ++ b)
    (hstart : a = [] ∨ a.getLast? = some ' ') (before : Option Char) (rest : List Char) :
    l.recogniser before (b ++ rest) = none := by
  refine recogniser_eq_none_iff.mpr fun other hother => ?_
  cases hat : startsWithLetters other.source.toList (b ++ rest) with
  | false => simp [isWordAt, hat]
  | true =>
    have hplain : isPlain b = true := isPlain_of_suffix (hsplit ▸ (hl.canonicals e he).plain)
    have hagree := agree_of_startsWithLetters (hl.sources other hother).plain hplain hat
    rw [hl.apart other hother e he _ List.mem_cons_self _ (mem_wordTails hsplit hstart)] at hagree
    exact Bool.noConfusion hagree

/-! ## Rewritten texts -/

/-- The second text is the first with some sources replaced, each behind a character that is not part of a
word. The flag says whether a word goes on into the texts. -/
inductive Rewritten (l : Lexicon) : Bool → List Char → List Char → Prop
  | nil {inWord : Bool} : Rewritten l inWord [] []
  | kept {inWord : Bool} {c : Char} {t w : List Char} (behind : Rewritten l (isWordChar c) t w) :
      Rewritten l inWord (c :: t) (c :: w)
  | replaced {e : Entry} {t w : List Char} (he : e ∈ l.entries) (behind : Rewritten l true t w) :
      Rewritten l false (e.source.toList ++ t) (e.canonical.toList ++ w)

namespace Rewritten

variable {l : Lexicon} {inWord : Bool} {t w : List Char}

theorem keep {m : List Char} (hm : m ≠ []) (h : Rewritten l (m.getLast?.any isWordChar) t w) :
    Rewritten l inWord (m ++ t) (m ++ w) := by
  induction m generalizing inWord with
  | nil => exact absurd rfl hm
  | cons c m ih =>
    cases m with
    | nil => exact .kept h
    | cons d m =>
      rw [List.getLast?_cons_cons] at h
      exact .kept (ih (List.cons_ne_nil d m) h)

/-- A word goes on in both texts or in none. -/
theorem head_eq (hl : l.IsApart) (h : Rewritten l inWord t w) :
    t.head?.any isWordChar = w.head?.any isWordChar := by
  cases h with
  | nil => rfl
  | kept => rfl
  | replaced he =>
    have hsource := hl.sources _ he
    have hcanonical := hl.canonicals _ he
    rw [head?_append_of_ne_nil hsource.ne_nil, head?_append_of_ne_nil hcanonical.ne_nil,
      hsource.head, hcanonical.head]

/-- A source that reads on in the rewritten text reads on in the text before. -/
theorem readsOn (hl : l.IsApart) (h : Rewritten l inWord t w)
    (hw : ∀ c ∈ w, simpleLower c = c) {e : Entry} (he : e ∈ l.entries) {read s : List Char}
    (hsplit : e.source.toList = read ++ s)
    (hstart : inWord = false → read = [] ∨ read.getLast? = some ' ')
    (hreads : Text.readsOn inWord s w = true) : Text.readsOn inWord s t = true := by
  have hsource := hl.sources e he
  have hplain := hsource.plain
  induction h generalizing read s with
  | nil => exact hreads
  | @kept inWord c t w behind ih =>
    cases s with
    | nil => exact hreads
    | cons a s =>
      rw [Text.readsOn, Bool.and_eq_true] at hreads ⊢
      obtain ⟨hsame, hreads⟩ := hreads
      have ha : a ∈ e.source.toList := by simp [hsplit]
      have hfold : fold a = a := by simpa using List.all_eq_true.mp hplain a ha
      have hkind := isWordChar_of_sameLetter hfold (hw c List.mem_cons_self) hsame
      have hnext : e.source.toList = (read ++ [a]) ++ s := by simp [hsplit]
      refine ⟨hsame, ih (fun d hd => hw d (List.mem_cons_of_mem _ hd)) hnext
        (fun hout => Or.inr ?_) hreads⟩
      rcases hsource.spaced a ha with rfl | hword
      · exact List.getLast?_concat
      · rw [hkind, hout] at hword
        exact Bool.noConfusion hword
  | @replaced other t w hother behind ih =>
    -- a word of the source would begin where the canonical form does
    exfalso
    have hs : isPlain s = true := isPlain_of_suffix (hsplit ▸ hplain)
    have hk := (hl.canonicals other hother).plain
    have hagree := agree_of_startsWithLetters hs hk (startsWithLetters_of_readsOn hreads)
    rw [hl.apart e he other hother s (mem_wordTails hsplit (hstart rfl)) _ List.mem_cons_self]
      at hagree
    exact Bool.noConfusion hagree

/-- A source that stands at a place of the rewritten text stood there before. -/
theorem isWordAt (hl : l.IsApart) {before before' : Option Char}
    (h : Rewritten l (before.any isWordChar) t w)
    (hbefore : before'.any isWordChar = before.any isWordChar)
    (hw : ∀ c ∈ w, simpleLower c = c) {e : Entry} (he : e ∈ l.entries)
    (hat : Text.isWordAt before' w e.source.toList = true) :
    Text.isWordAt before t e.source.toList = true := by
  have hne := l.source_ne_nil he
  rw [isWordAt_eq hne, Bool.and_eq_true, isBoundary] at hat ⊢
  rw [hbefore] at hat
  rw [h.head_eq hl]
  have hwhole : e.source.toList = [] ++ e.source.toList := rfl
  exact ⟨hat.1, h.readsOn hl hw he hwhole (fun _ => Or.inl rfl) hat.2⟩

/-- Rewriting a text of ASCII forms brings in no others. -/
theorem map_asciiForm (hl : l.IsApart) (h : Rewritten l inWord t w)
    (ht : t.map asciiForm = t) : w.map asciiForm = w := by
  induction h with
  | nil => rfl
  | kept _ ih =>
    obtain ⟨hc, ht⟩ := List.cons.inj ht
    rw [List.map_cons, hc, ih ht]
  | @replaced e t w he _ ih =>
    rw [List.map_append] at ht
    obtain ⟨-, ht⟩ := List.append_inj ht (List.length_map asciiForm)
    rw [List.map_append, hl.ascii e he, ih ht]

end Rewritten

/-! ## The built-in table -/

/-- Small ASCII letters and letters of the Arabic script, of which the texts of the table are made. -/
def isTableLetter (c : Char) : Bool :=
  let n := c.toNat
  (0x61 ≤ n && n ≤ 0x7A) || (0x620 ≤ n && n ≤ 0x64A) || (0x671 ≤ n && n ≤ 0x6D3)

set_option maxRecDepth 20000 in
/-- No run takes a letter of the table. -/
theorem runs_skip_letters : (lowercaseRuns.all fun r =>
    (Nat.blt r.2.1 0x61 || Nat.blt 0x7A r.1) && (Nat.blt r.2.1 0x620 || Nat.blt 0x6D3 r.1)) =
      true := by
  rfl

theorem isSettled_of_isTableLetter {c : Char} (h : isTableLetter c = true) : IsSettled c := by
  simp only [isTableLetter, Bool.or_eq_true, Bool.and_eq_true, decide_eq_true_eq] at h
  refine ⟨?_, ?_, ?_⟩
  · have hself : shiftInRuns lowercaseRuns c.toNat = c.toNat := by
      apply shiftInRuns_eq_self
      rintro r hr ⟨hlow, hhigh, -⟩
      have hskip := List.all_eq_true.mp runs_skip_letters r hr
      simp only [Bool.and_eq_true, Bool.or_eq_true, Nat.blt_eq] at hskip
      omega
    rw [simpleLower, hself, Char.ofNat_toNat]
  · rintro rfl
    revert h
    decide
  · rintro rfl
    revert h
    decide

theorem fold_of_isTableLetter {c : Char} (h : isTableLetter c = true) : fold c = c := by
  have hvariants : letterVariants.all (fun p => !isTableLetter p.1) = true := by rfl
  have hfixed := (isSettled_of_isTableLetter h).fixed
  rcases fold_cases c with hfold | hvariant
  · rw [hfold, hfixed]
  · have hout := List.all_eq_true.mp hvariants _ hvariant
    rw [hfixed, h] at hout
    exact Bool.noConfusion hout

theorem isWordChar_of_isTableLetter {c : Char} (h : isTableLetter c = true) :
    isWordChar c = true := by
  have halphabetic : isAlphabetic c = true := by
    simp only [isTableLetter, Bool.or_eq_true, Bool.and_eq_true, decide_eq_true_eq] at h
    rcases h with (⟨hlow, hhigh⟩ | ⟨hlow, hhigh⟩) | ⟨hlow, hhigh⟩
    · have hs : (0x61, 0x7A) ∈ alphabeticSpans := by decide
      exact isAlphabetic_of_mem hs hlow hhigh
    · have hs : (0x620, 0x657) ∈ alphabeticSpans := by decide
      exact isAlphabetic_of_mem hs hlow (Nat.le_trans hhigh (by decide))
    · have hs : (0x66E, 0x6D3) ∈ alphabeticSpans := by decide
      exact isAlphabetic_of_mem hs (Nat.le_trans (by decide) hlow) hhigh
  rw [isWordChar, halphabetic]
  rfl

/-- Whether a text is made of words of such letters with one space between each two. -/
def isTableText (text : List Char) : Bool :=
  text.all (fun c => c == ' ' || isTableLetter c) && spacing true text == some false

theorem isCollapsed_of_isTableText {text : List Char} (h : isTableText text = true) :
    IsCollapsed text := by
  simp only [isTableText, Bool.and_eq_true, List.all_eq_true, Bool.or_eq_true, beq_iff_eq] at h
  refine ⟨h.2, fun c hc => ?_⟩
  rcases h.1 c hc with rfl | hletter
  · exact ⟨by decide, by decide, by decide⟩
  · exact isSettled_of_isTableLetter hletter

theorem isPhrase_of_isTableText {text : List Char} (h : isTableText text = true) :
    IsPhrase text := by
  have hcollapsed := isCollapsed_of_isTableText h
  simp only [isTableText, Bool.and_eq_true, List.all_eq_true, Bool.or_eq_true, beq_iff_eq] at h
  obtain ⟨hletters, -⟩ := h
  have hword : ∀ c ∈ text, isBlank c = false → isWordChar c = true := by
    intro c hc hsolid
    rcases hletters c hc with rfl | hletter
    · exact absurd hsolid (by decide)
    · exact isWordChar_of_isTableLetter hletter
  have hne := hcollapsed.ne_nil
  have hbegins : BeginsSolid text := hcollapsed.collapse_eq ▸ beginsSolid_collapse text
  have hends : EndsSolid text := hcollapsed.collapse_eq ▸ endsSolid_collapse text
  refine ⟨List.all_eq_true.mpr fun c hc => beq_iff_eq.mpr ?_, fun c hc => ?_, ?_, ?_⟩
  · rcases hletters c hc with rfl | hletter
    · exact fold_space
    · exact fold_of_isTableLetter hletter
  · exact (hletters c hc).imp_right isWordChar_of_isTableLetter
  · rw [List.head?_eq_some_head hne, Option.any_some]
    exact hword _ (List.head_mem hne) (hbegins _ (List.head?_eq_some_head hne))
  · rw [List.getLast?_eq_some_getLast hne, Option.any_some]
    exact hword _ (List.getLast_mem hne) (hends _ (List.getLast?_eq_some_getLast hne))

/-- What is computed once over the table: its texts, and that its canonical words keep out of its
sources. -/
theorem builtin_checked :
    (∀ e ∈ builtinEntries, isTableText e.source.toList = true ∧
      ∀ canonical ∈ builtinCanonicals, ∀ s ∈ wordTails e.source.toList,
        ∀ k ∈ wordTails canonical.toList, agree s k = false) ∧
    ∀ canonical ∈ builtinCanonicals, isTableText canonical.toList = true ∧
      canonical.toList.map asciiForm = canonical.toList := by
  decide +kernel

theorem hasCollapsedEntries_builtin : builtin.HasCollapsedEntries := by
  obtain ⟨hsources, hcanonicals⟩ := builtin_checked
  intro e he
  have hcanonical := hcanonicals _ (canonical_mem_builtinCanonicals e he)
  exact ⟨isCollapsed_of_isTableText (hsources e he).1, isCollapsed_of_isTableText hcanonical.1⟩

theorem withExtra_nil : withExtra [] = .ok builtin := by
  change (extend builtin.entries []).bind ofEntries = _
  rw [extend, Except.bind]
  exact hasCollapsedEntries_builtin.ofEntries_eq

theorem isApart_builtin : builtin.IsApart := by
  obtain ⟨hsources, hcanonicals⟩ := builtin_checked
  have hknown := canonical_mem_builtinCanonicals
  exact {
    sources := fun e he => isPhrase_of_isTableText (hsources e he).1
    canonicals := fun e he => isPhrase_of_isTableText (hcanonicals _ (hknown e he)).1
    ascii := fun e he => (hcanonicals _ (hknown e he)).2
    apart := fun e he other hother => (hsources e he).2 _ (hknown other hother) }

end Lexicon

end Teleop
