import Teleop.Proofs.Text.Lowercase
import Teleop.Text.Words

/-!
# Laws of words and of the collapsed form

Everything about the words of a text follows from one equation: a blank cuts a text into two whose
words do not depend on each other (`words_append_blank`). A collapsed text is exactly its lower-cased
words with one space between each two, so collapsing again changes nothing (`collapse_collapse`).
-/

namespace Teleop.Text

def EndsSolid (a : List Char) : Prop :=
  ∀ c ∈ a.getLast?, isBlank c = false

def BeginsSolid (b : List Char) : Prop :=
  ∀ c ∈ b.head?, isBlank c = false

theorem EndsSolid.of_append {p s : List Char} (h : EndsSolid (p ++ s)) : EndsSolid s := by
  intro c hc
  exact h c (by rw [List.getLast?_append, hc]; rfl)

/-! ## Words of a text -/

theorem words_nil : words [] = [] := by simp [words]

theorem words_append_blank {c : Char} (hc : isBlank c = true) (a b : List Char) :
    words (a ++ c :: b) = words a ++ words b := by
  unfold words
  rw [List.splitOnP_append_cons a b hc, List.filter_append]

theorem words_cons_blank {c : Char} (hc : isBlank c = true) (text : List Char) :
    words (c :: text) = words text := by
  have h := words_append_blank hc [] text
  rwa [words_nil] at h

theorem words_of_unbroken {w : List Char} (hne : w ≠ []) (hw : ∀ c ∈ w, isBlank c = false) :
    words w = [w] := by
  rw [words, List.splitOnP_eq_singleton hw]
  simp [hne]

/-- The part of a text before its first blank, and the rest. -/
theorem exists_span_blank (text : List Char) : ∃ s rest, text = s ++ rest ∧
    (∀ c ∈ s, isBlank c = false) ∧ (rest = [] ∨ ∃ c r, rest = c :: r ∧ isBlank c = true) := by
  refine ⟨text.takeWhile (!isBlank ·), text.dropWhile (!isBlank ·),
    (List.takeWhile_append_dropWhile).symm, ?_, ?_⟩
  · intro c hc
    have hall : (text.takeWhile (!isBlank ·)).all (!isBlank ·) = true := List.all_takeWhile
    simpa using List.all_eq_true.mp hall c hc
  · cases h : text.dropWhile (!isBlank ·) with
    | nil => exact Or.inl rfl
    | cons c r =>
      have hhead := List.head?_dropWhile_not (!isBlank ·) text
      rw [h] at hhead
      exact Or.inr ⟨c, r, rfl, by simpa using hhead⟩

/-- A text that a word can follow: it is empty or ends in a blank. -/
def EndsOpen (a : List Char) : Prop :=
  ∀ c ∈ a.getLast?, isBlank c = true

/-- A text that a word can precede: it is empty or begins with a blank. -/
def BeginsOpen (b : List Char) : Prop :=
  ∀ c ∈ b.head?, isBlank c = true

theorem EndsOpen.of_append {p s : List Char} (h : EndsOpen (p ++ s)) : EndsOpen s := by
  intro c hc
  exact h c (by rw [List.getLast?_append, hc]; rfl)

theorem endsOpen_nil : EndsOpen [] := by simp [EndsOpen]

theorem beginsOpen_nil : BeginsOpen [] := by simp [BeginsOpen]

theorem EndsOpen.words_append {a : List Char} (ha : EndsOpen a) (b : List Char) :
    words (a ++ b) = words a ++ words b := by
  rcases List.eq_nil_or_concat a with rfl | ⟨a, c, rfl⟩
  · rw [words_nil]
    rfl
  · rw [List.concat_eq_append] at ha ⊢
    have hc : isBlank c = true := ha c (by simp)
    rw [List.append_assoc, List.singleton_append, words_append_blank hc, words_append_blank hc,
      words_nil, List.append_nil]

theorem BeginsOpen.words_append {b : List Char} (hb : BeginsOpen b) (a : List Char) :
    words (a ++ b) = words a ++ words b := by
  cases b with
  | nil => rw [words_nil, List.append_nil, List.append_nil]
  | cons c b =>
    have hc : isBlank c = true := hb c (by simp)
    rw [words_append_blank hc, words_cons_blank hc]

/-- A word stands between blanks or edges of the text. -/
theorem words_between {a w b : List Char} (ha : EndsOpen a) (hb : BeginsOpen b) (hne : w ≠ [])
    (hw : ∀ c ∈ w, isBlank c = false) : words (a ++ (w ++ b)) = words a ++ w :: words b := by
  rw [ha.words_append, hb.words_append, words_of_unbroken hne hw, List.singleton_append]

theorem EndsOpen.behind_blank {c : Char} {a : List Char} (ha : EndsOpen a) (hc : isBlank c = true)
    (s : List Char) : EndsOpen (s ++ c :: a) := by
  intro d hd
  rw [List.getLast?_append, List.getLast?_cons] at hd
  cases hlast : a.getLast? with
  | none =>
    rw [hlast] at hd
    exact Option.some.inj hd ▸ hc
  | some e =>
    rw [hlast] at hd
    exact Option.some.inj hd ▸ ha e hlast

/-- A word of a text stands between those before it and those behind it. -/
theorem exists_of_words_eq {text w : List Char} {ws vs : List (List Char)}
    (h : words text = ws ++ w :: vs) : ∃ a b, text = a ++ (w ++ b) ∧ EndsOpen a ∧ BeginsOpen b ∧
      w ≠ [] ∧ (∀ c ∈ w, isBlank c = false) ∧ words a = ws ∧ words b = vs := by
  obtain ⟨n, hn⟩ : ∃ n, text.length = n := ⟨_, rfl⟩
  induction n using Nat.strongRecOn generalizing text ws with
  | ind n ih =>
    obtain ⟨s, rest, rfl, hs, hrest⟩ := exists_span_blank text
    rcases hrest with rfl | ⟨c, r, rfl, hc⟩
    · rw [List.append_nil] at h
      by_cases hne : s = []
      · simp [hne, words_nil] at h
      · rw [words_of_unbroken hne hs] at h
        obtain ⟨rfl, rfl, rfl⟩ : ws = [] ∧ s = w ∧ vs = [] := by
          cases ws <;> simp_all
        exact ⟨[], [], by simp, endsOpen_nil, beginsOpen_nil, hne, hs, words_nil, words_nil⟩
    · have hshort : r.length < n := by
        rw [List.length_append, List.length_cons] at hn
        omega
      rw [words_append_blank hc] at h
      by_cases hne : s = []
      · subst hne
        rw [words_nil, List.nil_append] at h
        obtain ⟨a, b, rfl, ha, hb, hw, hsolid, hwa, hwb⟩ := ih r.length hshort h rfl
        exact ⟨c :: a, b, rfl, ha.behind_blank hc [], hb, hw, hsolid, words_cons_blank hc a ▸ hwa, hwb⟩
      · rw [words_of_unbroken hne hs, List.singleton_append] at h
        cases ws with
        | nil =>
          obtain ⟨rfl, rfl⟩ := List.cons.inj h
          exact ⟨[], c :: r, rfl, endsOpen_nil, by simpa [BeginsOpen] using hc, hne, hs, words_nil,
            words_cons_blank hc r⟩
        | cons v ws =>
          obtain ⟨rfl, hbehind⟩ := List.cons.inj h
          obtain ⟨a, b, rfl, ha, hb, hw, hsolid, hwa, hwb⟩ := ih r.length hshort hbehind rfl
          refine ⟨s ++ c :: a, b, by simp, ha.behind_blank hc s, hb, hw, hsolid, ?_, hwb⟩
          rw [words_append_blank hc, words_of_unbroken hne hs, hwa, List.singleton_append]

theorem exists_of_mem_words {w text : List Char} (h : w ∈ words text) :
    ∃ a b, text = a ++ (w ++ b) ∧ EndsOpen a ∧ BeginsOpen b ∧ w ≠ [] ∧
      ∀ c ∈ w, isBlank c = false := by
  obtain ⟨ws, vs, hsplit⟩ := List.append_of_mem h
  obtain ⟨a, b, htext, ha, hb, hne, hw, -, -⟩ := exists_of_words_eq hsplit
  exact ⟨a, b, htext, ha, hb, hne, hw⟩

theorem isBlank_of_words_nil {text : List Char} (h : words text = []) :
    ∀ c ∈ text, isBlank c = true := by
  induction text with
  | nil => simp
  | cons c text ih =>
    cases hc : isBlank c with
    | true =>
      rw [words_cons_blank hc] at h
      exact List.forall_mem_cons.mpr ⟨hc, ih h⟩
    | false =>
      obtain ⟨s, rest, hsplit, hs, hrest⟩ := exists_span_blank (c :: text)
      have hne : s ≠ [] := by
        rintro rfl
        rcases hrest with rfl | ⟨d, r, rfl, hd⟩
        · simp at hsplit
        · obtain ⟨rfl, -⟩ := List.cons.inj hsplit
          rw [hd] at hc
          exact Bool.noConfusion hc
      have hbegins : BeginsOpen rest := by
        rcases hrest with rfl | ⟨d, r, rfl, hd⟩
        · exact beginsOpen_nil
        · simpa [BeginsOpen] using hd
      rw [hsplit, hbegins.words_append, words_of_unbroken hne hs] at h
      simp at h

/-! ## Blanks ahead -/

theorem takeWhile_isBlank {gap : List Char} {c : Char} (rest : List Char)
    (hgap : ∀ d ∈ gap, isBlank d = true) (hc : isBlank c = false) :
    (gap ++ c :: rest).takeWhile isBlank = gap := by
  rw [List.takeWhile_append_of_pos hgap, List.takeWhile_cons_of_neg (by simp [hc]),
    List.append_nil]

/-- A text that does not end in a blank has blanks ahead and then something else. -/
theorem exists_gap {s : List Char} (h : EndsSolid s) (hne : s ≠ []) :
    ∃ gap c rest, s = gap ++ c :: rest ∧ (∀ d ∈ gap, isBlank d = true) ∧ isBlank c = false := by
  induction s with
  | nil => exact absurd rfl hne
  | cons c s ih =>
    cases hc : isBlank c with
    | false => exact ⟨[], c, s, rfl, by simp, hc⟩
    | true =>
      have hs : s ≠ [] := by
        rintro rfl
        rw [h c rfl] at hc
        exact Bool.noConfusion hc
      obtain ⟨gap, d, rest, rfl, hgap, hd⟩ := ih (EndsSolid.of_append (p := [c]) h) hs
      refine ⟨c :: gap, d, rest, rfl, ?_, hd⟩
      intro e he
      rcases List.mem_cons.mp he with rfl | he
      · exact hc
      · exact hgap e he

/-- A text up to its last character without a mark, and what follows. -/
theorem exists_marked_behind (mark : Char → Bool) (t : List Char) : ∃ s w, t = s ++ w ∧
    (∀ c ∈ s.getLast?, mark c = false) ∧ ∀ c ∈ w, mark c = true := by
  induction t with
  | nil => exact ⟨[], [], rfl, by simp, by simp⟩
  | cons c t ih =>
    obtain ⟨s, w, rfl, hs, hw⟩ := ih
    by_cases hnil : s = []
    · subst hnil
      cases hc : mark c with
      | true => exact ⟨[], c :: w, rfl, hs, by simpa [hc] using hw⟩
      | false => exact ⟨[c], w, rfl, by simpa using hc, hw⟩
    · refine ⟨c :: s, w, rfl, fun d hd => hs d ?_, hw⟩
      rwa [List.getLast?_cons, List.getLast?_eq_some_getLast hnil, Option.getD_some,
        ← List.getLast?_eq_some_getLast hnil] at hd

/-- A text up to its last blank, and what follows. -/
theorem exists_last_word (t : List Char) :
    ∃ s w, t = s ++ w ∧ EndsOpen s ∧ ∀ c ∈ w, isBlank c = false := by
  obtain ⟨s, w, rfl, hs, hw⟩ := exists_marked_behind (!isBlank ·) t
  exact ⟨s, w, rfl, fun c hc => by simpa using hs c hc, fun c hc => by simpa using hw c hc⟩

/-- A text without the blanks behind it, and these. -/
theorem exists_blanks_behind (t : List Char) :
    ∃ s gap, t = s ++ gap ∧ EndsSolid s ∧ ∀ c ∈ gap, isBlank c = true :=
  exists_marked_behind isBlank t

/-! ## Texts without what is marked at their ends -/

section Trim

variable {drop : Char → Bool} {text : List Char}

theorem trimBoth_concat {c : Char} (hc : drop c = true) (text : List Char) :
    trimBoth drop (text ++ [c]) = trimBoth drop text := by
  have hlone : [c].dropWhile drop = [] := List.dropWhile_cons_of_pos hc
  rw [trimBoth, trimBoth, List.dropWhile_append]
  split
  · rename_i hnil
    rw [hlone, List.isEmpty_iff.mp hnil]
  · rw [List.reverse_append, List.reverse_singleton, List.singleton_append,
      List.dropWhile_cons_of_pos hc]

/-- What `trimBoth` takes away stands at the two ends, and nothing marked stands there any more. -/
theorem exists_trimBoth (drop : Char → Bool) (text : List Char) :
    ∃ pre post, text = pre ++ (trimBoth drop text ++ post) ∧ (∀ c ∈ pre, drop c = true) ∧
      (∀ c ∈ post, drop c = true) ∧ (∀ c ∈ (trimBoth drop text).head?, drop c = false) ∧
      ∀ c ∈ (trimBoth drop text).getLast?, drop c = false := by
  have hall (s : List Char) : ∀ c ∈ s.takeWhile drop, drop c = true :=
    List.all_eq_true.mp List.all_takeWhile
  have hhead (s : List Char) : ∀ c ∈ (s.dropWhile drop).head?, drop c = false := by
    intro c hc
    have := List.head?_dropWhile_not drop s
    rw [hc] at this
    simpa using this
  have hinner : trimBoth drop text ++ ((text.dropWhile drop).reverse.takeWhile drop).reverse =
      text.dropWhile drop := by
    rw [trimBoth, ← List.reverse_append, List.takeWhile_append_dropWhile, List.reverse_reverse]
  refine ⟨text.takeWhile drop, ((text.dropWhile drop).reverse.takeWhile drop).reverse, ?_,
    hall text, fun c hc => hall _ c (List.mem_reverse.mp hc), ?_, ?_⟩
  · rw [hinner, List.takeWhile_append_dropWhile]
  · intro c hc
    refine hhead text c ?_
    rw [← hinner, List.head?_append, hc, Option.some_or]
    rfl
  · intro c hc
    rw [trimBoth, List.getLast?_reverse] at hc
    exact hhead _ c hc

theorem trimBoth_append {pre x post : List Char} (hpre : ∀ c ∈ pre, drop c = true)
    (hpost : ∀ c ∈ post, drop c = true) (hne : x ≠ []) (hhead : ∀ c ∈ x.head?, drop c = false)
    (hlast : ∀ c ∈ x.getLast?, drop c = false) : trimBoth drop (pre ++ (x ++ post)) = x := by
  have hdrop (pre s : List Char) (hpre : ∀ c ∈ pre, drop c = true)
      (hs : ∀ c ∈ s.head?, drop c = false) : (pre ++ s).dropWhile drop = s := by
    rw [List.dropWhile_append_of_pos hpre]
    cases s with
    | nil => rfl
    | cons c s => simp [hs c (by simp)]
  rw [trimBoth, hdrop pre _ hpre, List.reverse_append, hdrop, List.reverse_reverse]
  · exact fun c hc => hpost c (List.mem_reverse.mp hc)
  · rw [List.head?_reverse]
    exact hlast
  · rw [List.head?_append, List.head?_eq_some_head hne, Option.some_or]
    intro c hc
    exact hhead c (by rw [List.head?_eq_some_head hne]; exact hc)

end Trim

theorem mem_of_mem_trimBoth {drop : Char → Bool} {text : List Char} {c : Char}
    (h : c ∈ trimBoth drop text) : c ∈ text := by
  obtain ⟨pre, post, htext, -⟩ := exists_trimBoth drop text
  rw [htext]
  exact List.mem_append_right _ (List.mem_append_left _ h)

theorem trim_ne_nil {text : List Char} {c : Char} (hc : c ∈ text) (hblank : isBlank c = false) :
    trim text ≠ [] := by
  intro he
  obtain ⟨pre, post, htext, hpre, hpost, -, -⟩ := exists_trimBoth isBlank text
  rw [show trimBoth isBlank text = [] from he, List.nil_append] at htext
  rw [htext, List.mem_append] at hc
  rcases hc with hc | hc
  · rw [hpre c hc] at hblank
    exact Bool.noConfusion hblank
  · rw [hpost c hc] at hblank
    exact Bool.noConfusion hblank

/-- A text is trimmed to nothing exactly if it is blank. -/
theorem trim_eq_nil_iff {text : List Char} : trim text = [] ↔ ∀ c ∈ text, isBlank c = true := by
  constructor
  · intro hnil c hc
    cases hblank : isBlank c with
    | true => rfl
    | false => exact absurd hnil (trim_ne_nil hc hblank)
  · intro h
    have hdrop : (text ++ []).dropWhile isBlank = [] := List.dropWhile_append_of_pos h
    rw [List.append_nil] at hdrop
    rw [trim, trimBoth, hdrop]
    rfl

/-- A text without blanks at its ends is trimmed. -/
theorem trim_eq_self {text : List Char} (hb : BeginsSolid text) (he : EndsSolid text) :
    trim text = text := by
  by_cases hne : text = []
  · rw [hne]
    rfl
  · have hsolid : trimBoth isBlank ([] ++ (text ++ [])) = text :=
      trimBoth_append nofun nofun hne hb he
    rwa [List.nil_append, List.append_nil] at hsolid

theorem words_of_blank {text : List Char} (h : ∀ c ∈ text, isBlank c = true) : words text = [] := by
  induction text with
  | nil => exact words_nil
  | cons c rest ih =>
    rw [words_cons_blank (h c List.mem_cons_self), ih fun d hd => h d (List.mem_cons_of_mem _ hd)]

/-- The blanks at the ends of a text do not belong to its words. -/
theorem words_trim (text : List Char) : words (trim text) = words text := by
  obtain ⟨pre, post, htext, hpre, hpost, -, -⟩ := exists_trimBoth isBlank text
  have hopen : EndsOpen pre := fun c hc => hpre c (List.mem_of_getLast? hc)
  have hclose : BeginsOpen post := fun c hc => hpost c (List.mem_of_head? hc)
  have hwords := congrArg words htext
  rw [hopen.words_append, hclose.words_append, words_of_blank hpre, words_of_blank hpost,
    List.nil_append, List.append_nil] at hwords
  exact hwords.symm

/-! ## Words put together -/

theorem unwords_nil : unwords [] = [] := rfl

theorem unwords_singleton (w : List Char) : unwords [w] = w := by
  simp [unwords, List.intercalate]

theorem unwords_cons_cons (w v : List Char) (ws : List (List Char)) :
    unwords (w :: v :: ws) = w ++ ' ' :: unwords (v :: ws) := by
  simp [unwords, List.intercalate]

theorem unwords_cons (w : List Char) {ws : List (List Char)} (h : ws ≠ []) :
    unwords (w :: ws) = w ++ ' ' :: unwords ws := by
  cases ws with
  | nil => exact absurd rfl h
  | cons v ws => exact unwords_cons_cons w v ws

theorem unwords_append {ws vs : List (List Char)} (hws : ws ≠ []) (hvs : vs ≠ []) :
    unwords (ws ++ vs) = unwords ws ++ ' ' :: unwords vs := by
  induction ws with
  | nil => exact absurd rfl hws
  | cons w ws ih =>
    by_cases h : ws = []
    · subst h
      rw [List.singleton_append, unwords_cons w hvs, unwords_singleton]
    · rw [List.cons_append, unwords_cons w (by simp [h]), ih h, unwords_cons w h]
      simp

theorem mem_unwords {c : Char} {ws : List (List Char)} (h : c ∈ unwords ws) :
    c = ' ' ∨ ∃ w ∈ ws, c ∈ w := by
  induction ws with
  | nil => simp [unwords_nil] at h
  | cons w ws ih =>
    by_cases hws : ws = []
    · rw [hws, unwords_singleton] at h
      exact Or.inr ⟨w, List.mem_cons_self, h⟩
    · rw [unwords_cons w hws, List.mem_append, List.mem_cons] at h
      rcases h with h | h | h
      · exact Or.inr ⟨w, List.mem_cons_self, h⟩
      · exact Or.inl h
      · rcases ih h with hspace | ⟨v, hv, hc⟩
        · exact Or.inl hspace
        · exact Or.inr ⟨v, List.mem_cons_of_mem _ hv, hc⟩

/-- Words that a text can have: none is empty and none has a blank in it. -/
def AreWords (ws : List (List Char)) : Prop :=
  ∀ w ∈ ws, w ≠ [] ∧ ∀ c ∈ w, isBlank c = false

theorem areWords_words (text : List Char) : AreWords (words text) := by
  intro w hw
  obtain ⟨-, -, -, -, -, hne, hblank⟩ := exists_of_mem_words hw
  exact ⟨hne, hblank⟩

theorem words_unwords {ws : List (List Char)} (h : AreWords ws) : words (unwords ws) = ws := by
  induction ws with
  | nil => exact words_nil
  | cons w ws ih =>
    obtain ⟨hne, hblank⟩ := h w List.mem_cons_self
    by_cases hws : ws = []
    · subst hws
      rw [unwords_singleton, words_of_unbroken hne hblank]
    · rw [unwords_cons w hws, words_append_blank (by decide), words_of_unbroken hne hblank,
        ih fun v hv => h v (List.mem_cons_of_mem _ hv), List.singleton_append]

theorem unwords_ne_nil {ws : List (List Char)} (h : AreWords ws) (hne : ws ≠ []) :
    unwords ws ≠ [] := by
  intro he
  apply hne
  rw [← words_unwords h, he, words_nil]

theorem lower_unwords (ws : List (List Char)) : lower (unwords ws) = unwords (ws.map lower) := by
  induction ws with
  | nil => rfl
  | cons w ws ih =>
    by_cases hws : ws = []
    · subst hws
      rw [List.map_singleton, unwords_singleton, unwords_singleton]
    · rw [unwords_cons w hws, lower_append_space, ih, List.map_cons,
        unwords_cons _ (by simpa using hws)]

theorem AreWords.map_lower {ws : List (List Char)} (h : AreWords ws) : AreWords (ws.map lower) := by
  intro w hw
  obtain ⟨v, hv, rfl⟩ := List.mem_map.mp hw
  obtain ⟨hne, hblank⟩ := h v hv
  exact ⟨fun he => hne (lower_eq_nil.mp he), isBlank_of_mem_lower hblank⟩

/-! ## The collapsed form -/

theorem collapse_eq (text : List Char) : collapse text = unwords ((words text).map lower) :=
  lower_unwords _

theorem words_collapse (text : List Char) : words (collapse text) = (words text).map lower := by
  rw [collapse_eq, words_unwords (areWords_words text).map_lower]

theorem collapse_collapse (text : List Char) : collapse (collapse text) = collapse text := by
  rw [collapse_eq (collapse text), words_collapse, List.map_map, collapse_eq]
  congr 2
  funext w
  exact lower_lower w

theorem beginsSolid_unwords {ws : List (List Char)} (h : AreWords ws) : BeginsSolid (unwords ws) := by
  cases ws with
  | nil => simp [BeginsSolid, unwords_nil]
  | cons w ws =>
    obtain ⟨hne, hblank⟩ := h w List.mem_cons_self
    have hhead : (unwords (w :: ws)).head? = w.head? := by
      by_cases hws : ws = []
      · rw [hws, unwords_singleton]
      · rw [unwords_cons w hws, List.head?_append, List.head?_eq_some_head hne, Option.some_or]
    intro c hc
    rw [hhead] at hc
    exact hblank c (List.mem_of_head? hc)

theorem endsSolid_unwords {ws : List (List Char)} (h : AreWords ws) : EndsSolid (unwords ws) := by
  induction ws with
  | nil => simp [EndsSolid, unwords_nil]
  | cons w ws ih =>
    intro c hc
    by_cases hws : ws = []
    · rw [hws, unwords_singleton] at hc
      exact (h w List.mem_cons_self).2 c (List.mem_of_getLast? hc)
    · have hrest : AreWords ws := fun v hv => h v (List.mem_cons_of_mem _ hv)
      have hne := unwords_ne_nil hrest hws
      rw [unwords_cons w hws, List.getLast?_append, List.getLast?_cons,
        List.getLast?_eq_some_getLast hne] at hc
      refine ih hrest c ?_
      rw [List.getLast?_eq_some_getLast hne]
      exact hc

theorem beginsSolid_collapse (text : List Char) : BeginsSolid (collapse text) := by
  rw [collapse_eq]
  exact beginsSolid_unwords (areWords_words text).map_lower

theorem endsSolid_collapse (text : List Char) : EndsSolid (collapse text) := by
  rw [collapse_eq]
  exact endsSolid_unwords (areWords_words text).map_lower

/-- Two texts with a space between them are collapsed each by itself. -/
theorem collapse_append_space {a b : List Char} (ha : words a ≠ []) (hb : words b ≠ []) :
    collapse (a ++ ' ' :: b) = collapse a ++ ' ' :: collapse b := by
  have hspace : isBlank ' ' = true := by decide
  rw [collapse_eq, words_append_blank hspace, List.map_append, unwords_append (by simpa using ha)
    (by simpa using hb), ← collapse_eq, ← collapse_eq]

theorem collapse_eq_nil {text : List Char} (h : words text = []) : collapse text = [] := by
  rw [collapse_eq, h]
  rfl

/-- A collapsed text is made of spaces and of the lower-case forms of what was there. -/
theorem mem_collapse {d : Char} {text : List Char} (h : d ∈ collapse text) :
    d = ' ' ∨ d ∈ ['ς', 'σ', 'i', '\u0307'] ∨ ∃ c ∈ text, d = simpleLower c := by
  rcases mem_lowerFrom h with hform | ⟨c, hc, -, rfl⟩
  · exact Or.inr (Or.inl hform)
  · rcases mem_unwords hc with rfl | ⟨w, hw, hcw⟩
    · exact Or.inl (by decide)
    · obtain ⟨a, b, rfl, -⟩ := exists_of_mem_words hw
      exact Or.inr (Or.inr ⟨c, List.mem_append_right _ (List.mem_append_left _ hcw), rfl⟩)

theorem isSettled_of_mem_collapse {c : Char} {text : List Char} (h : c ∈ collapse text) :
    IsSettled c :=
  isSettled_of_mem_lower h

end Teleop.Text
