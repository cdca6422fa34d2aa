import Mathlib.Data.List.Basic
import Mathlib.Data.List.Pairwise
import Teleop.Proofs.Lexicon.Idempotence
import Teleop.Proofs.Text.Place

/-!
# What an entry does to its own source

At each place the longest of the sources that stand there is recognised (`recogniser_eq_some_iff`), so an
entry takes effect on its source by itself where the source can stand between boundaries, that is, where it
begins and ends with a character of a word. Another source stands nowhere in its own text, which is rewritten
as if the entry were not there (`normalize_source`). Sources that are not their own ASCII form are left out.
-/

namespace Teleop

open Text

/-! ## Patterns as long as the text -/

namespace Text

/-- Whether a text by itself stands between boundaries: it begins and ends with a character of a word. -/
def standsAlone (text : List Char) : Bool :=
  text.head?.any isWordChar && text.getLast?.any isWordChar

theorem startsWithLetters_self (w : List Char) : startsWithLetters w w = true := by
  induction w with
  | nil => rfl
  | cons c w ih => rw [startsWithLetters, ih, sameLetter_iff.mpr (Or.inl rfl), Bool.and_self]

theorem isWordAt_self (w : List Char) : isWordAt none w w = standsAlone w := by
  have hlast : boundaryBehind w w.length = w.getLast?.any isWordChar := by
    rw [boundaryBehind, List.getElem?_eq_none (Nat.le_refl _), ← List.getLast?_eq_getElem?, isBoundary]
    exact Bool.bne_false _
  rw [isWordAt, startsWithLetters_self, hlast, Bool.and_true, standsAlone, isBoundary, Option.any_none,
    Bool.false_bne]

end Text

/-! ## Tables with fewer entries -/

namespace Entry

theorem clash?_eq_none_iff {seen entries : List Entry} : clash? seen entries = none ↔
    (∀ e ∈ entries, e.isBlank = false) ∧ (∀ e ∈ entries, ∀ s ∈ seen, e.clashes s = false) ∧
      entries.Pairwise fun s e => e.clashes s = false := by
  induction entries generalizing seen with
  | nil => simp [clash?]
  | cons e rest ih =>
    rw [clash?]
    cases hblank : e.isBlank with
    | true => simp [hblank]
    | false =>
      cases hclash : seen.any e.clashes with
      | true =>
        obtain ⟨s, hs, hes⟩ := List.any_eq_true.mp hclash
        simp only [Bool.false_eq_true, if_false, if_true, reduceCtorEq, false_iff]
        intro hall
        rw [hall.2.1 e List.mem_cons_self s hs] at hes
        exact Bool.noConfusion hes
      | false =>
        have hseen : ∀ s ∈ seen, e.clashes s = false := by simpa using hclash
        rw [if_neg Bool.false_ne_true, if_neg Bool.false_ne_true, ih]
        simp only [List.mem_append, List.mem_singleton, List.forall_mem_cons, List.pairwise_cons,
          hblank, or_imp, forall_and, forall_eq, true_and]
        constructor
        · rintro ⟨hrest, ⟨hbefore, hhere⟩, hpairs⟩
          exact ⟨hrest, ⟨hseen, hbefore⟩, hhere, hpairs⟩
        · rintro ⟨hrest, ⟨-, hbefore⟩, hhere, hpairs⟩
          exact ⟨hrest, ⟨hbefore, hhere⟩, hpairs⟩

theorem fault?_eq_none_iff {entries : List Entry} : fault? entries = none ↔
    (∀ e ∈ entries, e.isBlank = false) ∧ (entries.Pairwise fun s e => e.clashes s = false) ∧
      ∀ e ∈ entries, ∀ other ∈ entries, e.overlaps other = false := by
  have hoverlap : overlap? entries = none ↔
      ∀ e ∈ entries, ∀ other ∈ entries, e.overlaps other = false := by
    simp [overlap?]
  have hclash := @clash?_eq_none_iff [] entries
  simp only [List.not_mem_nil, false_implies, implies_true, true_and] at hclash
  rw [← and_assoc, ← hclash, ← hoverlap, fault?]
  cases clash? [] entries <;> simp

theorem clashes_self (e : Entry) : e.clashes e = false := by
  simp [clashes]

theorem clashes_comm (e other : Entry) : e.clashes other = other.clashes e := by
  simp [clashes, eq_comm]

theorem fault?_filter {entries : List Entry} (keep : Entry → Bool) (h : fault? entries = none) :
    fault? (entries.filter keep) = none := by
  obtain ⟨hblank, hpairs, hoverlap⟩ := fault?_eq_none_iff.mp h
  refine fault?_eq_none_iff.mpr ⟨fun e he => ?_, hpairs.filter keep, fun e he other hother => ?_⟩
  · exact hblank e (List.mem_filter.mp he).1
  · exact hoverlap e (List.mem_filter.mp he).1 other (List.mem_filter.mp hother).1

end Entry

namespace Lexicon

variable {l : Lexicon} {e : Entry}

/-- A lexicon without the entries of a source. -/
def without (l : Lexicon) (source : String) : Lexicon where
  entries := l.entries.filter (·.source ≠ source)
  consistent := Entry.fault?_filter _ l.consistent

/-- The entries of one source have one canonical form. -/
theorem canonical_eq {other : Entry} (he : e ∈ l.entries) (hother : other ∈ l.entries)
    (h : other.source = e.source) : other.canonical = e.canonical := by
  obtain ⟨-, hpairs, -⟩ := Entry.fault?_eq_none_iff.mp l.consistent
  have : Std.Symm fun s t : Entry => t.clashes s = false :=
    ⟨fun s t hst => by rwa [Entry.clashes_comm]⟩
  have hclash := hpairs.forall_of_forall (fun s _ => s.clashes_self) he hother
  simpa [Entry.clashes, h] using hclash

/-- A source is looked up with the canonical form of its entry. -/
theorem lookup?_source (hl : l.HasCollapsedEntries) (he : e ∈ l.entries) :
    l.lookup? e.source = some e.canonical := by
  have hkey : collapseString e.source = e.source := by
    rw [collapseString, (hl e he).1.collapse_eq, String.ofList_toList]
  rw [lookup?, hkey]
  cases hfind : l.entries.find? (·.source = e.source) with
  | none => simpa using List.find?_eq_none.mp hfind e he
  | some other =>
    have hsource : other.source = e.source := by simpa using List.find?_some hfind
    rw [Option.map_some, canonical_eq he (List.mem_of_find?_eq_some hfind) hsource]

/-! ## The longest source -/

theorem pairwise_insertByLength {source : List Char} {sources : List (List Char)}
    (h : sources.Pairwise fun w v => v.length ≤ w.length) :
    (insertByLength source sources).Pairwise fun w v => v.length ≤ w.length := by
  induction sources with
  | nil => exact List.pairwise_singleton _ _
  | cons other rest ih =>
    obtain ⟨hother, hrest⟩ := List.pairwise_cons.mp h
    rw [insertByLength]
    split
    · rename_i hshorter
      refine List.pairwise_cons.mpr ⟨fun w hw => ?_, ih hrest⟩
      rcases mem_insertByLength.mp hw with rfl | hw
      · exact Nat.le_of_lt hshorter
      · exact hother w hw
    · rename_i hlonger
      refine List.pairwise_cons.mpr ⟨fun w hw => ?_, h⟩
      rcases List.mem_cons.mp hw with rfl | hw
      · exact Nat.le_of_not_lt hlonger
      · exact Nat.le_trans (hother w hw) (Nat.le_of_not_lt hlonger)

theorem pairwise_sourcesByLength (l : Lexicon) :
    l.sourcesByLength.Pairwise fun w v => v.length ≤ w.length := by
  rw [sourcesByLength]
  induction l.entries.map (·.source.toList) with
  | nil => exact .nil
  | cons source sources ih => exact pairwise_insertByLength ih

/-- The longest of the sources that stand at a place is recognised. -/
theorem recogniser_eq_some_iff {before : Option Char} {text : List Char} {n : Nat} :
    l.recogniser before text = some ((), n) ↔
      (∃ e ∈ l.entries, isWordAt before text e.source.toList = true ∧ e.source.toList.length = n) ∧
        ∀ e ∈ l.entries, isWordAt before text e.source.toList = true → e.source.toList.length ≤ n := by
  have hfirst {w : List Char} (h : l.sourcesByLength.find? (isWordAt before text) = some w) :
      ∀ e ∈ l.entries, isWordAt before text e.source.toList = true →
        e.source.toList.length ≤ w.length := by
    intro e he hat
    obtain ⟨-, longer, shorter, hsplit, hlonger⟩ := List.find?_eq_some_iff_append.mp h
    have hpairs := l.pairwise_sourcesByLength
    have hmem : e.source.toList ∈ l.sourcesByLength := mem_sourcesByLength.mpr ⟨e, he, rfl⟩
    rw [hsplit] at hpairs hmem
    rcases List.mem_append.mp hmem with hmem | hmem
    · have hnot := hlonger _ hmem
      rw [hat] at hnot
      exact absurd hnot (by decide)
    · rcases List.mem_cons.mp hmem with hsame | hmem
      · exact Nat.le_of_eq (congrArg List.length hsame)
      · exact (List.pairwise_cons.mp (List.pairwise_append.mp hpairs).2.1).1 _ hmem
  constructor
  · intro h
    simp only [recogniser, recogniseSource, Option.map_eq_some_iff, Prod.mk.injEq, true_and] at h
    obtain ⟨w, hw, rfl⟩ := h
    obtain ⟨e, he, rfl⟩ := mem_sourcesByLength.mp (List.mem_of_find?_eq_some hw)
    exact ⟨⟨e, he, List.find?_some hw, rfl⟩, hfirst hw⟩
  · rintro ⟨⟨e, he, hat, rfl⟩, hlongest⟩
    cases hfind : l.sourcesByLength.find? (isWordAt before text) with
    | none =>
      have hnone := List.find?_eq_none.mp hfind _ (mem_sourcesByLength.mpr ⟨e, he, rfl⟩)
      exact absurd hat hnone
    | some w =>
      obtain ⟨other, hother, rfl⟩ := mem_sourcesByLength.mp (List.mem_of_find?_eq_some hfind)
      have hlength := Nat.le_antisymm (hlongest other hother (List.find?_some hfind))
        (hfirst hfind e he hat)
      rw [recogniser, recogniseSource, hfind, Option.map_some, hlength]

/-- Two lexicons recognise the same at a place if the same entries stand there. -/
theorem recogniser_congr {l' : Lexicon} {before : Option Char} {text : List Char}
    (h : ∀ e, isWordAt before text e.source.toList = true → (e ∈ l.entries ↔ e ∈ l'.entries)) :
    l.recogniser before text = l'.recogniser before text := by
  refine Option.ext fun taken => ?_
  obtain ⟨⟨⟩, n⟩ := taken
  rw [recogniser_eq_some_iff, recogniser_eq_some_iff]
  refine and_congr (exists_congr fun e => and_congr_left fun hat => h e hat.1)
    (forall_congr' fun e => ⟨fun hall he hat => ?_, fun hall he hat => ?_⟩)
  · exact hall ((h e hat).mpr he) hat
  · exact hall ((h e hat).mp he) hat

/-! ## A source by itself -/

theorem replaceSources_source (hl : l.HasCollapsedEntries) (he : e ∈ l.entries)
    (halone : standsAlone e.source.toList = true) :
    l.replaceSources e.source.toList = e.canonical.toList := by
  have hne := l.source_ne_nil he
  have htaken : l.recogniser none e.source.toList = some ((), e.source.toList.length) := by
    refine recogniser_eq_some_iff.mpr ⟨⟨e, he, ?_, rfl⟩, fun other hother hat => ?_⟩
    · rw [isWordAt_self, halone]
    · obtain ⟨m, q, htext, hstands⟩ := (isWordAt_iff (l.source_ne_nil hother)).mp hat
      rw [htext, List.length_append, hstands.length_eq]
      exact Nat.le_add_right _ _
  have hscan : Scanned l.recogniser none (e.source.toList ++ []) [.found () e.source.toList] :=
    .found hne (by rwa [List.append_nil]) .nil
  rw [List.append_nil] at hscan
  have hlookup := lookup?_source hl he
  rw [← String.ofList_toList (s := e.source)] at hlookup
  rw [replaceSources_eq, hscan.scan_eq l.isBounded_recogniser, List.flatMap_singleton, replacePiece,
    replacement_of_lookup?_some hlookup]

section Without

variable {source : String} {p s f : List Char}

/-- A source that does not stand alone stands at no place of its own text. -/
theorem ne_of_isWordAt (halone : standsAlone source.toList = false) (hsplit : source.toList = p ++ s)
    (hat : isWordAt p.getLast? s f = true) : f ≠ source.toList := by
  rintro rfl
  have hstarts := hat
  rw [isWordAt, Bool.and_eq_true, Bool.and_eq_true] at hstarts
  have hle := startsWithLetters_length_le hstarts.1.2
  rw [hsplit, List.length_append] at hle
  obtain rfl : p = [] := List.length_eq_zero_iff.mp (by omega)
  rw [List.nil_append] at hsplit
  rw [← hsplit, List.getLast?_nil, isWordAt_self, halone] at hat
  exact Bool.noConfusion hat

theorem lookup?_without (hf : IsCollapsed f) (hne : f ≠ source.toList) :
    (l.without source).lookup? (String.ofList f) = l.lookup? (String.ofList f) := by
  have hkey : collapseString (String.ofList f) = String.ofList f := by
    rw [collapseString, String.toList_ofList, hf.collapse_eq]
  rw [lookup?, lookup?, hkey, without, List.find?_filter]
  congr 2
  funext other
  by_cases hother : other.source = String.ofList f
  · have hkept : String.ofList f ≠ source := by
      rintro rfl
      exact hne String.toList_ofList.symm
    simp [hother, hkept]
  · simp [hother]

/-- The entries of a source that does not stand alone have no part in what it becomes. -/
theorem replaceSources_without (hl : l.HasCollapsedEntries) (hsource : IsCollapsed source.toList)
    (halone : standsAlone source.toList = false) :
    (l.without source).replaceSources source.toList = l.replaceSources source.toList := by
  have hscan := scanned_scan l.isBounded_recogniser source.toList
  have hsame : Scanned (l.without source).recogniser none source.toList
      (scan l.recogniser source.toList) := by
    refine hscan.congr_places fun p s hsplit _ => ?_
    rw [Option.or_none]
    refine recogniser_congr fun e hat => ?_
    have hkept : e.source ≠ source := fun h => ne_of_isWordAt halone hsplit hat (by rw [h])
    simp [without, hkept]
  rw [replaceSources_eq, hsame.scan_eq (isBounded_recogniser _), replaceSources_eq]
  refine List.flatMap_congr fun piece hpiece => ?_
  cases piece with
  | plain c => rfl
  | found u f =>
    have hf := isCollapsed_of_found hl hsource hscan hpiece
    obtain ⟨P, Q, hpieces⟩ := List.append_of_mem hpiece
    rw [hpieces] at hscan
    obtain ⟨e, -, hstands⟩ := stands_of_found hscan
    have hat : isWordAt (textOf P).getLast? (f ++ textOf Q) f = true :=
      (isWordAt_iff hf.ne_nil).mpr ⟨f, textOf Q, rfl, { hstands with
        ne_nil := hf.ne_nil
        length_eq := rfl
        letters := fun k c d hc hd => by
          rw [hc] at hd
          exact sameLetter_iff.mpr (Or.inl (Option.some.inj hd)) }⟩
    have hsplit := hscan.textOf_eq
    rw [textOf_append, textOf_cons, Piece.chars] at hsplit
    rw [replacePiece, replacePiece, replacement, replacement,
      lookup?_without hf (ne_of_isWordAt halone hsplit.symm hat)]

end Without

/-- Lookup and normalization agree on a source of an accepted list that is its own ASCII form and stands
alone. Another source stands at no place of its own text, and becomes what it becomes without the entry. -/
theorem normalize_source {entries : List Entry} (h : ofEntries entries = .ok l) (he : e ∈ l.entries) :
    l.lookup? e.source = some e.canonical ∧
      (standsAlone e.source.toList = false → ∀ p s, e.source.toList = p ++ s →
        isWordAt p.getLast? s e.source.toList = false) ∧
      (e.source.toList.map asciiForm = e.source.toList → l.normalize e.source =
        if standsAlone e.source.toList then e.canonical
        else (l.without e.source).normalize e.source) := by
  have hl := hasCollapsedEntries_of_ofEntries h
  have hsource := (hl e he).1
  refine ⟨lookup?_source hl he, fun halone p s hsplit => ?_, fun hascii => String.toList_inj.mp ?_⟩
  · rw [← Bool.not_eq_true]
    exact fun hat => ne_of_isWordAt halone hsplit hat rfl
  · rw [toList_normalize hl, hascii, hsource.collapse_eq]
    cases halone : standsAlone e.source.toList with
    | true => rw [if_pos rfl, replaceSources_source hl he halone]
    | false =>
      have hless : (l.without e.source).HasCollapsedEntries :=
        fun other hother => hl other (List.mem_filter.mp hother).1
      rw [if_neg Bool.false_ne_true, toList_normalize hless, hascii, hsource.collapse_eq,
        replaceSources_without hl hsource halone]

/-- An entry whose source has no character of a word in it. -/
def percentSign : Lexicon where
  entries := [⟨"%", "percent"⟩]
  consistent := by decide

/-- The first entry of `crossed` takes effect. The source of `percentSign` does not stand in its own text. -/
theorem normalize_source_crossed :
    (ofEntries crossed.entries = .ok crossed ∧ ⟨"a b", "x"⟩ ∈ crossed.entries ∧
      crossed.normalize "a b" = "x") ∧
    ofEntries percentSign.entries = .ok percentSign ∧ ⟨"%", "percent"⟩ ∈ percentSign.entries ∧
      isWordAt none ['%'] ['%'] = false ∧
      percentSign.normalize "%" = (percentSign.without "%").normalize "%" := by
  have hcrossed : ofEntries crossed.entries = .ok crossed := ofEntries_eq_ok (by decide)
  have hmem : ⟨"a b", "x"⟩ ∈ crossed.entries := by decide
  have hsign : ofEntries percentSign.entries = .ok percentSign := ofEntries_eq_ok (by decide)
  have hmem' : ⟨"%", "percent"⟩ ∈ percentSign.entries := by decide
  obtain ⟨-, hnowhere, hnormal⟩ := normalize_source hsign hmem'
  refine ⟨⟨hcrossed, hmem, ((normalize_source hcrossed hmem).2.2 (by decide)).trans ?_⟩, hsign, hmem', ?_, ?_⟩
  · decide
  · exact hnowhere (by decide) [] ['%'] (by decide)
  · exact (hnormal (by decide)).trans (if_neg (by decide))

/-- A digit of the Urdu script is accepted in a source and has its ASCII form in every text. -/
example : Lexicon.normalize ⟨[⟨"۲ قدم", "two steps"⟩], by decide⟩ "۲ قدم" = "2 قدم" := by
  decide

/-- A percent sign stays as it is. -/
theorem normalize_source_percentSign : ¬ ∀ (entries : List Entry) (l : Lexicon),
    ofEntries entries = .ok l → ∀ e ∈ l.entries, l.normalize e.source = e.canonical := by
  intro h
  have hstays : percentSign.normalize "%" ≠ "percent" := by decide
  have haccepted : ofEntries percentSign.entries = .ok percentSign := ofEntries_eq_ok (by decide)
  exact hstays (h _ _ haccepted ⟨"%", "percent"⟩ (by decide))

end Lexicon

end Teleop
