import Teleop.Proofs.Classification.View
import Teleop.Proofs.Lexicon.Effect

/-!
# A table is the set of its entries

What makes a list of collapsed entries a lexicon can be said of its members alone (`AreConsistent`,
`fault?_eq_none_iff_areConsistent`), so neither order nor repetitions matter to it. Nor do they matter to
what a lexicon does: the canonical form of a source is that of any entry of the source (`lookup?_iff`), and
where several sources of one length stand at a place they stand on one span (`recogniser_congr`). So two
accepted lists that are permutations of each other normalize every utterance alike
(`normalize_of_perm`).
-/

namespace Teleop

open Text

/-! ## Consistency -/

namespace Entry

structure AreConsistent (entries : List Entry) : Prop where
  filled : ∀ e ∈ entries, e.source ≠ "" ∧ e.canonical ≠ ""
  single : ∀ e ∈ entries, ∀ other ∈ entries, e.source = other.source → e.canonical = other.canonical
  apart : ∀ e ∈ entries, ∀ other ∈ entries,
    ¬ words other.source.toList <:+: words e.canonical.toList

/-- Fewer entries are consistent too. -/
theorem AreConsistent.mono {entries fewer : List Entry} (h : AreConsistent entries)
    (hsub : fewer ⊆ entries) : AreConsistent fewer where
  filled e he := h.filled e (hsub he)
  single e he other hother := h.single e (hsub he) other (hsub hother)
  apart e he other hother := h.apart e (hsub he) other (hsub hother)

theorem isBlank_eq_false_iff {e : Entry} : e.isBlank = false ↔ e.source ≠ "" ∧ e.canonical ≠ "" := by
  simp [isBlank]

theorem clashes_eq_false_iff {e other : Entry} :
    e.clashes other = false ↔ (e.source = other.source → e.canonical = other.canonical) := by
  simp [clashes]

theorem collapsed_collapsed (e : Entry) : e.collapsed.collapsed = e.collapsed := by
  simp [collapsed, collapseString, String.toList_ofList, collapse_collapse]

theorem collapse_texts {e : Entry} (h : e.collapsed = e) :
    collapse e.source.toList = e.source.toList ∧ collapse e.canonical.toList = e.canonical.toList := by
  have hsource : collapseString e.source = e.source := congrArg source h
  have hcanonical : collapseString e.canonical = e.canonical := congrArg canonical h
  have htoList (s : String) : (collapseString s).toList = collapse s.toList := String.toList_ofList
  exact ⟨by rw [← htoList, hsource], by rw [← htoList, hcanonical]⟩

theorem overlaps_eq_false_iff {e other : Entry} (he : e.collapsed = e) (hother : other.collapsed = other)
    (hsource : other.source ≠ "") :
    e.overlaps other = false ↔ ¬ words other.source.toList <:+: words e.canonical.toList := by
  have hne : other.source.toList ≠ [] := fun hnil => hsource (String.toList_eq_nil_iff.mp hnil)
  rw [← Bool.not_eq_true, overlaps, containsPhrase_iff_words
    (unwords_words_of_collapse (collapse_texts he).2)
    (unwords_words_of_collapse (collapse_texts hother).1) hne]

/-- A list of collapsed entries makes a lexicon exactly if its members are consistent. -/
theorem fault?_eq_none_iff_areConsistent {entries : List Entry}
    (hcollapsed : ∀ e ∈ entries, e.collapsed = e) :
    fault? entries = none ↔ AreConsistent entries := by
  rw [fault?_eq_none_iff]
  constructor
  · rintro ⟨hblank, hpairs, hoverlap⟩
    have hsymm : Std.Symm fun s t : Entry => t.clashes s = false :=
      ⟨fun s t hst => by rwa [Entry.clashes_comm]⟩
    have hfilled := fun e he => isBlank_eq_false_iff.mp (hblank e he)
    refine ⟨hfilled, fun e he other hother => ?_, fun e he other hother => ?_⟩
    · exact clashes_eq_false_iff.mp
        (hpairs.forall_of_forall (fun s _ => s.clashes_self) hother he)
    · exact (overlaps_eq_false_iff (hcollapsed e he) (hcollapsed other hother)
        (hfilled other hother).1).mp (hoverlap e he other hother)
  · intro h
    refine ⟨fun e he => isBlank_eq_false_iff.mpr (h.filled e he),
      List.pairwise_of_forall_mem_list fun s hs e he => ?_, fun e he other hother => ?_⟩
    · exact clashes_eq_false_iff.mpr (h.single e he s hs)
    · exact (overlaps_eq_false_iff (hcollapsed e he) (hcollapsed other hother)
        (h.filled other hother).1).mpr (h.apart e he other hother)

end Entry

namespace Lexicon

variable {l l' : Lexicon} {entries : List Entry}

/-- A list of entries is accepted exactly if their collapsed forms are consistent. -/
theorem ofEntries_iff :
    (∃ l, ofEntries entries = .ok l) ↔ Entry.AreConsistent (entries.map Entry.collapsed) := by
  have hcollapsed : ∀ e ∈ entries.map Entry.collapsed, e.collapsed = e := by
    intro e he
    obtain ⟨raw, -, rfl⟩ := List.mem_map.mp he
    exact raw.collapsed_collapsed
  rw [← Entry.fault?_eq_none_iff_areConsistent hcollapsed]
  constructor
  · rintro ⟨l, h⟩
    rw [← entries_of_ofEntries h]
    exact l.consistent
  · exact fun h => ⟨_, ofEntries_eq_ok h⟩

/-! ## Lookup and normalization -/

/-- A source is looked up with the canonical form of any entry that has it. -/
theorem lookup?_iff {source canonical : String} : l.lookup? source = some canonical ↔
    ∃ e ∈ l.entries, e.source = collapseString source ∧ e.canonical = canonical := by
  simp only [lookup?, Option.map_eq_some_iff]
  constructor
  · rintro ⟨e, he, rfl⟩
    exact ⟨e, List.mem_of_find?_eq_some he, by simpa using List.find?_some he, rfl⟩
  · rintro ⟨e, he, hsource, rfl⟩
    cases hfind : l.entries.find? (·.source = collapseString source) with
    | none => simpa [hsource] using List.find?_eq_none.mp hfind e he
    | some other =>
      have hother : other.source = collapseString source := by simpa using List.find?_some hfind
      exact ⟨other, rfl, canonical_eq he (List.mem_of_find?_eq_some hfind) (hother.trans hsource.symm)⟩

theorem lookup?_congr (h : ∀ e, e ∈ l.entries ↔ e ∈ l'.entries) (source : String) :
    l.lookup? source = l'.lookup? source := by
  refine Option.ext fun canonical => ?_
  simp only [lookup?_iff, h]

/-- Lexicons with the same entries normalize alike. -/
theorem normalize_congr (h : ∀ e, e ∈ l.entries ↔ e ∈ l'.entries) (utterance : String) :
    l.normalize utterance = l'.normalize utterance := by
  have hrecogniser : l.recogniser = l'.recogniser := by
    funext before text
    exact recogniser_congr fun e _ => h e
  have hpiece : l.replacePiece = l'.replacePiece := by
    funext piece
    cases piece with
    | plain c => rfl
    | found u text => rw [replacePiece, replacePiece, replacement, replacement, lookup?_congr h]
  rw [normalize, normalize, replaceSources_eq, replaceSources_eq, hrecogniser, hpiece]

/-- A permutation of an accepted list is accepted, and normalizes every utterance alike. -/
theorem normalize_of_perm {permuted : List Entry} (hperm : entries.Perm permuted)
    (h : ofEntries entries = .ok l) :
    ∃ l', ofEntries permuted = .ok l' ∧ ∀ utterance, l'.normalize utterance = l.normalize utterance := by
  have hmap := hperm.map Entry.collapsed
  have hconsistent := (ofEntries_iff.mp ⟨l, h⟩).mono hmap.symm.subset
  obtain ⟨l', h'⟩ := ofEntries_iff.mpr hconsistent
  refine ⟨l', h', normalize_congr fun e => ?_⟩
  rw [entries_of_ofEntries h, entries_of_ofEntries h']
  exact hmap.symm.mem_iff

/-- The long and the short `s` stand for each other in a text. The order of their entries decides which of
the two is recognised and not what it is replaced by. -/
theorem normalize_of_perm_longS :
    ∃ l l', ofEntries [⟨"s", "south"⟩, ⟨"ſ", "slow"⟩] = .ok l ∧
      ofEntries [⟨"ſ", "slow"⟩, ⟨"s", "south"⟩] = .ok l' ∧
      l'.normalize "go ſ s" = l.normalize "go ſ s" := by
  have h : ofEntries [⟨"s", "south"⟩, ⟨"ſ", "slow"⟩] = .ok ⟨_, _⟩ := ofEntries_eq_ok (by decide)
  obtain ⟨l', h', hsame⟩ := normalize_of_perm (List.Perm.swap ⟨"ſ", "slow"⟩ ⟨"s", "south"⟩ []) h
  exact ⟨_, l', h, h', hsame "go ſ s"⟩

end Lexicon

end Teleop
