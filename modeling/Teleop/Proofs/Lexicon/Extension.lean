import Teleop.Proofs.Lexicon.Apart
import Teleop.Proofs.Lexicon.Table

/-!
# Extensions of the built-in table

An extension is merged into the table entry by entry and checked as a whole afterwards. Merging fails exactly
where a source has two canonical forms, and otherwise appends the first entry of each source that is new
(`extend_eq_ok_iff`). What it drops are repetitions, so the merged table has the members of the built-in
entries and the further ones together, and is consistent exactly if they are. So an extension is accepted
exactly if all entries together are consistent, in whatever order they come (`withExtra_iff`).
-/

namespace Teleop

open Text

namespace Entry

/-- The first entry of each source, in order. -/
def firsts : List Entry → List Entry
  | [] => []
  | e :: rest => e :: (firsts rest).filter (·.source ≠ e.source)

def isNewTo (table : List Entry) (e : Entry) : Bool :=
  table.all (·.source ≠ e.source)

/-- The first entry of each source that no entry of a table has. -/
def newTo (table entries : List Entry) : List Entry :=
  (firsts entries).filter (isNewTo table)

/-- Whether no source has two canonical forms. -/
def HasOneForm (entries : List Entry) : Prop :=
  ∀ e ∈ entries, ∀ other ∈ entries, e.source = other.source → e.canonical = other.canonical

variable {table entries : List Entry} {e : Entry}

theorem mem_of_mem_firsts (h : e ∈ firsts entries) : e ∈ entries := by
  induction entries with
  | nil => exact h
  | cons first rest ih =>
    rcases List.mem_cons.mp h with rfl | h
    · exact List.mem_cons_self
    · exact List.mem_cons_of_mem _ (ih (List.mem_filter.mp h).1)

/-- Every source has its first entry. -/
theorem exists_mem_firsts (h : e ∈ entries) : ∃ first ∈ firsts entries, first.source = e.source := by
  induction entries with
  | nil => simp at h
  | cons first rest ih =>
    by_cases hsource : first.source = e.source
    · exact ⟨first, List.mem_cons_self, hsource⟩
    · have hrest : e ∈ rest := (List.mem_cons.mp h).resolve_left fun he => hsource (by rw [he])
      obtain ⟨other, hother, hsame⟩ := ih hrest
      refine ⟨other, List.mem_cons_of_mem _ (List.mem_filter.mpr ⟨hother, ?_⟩), hsame⟩
      exact decide_eq_true fun h => hsource (h.symm.trans hsame)

theorem nodup_firsts (entries : List Entry) : ((firsts entries).map source).Nodup := by
  induction entries with
  | nil => exact List.nodup_nil
  | cons first rest ih =>
    rw [firsts, List.map_cons, List.nodup_cons]
    constructor
    · intro hmem
      obtain ⟨e, he, hsource⟩ := List.mem_map.mp hmem
      exact of_decide_eq_true (List.mem_filter.mp he).2 hsource
    · exact ih.sublist (List.filter_sublist.map source)

theorem isNewTo_iff : isNewTo table e = true ↔ ∀ known ∈ table, known.source ≠ e.source := by
  simp [isNewTo]

theorem isNewTo_append (more : List Entry) :
    isNewTo (table ++ more) e = (isNewTo table e && isNewTo more e) :=
  List.all_append

/-- What comes behind brings no source that the list has already. -/
theorem firsts_append (entries more : List Entry) :
    firsts (entries ++ more) = firsts entries ++ newTo entries more := by
  induction entries with
  | nil => exact (List.filter_eq_self.mpr fun _ _ => rfl).symm
  | cons first rest ih =>
    rw [List.cons_append, firsts, ih, List.filter_append, firsts, List.cons_append, newTo, newTo,
      List.filter_filter]
    congr 3
    funext e
    rw [← List.singleton_append, isNewTo_append]
    simp [isNewTo, eq_comm]

theorem newTo_cons_of_known (h : isNewTo table e = false) (rest : List Entry) :
    newTo table (e :: rest) = newTo table rest := by
  rw [newTo, firsts, List.filter_cons_of_neg (by simp [h]), List.filter_filter, newTo]
  refine List.filter_congr fun other _ => ?_
  by_cases hother : other.source = e.source
  · have hknown : isNewTo table other = false := by rwa [isNewTo, hother]
    rw [hknown, Bool.false_and]
  · rw [decide_eq_true hother, Bool.and_true]

theorem newTo_cons_of_new (h : isNewTo table e = true) (rest : List Entry) :
    newTo table (e :: rest) = e :: newTo (table ++ [e]) rest := by
  rw [newTo, firsts, List.filter_cons_of_pos h, List.filter_filter, newTo]
  congr 2
  funext other
  rw [isNewTo_append]
  simp [isNewTo, eq_comm]

/-- To give entries a second time brings nothing new. -/
theorem newTo_append_self (table entries : List Entry) :
    newTo table (entries ++ entries) = newTo table entries := by
  have hnone : newTo entries entries = [] := by
    rw [newTo, List.filter_eq_nil_iff]
    intro e he
    rw [isNewTo_iff]
    exact fun hnew => hnew e (mem_of_mem_firsts he) rfl
  rw [newTo, firsts_append, hnone, List.append_nil, newTo]

theorem nodup_append_newTo (h : (table.map source).Nodup) (entries : List Entry) :
    ((table ++ newTo table entries).map source).Nodup := by
  rw [List.map_append, List.nodup_append]
  refine ⟨h, (nodup_firsts entries).sublist (List.filter_sublist.map source), ?_⟩
  intro s hs t ht
  obtain ⟨known, hknown, rfl⟩ := List.mem_map.mp hs
  obtain ⟨e, he, rfl⟩ := List.mem_map.mp ht
  exact isNewTo_iff.mp (List.mem_filter.mp he).2 known hknown

theorem HasOneForm.mono {fewer : List Entry} (h : HasOneForm entries) (hsub : fewer ⊆ entries) :
    HasOneForm fewer :=
  fun e he other hother => h e (hsub he) other (hsub hother)

theorem HasOneForm.eq {other : Entry} (h : HasOneForm entries) (he : e ∈ entries)
    (hother : other ∈ entries) (hsource : e.source = other.source) : e = other := by
  have hcanonical := h e he other hother hsource
  cases e
  cases other
  exact congrArg₂ Entry.mk hsource hcanonical

theorem HasOneForm.concat (h : HasOneForm table) (hnew : ∀ known ∈ table, known.source ≠ e.source) :
    HasOneForm (table ++ [e]) := by
  intro s hs t ht hsource
  rw [List.mem_append, List.mem_singleton] at hs ht
  rcases hs with hs | rfl <;> rcases ht with ht | rfl
  · exact h s hs t ht hsource
  · exact absurd hsource (hnew s hs)
  · exact absurd hsource.symm (hnew t ht)
  · rfl

/-- A further entry keeps collapsed entries consistent if its source is new and it overlaps with none of
them, nor with itself. -/
theorem AreConsistent.concat (h : AreConsistent table) (hcollapsed : ∀ s ∈ table, s.collapsed = s)
    (he : e.collapsed = e) (hfilled : e.source ≠ "" ∧ e.canonical ≠ "")
    (hnew : ∀ known ∈ table, known.source ≠ e.source) (hown : e.overlaps e = false)
    (hapart : ∀ s ∈ table, s.overlaps e = false ∧ e.overlaps s = false) :
    AreConsistent (table ++ [e]) where
  filled s hs := by
    rw [List.mem_append, List.mem_singleton] at hs
    rcases hs with hs | rfl
    · exact h.filled s hs
    · exact hfilled
  single := HasOneForm.concat h.single hnew
  apart s hs t ht := by
    rw [List.mem_append, List.mem_singleton] at hs ht
    rcases hs with hs | rfl <;> rcases ht with ht | rfl
    · exact h.apart s hs t ht
    · exact (overlaps_eq_false_iff (hcollapsed s hs) he hfilled.1).mp (hapart s hs).1
    · exact (overlaps_eq_false_iff he (hcollapsed t ht) (h.filled t ht).1).mp (hapart t ht).2
    · exact (overlaps_eq_false_iff he he hfilled.1).mp hown

/-- What merging leaves out of a list is in the table or in the list before. -/
theorem mem_append_newTo (h : HasOneForm (table ++ entries)) :
    e ∈ table ++ newTo table entries ↔ e ∈ table ++ entries := by
  constructor
  · intro he
    rcases List.mem_append.mp he with he | he
    · exact List.mem_append_left _ he
    · exact List.mem_append_right _ (mem_of_mem_firsts (List.mem_filter.mp he).1)
  · intro he
    by_cases hnew : isNewTo table e = true
    · have hentries : e ∈ entries :=
        (List.mem_append.mp he).resolve_left fun hmem => isNewTo_iff.mp hnew e hmem rfl
      obtain ⟨first, hfirst, hsource⟩ := exists_mem_firsts hentries
      have hfirst' : first ∈ table ++ entries := List.mem_append_right _ (mem_of_mem_firsts hfirst)
      rw [h.eq hfirst' he hsource] at hfirst
      exact List.mem_append_right _ (List.mem_filter.mpr ⟨hfirst, hnew⟩)
    · obtain ⟨known, hknown, hsource⟩ : ∃ known ∈ table, known.source = e.source := by
        simpa [isNewTo_iff] using hnew
      rw [← h.eq (List.mem_append_left _ hknown) he hsource]
      exact List.mem_append_left _ hknown

end Entry

namespace Lexicon

open Entry

variable {table merged extra : List Entry} {l : Lexicon}

/-- Merging appends the first entry of each new source, and fails exactly where a source would have two
canonical forms. -/
theorem extend_eq_ok_iff (htable : HasOneForm table) : extend table extra = .ok merged ↔
    HasOneForm (table ++ extra.map collapsed) ∧
      merged = table ++ newTo table (extra.map collapsed) := by
  induction extra generalizing table with
  | nil => simp [extend, newTo, firsts, htable, eq_comm]
  | cons raw rest ih =>
    rw [List.map_cons, extend]
    cases hfind : table.find? (·.source = raw.collapsed.source) with
    | some known =>
      have hknown := List.mem_of_find?_eq_some hfind
      have hsource : known.source = raw.collapsed.source := by simpa using List.find?_some hfind
      have hold : isNewTo table raw.collapsed = false := by
        rw [← Bool.not_eq_true, isNewTo_iff]
        exact fun hnew => hnew known hknown hsource
      by_cases hform : known.canonical = raw.collapsed.canonical
      · -- the entry is in the table already
        have hsame : known = raw.collapsed := congrArg₂ Entry.mk hsource hform
        have hmem : raw.collapsed ∈ table := hsame ▸ hknown
        simp only [if_pos hform, ih htable, newTo_cons_of_known hold]
        refine and_congr_left fun _ => ⟨fun h => h.mono ?_, fun h => h.mono ?_⟩
        · simp [hmem]
        · simp
      · simp only [if_neg hform, reduceCtorEq, false_iff]
        rintro ⟨h, -⟩
        exact hform (h known (List.mem_append_left _ hknown) raw.collapsed (by simp) hsource)
    | none =>
      have hnew : ∀ known ∈ table, known.source ≠ raw.collapsed.source := by
        simpa using List.find?_eq_none.mp hfind
      simp only [ih (htable.concat hnew), newTo_cons_of_new (isNewTo_iff.mpr hnew), List.append_assoc,
        List.singleton_append]

/-! ## The built-in table -/

theorem HasCollapsedEntries.collapsed_eq (h : l.HasCollapsedEntries) {e : Entry} (he : e ∈ l.entries) :
    e.collapsed = e := by
  obtain ⟨hsource, hcanonical⟩ := h e he
  rw [collapsed, collapseString, collapseString, hsource.collapse_eq, hcanonical.collapse_eq,
    String.ofList_toList, String.ofList_toList]

theorem collapsed_of_mem {e : Entry} (he : e ∈ builtinEntries ++ extra.map collapsed) :
    e.collapsed = e := by
  rcases List.mem_append.mp he with he | he
  · exact hasCollapsedEntries_builtin.collapsed_eq he
  · obtain ⟨raw, -, rfl⟩ := List.mem_map.mp he
    exact raw.collapsed_collapsed

theorem areConsistent_builtin : AreConsistent builtinEntries :=
  (fault?_eq_none_iff_areConsistent fun _ he => hasCollapsedEntries_builtin.collapsed_eq he).mp
    builtin.consistent

set_option maxRecDepth 20000 in
theorem nodup_builtin : (builtinEntries.map source).Nodup := by
  decide

theorem hasCollapsedEntries_of_collapsed (h : ∀ e ∈ l.entries, e.collapsed = e) :
    l.HasCollapsedEntries := fun e he =>
  ⟨isCollapsed_of_collapse (collapse_texts (h e he)).1 (l.source_ne_nil he),
    isCollapsed_of_collapse (collapse_texts (h e he)).2 (l.canonical_ne_nil he)⟩

/-- An extension is accepted exactly if all entries together are consistent, and then it is the built-in
table with the new entries behind. -/
theorem withExtra_eq_ok_iff : withExtra extra = .ok l ↔
    AreConsistent (builtinEntries ++ extra.map collapsed) ∧
      l.entries = builtinEntries ++ newTo builtinEntries (extra.map collapsed) := by
  have hextend {merged : List Entry} : extend builtinEntries extra = .ok merged ↔ _ :=
    extend_eq_ok_iff areConsistent_builtin.single
  have hopen : withExtra extra = (extend builtinEntries extra).bind ofEntries := rfl
  rw [hopen]
  constructor
  · intro h
    cases hmerged : extend builtinEntries extra with
    | error fault =>
      rw [hmerged] at h
      cases h
    | ok merged =>
      rw [hmerged] at h
      change ofEntries merged = .ok l at h
      obtain ⟨hform, rfl⟩ := hextend.mp hmerged
      have hmem {e : Entry} := mem_append_newTo (e := e) hform
      have hsame : l.entries = builtinEntries ++ newTo builtinEntries (extra.map collapsed) := by
        rw [entries_of_ofEntries h]
        exact (List.map_congr_left fun e he => collapsed_of_mem (hmem.mp he)).trans (List.map_id _)
      have hconsistent : AreConsistent l.entries :=
        (fault?_eq_none_iff_areConsistent fun e he =>
          collapsed_of_mem (hmem.mp (hsame ▸ he))).mp l.consistent
      refine ⟨hconsistent.mono fun e he => ?_, hsame⟩
      rw [hsame]
      exact hmem.mpr he
  · rintro ⟨hconsistent, hentries⟩
    have hmem {e : Entry} := mem_append_newTo (e := e) hconsistent.single
    have hmerged := hextend.mpr ⟨hconsistent.single, rfl⟩
    rw [hmerged, ← hentries]
    have hcollapsed : l.HasCollapsedEntries :=
      hasCollapsedEntries_of_collapsed fun e he => collapsed_of_mem (hmem.mp (hentries ▸ he))
    exact hcollapsed.ofEntries_eq

theorem exists_withExtra_iff (extra : List Entry) :
    (∃ l, withExtra extra = .ok l) ↔ AreConsistent (builtinEntries ++ extra.map collapsed) := by
  constructor
  · rintro ⟨l, h⟩
    exact (withExtra_eq_ok_iff.mp h).1
  · intro h
    have hmem {e : Entry} := mem_append_newTo (e := e) h.single
    have hmerged : AreConsistent (builtinEntries ++ newTo builtinEntries (extra.map collapsed)) :=
      h.mono fun e he => hmem.mp he
    have hfault := (fault?_eq_none_iff_areConsistent fun e he => collapsed_of_mem (hmem.mp he)).mpr hmerged
    exact ⟨⟨_, hfault⟩, withExtra_eq_ok_iff.mpr ⟨h, rfl⟩⟩

/-- An extension is accepted exactly if no text of all entries together is empty, no source of them has two
canonical forms, and no canonical form has the words of a source in a row; the order of the further entries is
of no account. What is accepted has the built-in entries and behind them the first entry of each new source,
each source once, and looks up every entry that was given. To give the entries twice changes nothing. -/
theorem withExtra_iff (extra : List Entry) :
    ((∃ l, withExtra extra = .ok l) ↔ AreConsistent (builtinEntries ++ extra.map collapsed)) ∧
    (∀ other, extra.Perm other →
      ((∃ l, withExtra other = .ok l) ↔ ∃ l, withExtra extra = .ok l)) ∧
    ∀ l, withExtra extra = .ok l →
      l.entries = builtinEntries ++ newTo builtinEntries (extra.map collapsed) ∧
      (l.entries.map source).Nodup ∧
      (∀ e ∈ builtinEntries ++ extra,
        l.lookup? e.source = some (collapseString e.canonical)) ∧
      withExtra (extra ++ extra) = .ok l := by
  refine ⟨exists_withExtra_iff extra, fun other hperm => ?_, fun l h => ?_⟩
  · have hmap := (hperm.map collapsed).append_left builtinEntries
    rw [exists_withExtra_iff, exists_withExtra_iff]
    exact ⟨fun h => h.mono hmap.subset, fun h => h.mono hmap.symm.subset⟩
  · obtain ⟨hconsistent, hentries⟩ := withExtra_eq_ok_iff.mp h
    refine ⟨hentries, hentries ▸ nodup_append_newTo nodup_builtin _, fun e he => ?_, ?_⟩
    · refine lookup?_iff.mpr ⟨e.collapsed, ?_, rfl, rfl⟩
      rw [hentries, mem_append_newTo hconsistent.single]
      rcases List.mem_append.mp he with he | he
      · have hsame : e.collapsed = e := hasCollapsedEntries_builtin.collapsed_eq he
        rw [hsame]
        exact List.mem_append_left _ he
      · exact List.mem_append_right _ (List.mem_map_of_mem he)
    · refine withExtra_eq_ok_iff.mpr ⟨hconsistent.mono ?_, ?_⟩
      · simp
      · rw [hentries, List.map_append, newTo_append_self]

/-- A new source in two spellings, around a source of the built-in table. -/
def gaariEntries : List Entry :=
  [⟨"Gaari", "robot"⟩, ⟨"AAGE", "forward"⟩, ⟨" gaari", "Robot"⟩]

theorem collapsed_gaariEntries :
    gaariEntries.map collapsed = [⟨"gaari", "robot"⟩, ⟨"aage", "forward"⟩, ⟨"gaari", "robot"⟩] := by
  decide

theorem areConsistent_gaari : AreConsistent (builtinEntries ++ gaariEntries.map collapsed) := by
  have hcanonicals : ∀ c ∈ builtinCanonicals, containsPhrase c.toList "gaari".toList = false := by
    decide
  have hsources : ∀ e ∈ builtinEntries, e.source ≠ "gaari" ∧
      containsPhrase "robot".toList e.source.toList = false := by
    decide
  have hone : AreConsistent (builtinEntries ++ [⟨"gaari", "robot"⟩]) :=
    areConsistent_builtin.concat (fun _ he => hasCollapsedEntries_builtin.collapsed_eq he) (by decide)
      (by decide) (fun e he => (hsources e he).1) (by decide) fun e he =>
        ⟨hcanonicals _ (canonical_mem_builtinCanonicals e he), (hsources e he).2⟩
  refine hone.mono fun e he => ?_
  rw [collapsed_gaariEntries] at he
  have haage : (⟨"aage", "forward"⟩ : Entry) ∈ builtinEntries := by decide
  rcases List.mem_append.mp he with he | he
  · exact List.mem_append_left _ he
  · simp only [List.mem_cons, List.not_mem_nil, or_false] at he
    rcases he with rfl | rfl | rfl
    · exact List.mem_append_right _ (List.mem_singleton_self _)
    · exact List.mem_append_left _ haage
    · exact List.mem_append_right _ (List.mem_singleton_self _)

theorem withExtra_iff_gaari : AreConsistent (builtinEntries ++ gaariEntries.map collapsed) ∧
    gaariEntries.Perm gaariEntries.reverse ∧ ∃ l, withExtra gaariEntries = .ok l ∧
      (∃ l', withExtra gaariEntries.reverse = .ok l') ∧
      l.entries = builtinEntries ++ [⟨"gaari", "robot"⟩] ∧ l.lookup? "Gaari" = some "robot" ∧
      withExtra (gaariEntries ++ gaariEntries) = .ok l := by
  obtain ⟨hiff, horder, haccepted⟩ := withExtra_iff gaariEntries
  have hperm : gaariEntries.Perm gaariEntries.reverse := (List.reverse_perm _).symm
  obtain ⟨l, h⟩ := hiff.mpr areConsistent_gaari
  obtain ⟨hentries, -, hlookup, htwice⟩ := haccepted l h
  have hadded : newTo builtinEntries (gaariEntries.map collapsed) = [⟨"gaari", "robot"⟩] := by
    rw [collapsed_gaariEntries]
    decide
  have hrobot : collapseString "robot" = "robot" := by decide
  have hgaari := hlookup ⟨"Gaari", "robot"⟩ (List.mem_append_right _ List.mem_cons_self)
  refine ⟨areConsistent_gaari, hperm, l, h, (horder _ hperm).mpr ⟨l, h⟩, ?_, ?_, htwice⟩
  · rw [hentries, hadded]
  · rw [hgaari, hrobot]

end Lexicon

end Teleop
