import Teleop.Text.Strings

/-!
# Lexicon entries and what makes them consistent

An entry names a source pattern and the canonical words it stands for. A list of entries is consistent
when no text in it is empty, no source has two canonical forms, and no canonical form contains a
source as a phrase. The first fault found is reported: empty texts and clashing sources in the order
of the entries, overlaps after them.
-/

namespace Teleop

open Text

structure Entry where
  source : String
  canonical : String
deriving DecidableEq, Repr, Inhabited

namespace Entry

def collapsed (e : Entry) : Entry :=
  ⟨collapseString e.source, collapseString e.canonical⟩

/-- Whether the canonical form of one entry contains the source of another as a phrase. -/
def overlaps (e other : Entry) : Bool :=
  containsPhrase e.canonical.toList other.source.toList

/-- Whether two entries give different canonical forms to one source. -/
def clashes (e other : Entry) : Bool :=
  e.source = other.source && e.canonical ≠ other.canonical

/-- Whether one of the texts of an entry is empty. -/
def isBlank (e : Entry) : Bool :=
  e.source = "" || e.canonical = ""

end Entry

inductive LexiconFault where
  | emptyText
  | duplicateSource (source : String)
  | overlap (canonical source : String)
deriving DecidableEq, Repr

namespace LexiconFault

def message : LexiconFault → String
  | emptyText => "entry has an empty source pattern or canonical token"
  | duplicateSource source => "duplicate source pattern: " ++ source
  | overlap canonical source =>
    "canonical token '" ++ canonical ++ "' contains source pattern '" ++ source ++ "'"

end LexiconFault

namespace Entry

/-- The first entry that has an empty text or clashes with an entry before it, as a fault. -/
def clash? (seen : List Entry) : List Entry → Option LexiconFault
  | [] => none
  | e :: rest =>
    if e.isBlank then some .emptyText
    else if seen.any e.clashes then some (.duplicateSource e.source)
    else clash? (seen ++ [e]) rest

/-- The first overlap among some entries, as a fault. -/
def overlap? (entries : List Entry) : Option LexiconFault :=
  entries.findSome? fun e =>
    (entries.find? e.overlaps).map fun other => .overlap e.canonical other.source

theorem overlap?_eq_none {entries : List Entry} {canonicals : List String}
    (known : ∀ e ∈ entries, e.canonical ∈ canonicals)
    (disjoint : ∀ c ∈ canonicals, ∀ other ∈ entries,
      containsPhrase c.toList other.source.toList = false) :
    overlap? entries = none := by
  simp only [overlap?, List.findSome?_eq_none_iff, Option.map_eq_none_iff, List.find?_eq_none]
  intro e he other hother
  simp [overlaps, disjoint e.canonical (known e he) other hother]

def fault? (entries : List Entry) : Option LexiconFault :=
  clash? [] entries <|> overlap? entries

end Entry

end Teleop
