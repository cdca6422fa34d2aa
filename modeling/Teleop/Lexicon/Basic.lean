import Teleop.Lexicon.Builtin

/-!
# Lexicons

A lexicon is a consistent list of entries. It is made from a list of entries, which are collapsed
first, or by extending the built-in table. An extension may repeat an entry it agrees with, and the
repetition is dropped.
-/

namespace Teleop

open Text

structure Lexicon where
  entries : List Entry
  consistent : Entry.fault? entries = none

namespace Lexicon

def builtin : Lexicon where
  entries := builtinEntries
  consistent := fault?_builtinEntries

/-- The lexicon of some entries, or the first fault of their collapsed forms. -/
def ofEntries (entries : List Entry) : Except LexiconFault Lexicon :=
  let entries := entries.map Entry.collapsed
  match h : Entry.fault? entries with
  | none => .ok ⟨entries, h⟩
  | some fault => .error fault

/-- A list of collapsed entries followed by the further entries whose source it does not have yet. A
known source with another canonical form is a fault. -/
def extend (entries : List Entry) : List Entry → Except LexiconFault (List Entry)
  | [] => .ok entries
  | raw :: rest =>
    let e := raw.collapsed
    match entries.find? (·.source = e.source) with
    | some known =>
      if known.canonical = e.canonical then extend entries rest
      else .error (.duplicateSource e.source)
    | none => extend (entries ++ [e]) rest

/-- The built-in lexicon extended by further entries. -/
def withExtra (extra : List Entry) : Except LexiconFault Lexicon := do
  ofEntries (← extend builtin.entries extra)

/-- The canonical form of a source, which is collapsed first. -/
def lookup? (l : Lexicon) (source : String) : Option String :=
  (l.entries.find? (·.source = collapseString source)).map (·.canonical)

/-- Puts a source before the first one that is no longer than it is. -/
def insertByLength (source : List Char) : List (List Char) → List (List Char)
  | [] => [source]
  | other :: rest =>
    if source.length < other.length then other :: insertByLength source rest
    else source :: other :: rest

/-- The sources of a lexicon, the longest first, sources of one length in table order. -/
def sourcesByLength (l : Lexicon) : List (List Char) :=
  (l.entries.map (·.source.toList)).foldr insertByLength []

end Lexicon

end Teleop
