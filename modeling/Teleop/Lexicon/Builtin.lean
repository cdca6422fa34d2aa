import Teleop.Lexicon.Entry

/-!
# The built-in table

Romanized and Urdu-script source patterns with their English canonical words, in table order. The
table is consistent: no canonical form contains a source.
-/

namespace Teleop.Lexicon

def directionEntries : List Entry :=
  [⟨"aage", "forward"⟩, ⟨"aagay", "forward"⟩, ⟨"agay", "forward"⟩, ⟨"seedha", "forward"⟩,
   ⟨"sidha", "forward"⟩, ⟨"آگے", "forward"⟩, ⟨"سیدھا", "forward"⟩, ⟨"peeche", "backward"⟩,
   ⟨"peechay", "backward"⟩, ⟨"pichay", "backward"⟩, ⟨"پیچھے", "backward"⟩, ⟨"baen", "left"⟩,
   ⟨"bayen", "left"⟩, ⟨"baayen", "left"⟩, ⟨"بائیں", "left"⟩, ⟨"daen", "right"⟩,
   ⟨"dayen", "right"⟩, ⟨"daayen", "right"⟩, ⟨"دائیں", "right"⟩]

def verbEntries : List Entry :=
  [⟨"chalo", "move"⟩, ⟨"chalen", "move"⟩, ⟨"chalein", "move"⟩, ⟨"چلو", "move"⟩, ⟨"jao", "go"⟩,
   ⟨"جاؤ", "go"⟩, ⟨"muro", "turn"⟩, ⟨"mudo", "turn"⟩, ⟨"mur jao", "turn"⟩, ⟨"مڑو", "turn"⟩,
   ⟨"ghumao", "rotate"⟩, ⟨"ghoomo", "rotate"⟩, ⟨"ghumo", "rotate"⟩, ⟨"ghoom jao", "rotate"⟩,
   ⟨"گھماؤ", "rotate"⟩, ⟨"گھومو", "rotate"⟩, ⟨"ruko", "stop"⟩, ⟨"roko", "stop"⟩,
   ⟨"ruk jao", "stop"⟩, ⟨"band karo", "stop"⟩, ⟨"thehro", "stop"⟩, ⟨"رکو", "stop"⟩,
   ⟨"روکو", "stop"⟩, ⟨"ٹھہرو", "stop"⟩, ⟨"hangami rukawat", "emergency stop"⟩,
   ⟨"hangami", "emergency"⟩, ⟨"ہنگامی", "emergency"⟩]

/-- Cues of speed, devices, waiting and manner. -/
def cueEntries : List Entry :=
  [⟨"raftaar", "speed"⟩, ⟨"raftar", "speed"⟩, ⟨"رفتار", "speed"⟩, ⟨"tasveer", "photo"⟩,
   ⟨"tasweer", "photo"⟩, ⟨"تصویر", "photo"⟩, ⟨"qareeb karo", "zoom"⟩, ⟨"roshni", "lights"⟩,
   ⟨"batti", "lights"⟩, ⟨"battiyan", "lights"⟩, ⟨"روشنی", "lights"⟩, ⟨"بتی", "lights"⟩,
   ⟨"chirkao", "spray"⟩, ⟨"چھڑکاؤ", "spray"⟩, ⟨"jhatka", "taser"⟩, ⟨"intezar", "wait"⟩,
   ⟨"intezaar", "wait"⟩, ⟨"انتظار", "wait"⟩, ⟨"thoda", "little"⟩, ⟨"thora", "little"⟩,
   ⟨"تھوڑا", "little"⟩, ⟨"tez", "sharp"⟩, ⟨"تیز", "sharp"⟩, ⟨"ke liye", "for"⟩, ⟨"کے لیے", "for"⟩]

/-- Words that join clauses. -/
def connectorEntries : List Entry :=
  [⟨"phir", "then"⟩, ⟨"پھر", "then"⟩, ⟨"aur", "and"⟩, ⟨"اور", "and"⟩, ⟨"uske baad", "then"⟩,
   ⟨"us ke baad", "then"⟩, ⟨"اس کے بعد", "then"⟩]

def repetitionEntries : List Entry :=
  [⟨"dobara", "again"⟩, ⟨"phir se", "again"⟩, ⟨"دوبارہ", "again"⟩, ⟨"پھر سے", "again"⟩]

def builtinEntries : List Entry :=
  directionEntries ++ verbEntries ++ cueEntries ++ connectorEntries ++ repetitionEntries

def builtinCanonicals : List String :=
  ["forward", "backward", "left", "right", "move", "go", "turn", "rotate", "stop",
   "emergency stop", "emergency", "speed", "photo", "zoom", "lights", "spray", "taser", "wait",
   "little", "sharp", "for", "then", "and", "again"]

theorem canonical_mem_builtinCanonicals :
    ∀ e ∈ builtinEntries, e.canonical ∈ builtinCanonicals := by
  decide +kernel

theorem fault?_builtinEntries : Entry.fault? builtinEntries = none := by
  have hclash : Entry.clash? [] builtinEntries = none := by decide +kernel
  have hoverlap : Entry.overlap? builtinEntries = none :=
    Entry.overlap?_eq_none canonical_mem_builtinCanonicals (by decide +kernel)
  simp [Entry.fault?, hclash, hoverlap]

end Teleop.Lexicon
