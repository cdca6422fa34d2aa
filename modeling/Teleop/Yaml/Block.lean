import Teleop.Numeric.Decimal
import Teleop.Yaml.Scalar

/-!
# Block scalars

A block scalar is introduced by a header and has the lines below it that are indented enough. In the
literal style it keeps their line ends. In the folded style the line end between two lines that begin
with visible characters becomes a space, or is dropped before empty lines. The header may give the
indentation, which is that of the first line otherwise, and tell which line ends stay behind the last
line: one, none or all.
-/

namespace Teleop.Yaml

/-- Which line ends stay behind the last line of a block scalar. -/
inductive Chomping where
  | clip
  | strip
  | keep
deriving DecidableEq, Repr

namespace Chomping

def ofIndicator? : Char → Option Chomping
  | '+' => some keep
  | '-' => some strip
  | _ => none

end Chomping

/-- The header of a block scalar: the chomping, and the indentation beyond that of the collection around
it, where it is given. -/
structure BlockHeader where
  chomping : Chomping
  indentation : Option Nat
deriving DecidableEq, Repr

namespace BlockHeader

def indentation? (c : Char) : Option Nat :=
  if Numeric.isAsciiDigit c && c ≠ '0' then some (Numeric.digitValue c) else none

/-- The header of its indicators, which may stand in either order. -/
def ofIndicators? : List Char → Option BlockHeader
  | [] => some ⟨.clip, none⟩
  | [c] =>
    match Chomping.ofIndicator? c with
    | some chomping => some ⟨chomping, none⟩
    | none => (indentation? c).map (⟨.clip, some ·⟩)
  | [c, d] =>
    match Chomping.ofIndicator? c with
    | some chomping => (indentation? d).map (⟨chomping, some ·⟩)
    | none => do return ⟨← Chomping.ofIndicator? d, some (← indentation? c)⟩
  | _ => none

end BlockHeader

/-- Reads the header behind its style indicator, with a comment if there is one, up to the end of the
line. -/
def takeBlockHeader? (here : Cursor) : Option (BlockHeader × Cursor) := do
  let indicators := here.rest.takeWhile fun c => c = '+' || c = '-' || Numeric.isAsciiDigit c
  let header ← BlockHeader.ofIndicators? indicators
  let blanks := (here.rest.drop indicators.length).takeWhile isSpace
  let here := here.skip (indicators.length + blanks.length)
  let here :=
    if here.rest.head? = some '#' then here.skip (here.rest.takeWhile (!isBreak ·)).length else here
  match here.rest with
  | [] => return (header, here)
  | c :: _ => if isBreak c then return (header, here.nextLine) else none

/-- Skips empty lines and the indentation of the line behind them. The result has the line ends, the
place, and the largest column that was reached. Where the indentation is not known yet, all spaces count
as indentation. A tab may not stand in it. -/
def skipIndentation? (indent : Option Nat) : Nat → Cursor → List Char → Nat →
    Option (List Char × Cursor × Nat)
  | 0, _, _, _ => none
  | fuel + 1, here, breaks, deepest =>
    let isShallow := indent.all fun indent => decide (here.column < indent)
    match here.rest with
    | [] => some (breaks, here, max deepest here.column)
    | c :: _ =>
      if isShallow && c = ' ' then skipIndentation? indent fuel (here.skip 1) breaks deepest
      else if isShallow && c = '\t' then none
      else
        let deepest := max deepest here.column
        if isBreak c then
          skipIndentation? indent fuel here.nextLine (breaks ++ [breakChar c]) deepest
        else some (breaks, here, deepest)

/-- A block scalar as far as it is read: its text, the line end behind its last line, the line ends of
the empty lines behind that, and whether its last line begins with a blank. -/
structure BlockText where
  text : List Char
  lastBreak : List Char
  emptyLines : List Char
  beginsBlank : Bool

namespace BlockText

def addLine (b : BlockText) (isFolded : Bool) (line : List Char) : List Char :=
  let beginsBlank := line.head?.any isSpace
  let join :=
    if isFolded && b.lastBreak = ['\n'] && !b.beginsBlank && !beginsBlank then
      if b.emptyLines.isEmpty then [' '] else []
    else b.lastBreak
  b.text ++ join ++ b.emptyLines ++ line

/-- The text with the line ends behind its last line that stay. -/
def chomped (b : BlockText) : Chomping → List Char
  | .strip => b.text
  | .clip => b.text ++ b.lastBreak
  | .keep => b.text ++ b.lastBreak ++ b.emptyLines

end BlockText

/-- Reads the lines of a block scalar that are indented by `indent`. -/
def takeBlockLines? (isFolded : Bool) (indent : Nat) : Nat → Cursor → BlockText →
    Option (BlockText × Cursor)
  | 0, _, _ => none
  | fuel + 1, here, b =>
    if here.column ≠ indent || here.rest.isEmpty then some (b, here)
    else do
      let line := here.rest.takeWhile (!isBreak ·)
      let behind := here.skip line.length
      let lastBreak := (behind.rest.take 1).map breakChar
      let here := if behind.rest.isEmpty then behind else behind.nextLine
      let (emptyLines, here, _) ←
        skipIndentation? (some indent) (here.rest.length + 1) here [] 0
      takeBlockLines? isFolded indent fuel here
        ⟨b.addLine isFolded line, lastBreak, emptyLines, line.head?.any isSpace⟩

/-- Reads a block scalar behind its style indicator. `outer` is the column of the collection around
it. -/
def takeBlock? (isFolded : Bool) (outer : Option Nat) (here : Cursor) :
    Option (List Char × Cursor) := do
  let (header, here) ← takeBlockHeader? here
  let given := header.indentation.map (outer.getD 0 + ·)
  let (emptyLines, here, deepest) ← skipIndentation? given (here.rest.length + 1) here [] 0
  let indent := given.getD (max deepest (outer.elim 1 (· + 1)))
  let (b, here) ←
    takeBlockLines? isFolded indent (here.rest.length + 1) here ⟨[], [], emptyLines, false⟩
  return (b.chomped header.chomping, here)

end Teleop.Yaml
