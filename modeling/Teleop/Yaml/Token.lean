import Teleop.Yaml.Block
import Teleop.Yaml.Property

/-!
# YAML tokens

The tokens make the structure that indentation expresses explicit: where a block collection begins and
ends. A scalar turns out to be a key only when the colon behind it is met, so the place where its key
token belongs is remembered until then. Such a key must be on one line, and not too long.
Each step takes a character at least, so the length of the text bounds their number.
-/

namespace Teleop.Yaml

inductive Token where
  | documentStart
  | documentEnd
  | blockSequence
  | blockMapping
  | blockEnd
  | flowSequence
  | flowSequenceEnd
  | flowMapping
  | flowMappingEnd
  | blockEntry
  | flowEntry
  | key
  | value
  | anchor (name : List Char)
  | alias (name : List Char)
  | tag (handle : List Char)
  | directive (directive : Directive)
  | scalar (isPlain : Bool) (text : List Char)
deriving DecidableEq, Repr

/-- A place that may turn out to be the beginning of a key: the number of tokens before it, the line
and column, and whether it must be one. -/
structure KeyPlace where
  tokens : Nat
  line : Nat
  column : Nat
  isRequired : Bool

/-- The state of scanning. `indents` are the columns of the open block collections, the innermost
first; `keys` has an entry for each open bracket, the innermost first, and one for the text outside. -/
structure Scanner where
  here : Cursor
  tokens : List Token
  indents : List Nat
  keyAllowed : Bool
  keys : List (Option KeyPlace)

namespace Scanner

def start (text : List Char) : Scanner :=
  ⟨⟨0, 0, text⟩, [], [], true, [none]⟩

def inFlow (s : Scanner) : Bool :=
  1 < s.keys.length

def emit (s : Scanner) (t : Token) : Scanner :=
  { s with tokens := s.tokens ++ [t] }

def moveTo (s : Scanner) (here : Cursor) : Scanner :=
  { s with here }

/-- Closes the block collections that are indented more than a column. -/
def unroll (column : Option Nat) (s : Scanner) : Scanner :=
  if s.inFlow then s
  else
    let closed := s.indents.takeWhile fun indent => column.all (· < indent)
    { s with
      tokens := s.tokens ++ closed.map fun _ => .blockEnd
      indents := s.indents.drop closed.length }

/-- Opens a block collection at a column, if it is indented more than the innermost open one. Its
token goes before the tokens from `position` on. -/
def roll (column position : Nat) (t : Token) (s : Scanner) : Scanner :=
  if s.inFlow || s.indents.head?.any (column ≤ ·) then s
  else
    { s with
      tokens := s.tokens.insertIdx position t
      indents := column :: s.indents }

/-- The key that the innermost bracket may have begun. -/
def key? (s : Scanner) : Option KeyPlace :=
  s.keys.head?.join

/-- Gives up the possible key; it is an error if it had to be one. -/
def dropKey? (s : Scanner) : Option Scanner :=
  if s.key?.any (·.isRequired) then none
  else some { s with keys := none :: s.keys.drop 1 }

/-- Remembers the place as the possible beginning of a key. -/
def saveKey? (s : Scanner) : Option Scanner :=
  if s.keyAllowed then do
    let place : KeyPlace :=
      { tokens := s.tokens.length, line := s.here.line, column := s.here.column
        isRequired := !s.inFlow && s.indents.head? = some s.here.column }
    let s ← s.dropKey?
    return { s with keys := some place :: s.keys.drop 1 }
  else some s

/-- The largest number of characters of a key. -/
def keyWidth : Nat := 1024

/-- Gives up a possible key that began on an earlier line or too far to the left. -/
def dropStaleKeys? (s : Scanner) : Option Scanner := do
  let keys ← s.keys.mapM fun key =>
    match key with
    | none => some none
    | some place =>
      if place.line < s.here.line || place.column + keyWidth < s.here.column then
        if place.isRequired then none else some none
      else some (some place)
  return { s with keys }

/-- Skips blanks, comments and line ends before a token. Behind a line end outside brackets a key may
begin. A tab may not stand where a key may begin. -/
def skipGaps : Nat → Scanner → Scanner
  | 0, s => s
  | fuel + 1, s =>
    match s.here.rest with
    | [] => s
    | c :: _ =>
      if c = ' ' || (c = '\t' && (s.inFlow || !s.keyAllowed)) then
        skipGaps fuel (s.moveTo (s.here.skip 1))
      else if c = '#' then
        skipGaps fuel (s.moveTo (s.here.skip (s.here.rest.takeWhile (!isBreak ·)).length))
      else if isBreak c then
        skipGaps fuel { s with here := s.here.nextLine, keyAllowed := s.keyAllowed || !s.inFlow }
      else s

def takeDocumentMark? (t : Token) (s : Scanner) : Option Scanner := do
  let s ← (s.unroll none).dropKey?
  return ({ s with keyAllowed := false }.moveTo (s.here.skip 3)).emit t

def takeOpening? (t : Token) (s : Scanner) : Option Scanner := do
  let s ← s.saveKey?
  return ({ s with keys := none :: s.keys, keyAllowed := true }.moveTo (s.here.skip 1)).emit t

def takeClosing? (t : Token) (s : Scanner) : Option Scanner := do
  let s ← s.dropKey?
  let keys := if s.inFlow then s.keys.drop 1 else s.keys
  return ({ s with keys, keyAllowed := false }.moveTo (s.here.skip 1)).emit t

def takeComma? (s : Scanner) : Option Scanner := do
  let s ← s.dropKey?
  return ({ s with keyAllowed := true }.moveTo (s.here.skip 1)).emit .flowEntry

def takeDash? (s : Scanner) : Option Scanner := do
  guard (s.inFlow || s.keyAllowed)
  let s ← (s.roll s.here.column s.tokens.length .blockSequence).dropKey?
  return ({ s with keyAllowed := true }.moveTo (s.here.skip 1)).emit .blockEntry

def takeKeyMark? (s : Scanner) : Option Scanner := do
  guard (s.inFlow || s.keyAllowed)
  let s ← (s.roll s.here.column s.tokens.length .blockMapping).dropKey?
  return ({ s with keyAllowed := !s.inFlow }.moveTo (s.here.skip 1)).emit .key

def takeColon? (s : Scanner) : Option Scanner := do
  match s.key? with
  | some place =>
    let s := { s with tokens := s.tokens.insertIdx place.tokens .key }
    let s := s.roll place.column place.tokens .blockMapping
    return ({ s with keys := none :: s.keys.drop 1, keyAllowed := false }.moveTo
      (s.here.skip 1)).emit .value
  | none =>
    guard (s.inFlow || s.keyAllowed)
    let s := s.roll s.here.column s.tokens.length .blockMapping
    return ({ s with keyAllowed := !s.inFlow }.moveTo (s.here.skip 1)).emit .value

def takeQuoted? (quote : Char) (s : Scanner) : Option Scanner := do
  let s ← s.saveKey?
  let (text, here) ← Yaml.takeQuoted? quote (s.here.rest.length + 1) (s.here.skip 1) [] .empty
  return ({ s with keyAllowed := false }.moveTo here).emit (.scalar false text)

def takePlain? (s : Scanner) : Option Scanner := do
  let s ← s.saveKey?
  let indent := s.indents.head?.elim 0 (· + 1)
  let (text, here, brokeLine) ←
    Yaml.takePlain? s.inFlow indent (s.here.rest.length + 1) s.here [] .empty
  return ({ s with keyAllowed := brokeLine }.moveTo here).emit (.scalar true text)

def takeBlock? (isFolded : Bool) (s : Scanner) : Option Scanner := do
  let s ← s.dropKey?
  let (text, here) ← Yaml.takeBlock? isFolded s.indents.head? (s.here.skip 1)
  return ({ s with keyAllowed := true }.moveTo here).emit (.scalar false text)

def takeName? (t : List Char → Token) (s : Scanner) : Option Scanner := do
  let s ← s.saveKey?
  let (name, here) ← Yaml.takeName? (s.here.skip 1)
  return ({ s with keyAllowed := false }.moveTo here).emit (t name)

/-- Takes a tag, behind which a blank must follow, or a comma inside brackets. -/
def takeTag? (s : Scanner) : Option Scanner := do
  let s ← s.saveKey?
  let (handle, here) ← Yaml.takeTag? s.here
  guard (isGapOrEnd here.rest.head? || (s.inFlow && here.rest.head? = some ','))
  return ({ s with keyAllowed := false }.moveTo here).emit (.tag handle)

def takeDirective? (s : Scanner) : Option Scanner := do
  let s ← (s.unroll none).dropKey?
  let line := (s.here.rest.drop 1).takeWhile (!isBreak ·)
  let d ← directive? line
  return ({ s with keyAllowed := false }.moveTo (s.here.skip (line.length + 1))).emit (.directive d)

/-- The characters that cannot begin a scalar without quotes. -/
def indicators : List Char :=
  "-?:,[]\x7b\x7d#&*!|>'\"%@`".toList

/-- Takes the token at a place that is not blank. -/
def takeToken? (s : Scanner) : Option Scanner :=
  match s.here.rest with
  | [] => none
  | c :: rest =>
    let isAlone := isGapOrEnd rest.head?
    if s.here.column = 0 && c = '%' then s.takeDirective?
    else if isDocumentMark "---" s.here then s.takeDocumentMark? .documentStart
    else if isDocumentMark "..." s.here then s.takeDocumentMark? .documentEnd
    else if c = '[' then s.takeOpening? .flowSequence
    else if c = '\x7b' then s.takeOpening? .flowMapping
    else if c = ']' then s.takeClosing? .flowSequenceEnd
    else if c = '\x7d' then s.takeClosing? .flowMappingEnd
    else if c = ',' then s.takeComma?
    else if c = '-' && isAlone then s.takeDash?
    else if c = '?' && (s.inFlow || isAlone) then s.takeKeyMark?
    else if c = ':' && (s.inFlow || isAlone) then s.takeColon?
    else if c = '&' then s.takeName? .anchor
    else if c = '*' then s.takeName? .alias
    else if c = '!' then s.takeTag?
    else if (c = '|' || c = '>') && !s.inFlow then s.takeBlock? (c = '>')
    else if c = '\'' || c = '"' then s.takeQuoted? c
    else if (!isSpace c && !indicators.contains c) || (c = '-' && !rest.head?.any isSpace) ||
        (!s.inFlow && (c = '?' || c = ':') && !isAlone) then
      s.takePlain?
    else none

def takeAll? : Nat → Scanner → Option Scanner
  | 0, _ => none
  | fuel + 1, s => do
    let s ← (s.skipGaps (s.here.rest.length + 1)).dropStaleKeys?
    let s := s.unroll (some s.here.column)
    if s.here.rest.isEmpty then (s.unroll none).dropKey?
    else takeAll? fuel (← s.takeToken?)

end Scanner

def tokens? (text : List Char) : Option (List Token) :=
  ((Scanner.start text).takeAll? (text.length + 1)).map (·.tokens)

end Teleop.Yaml
