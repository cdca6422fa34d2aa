import Teleop.Json.Quoted

/-!
# YAML scalars

A scalar stands without quotes or in single or double quotes. It may run over several lines: the line
end inside it becomes a space, and each further one a line feed. Without quotes a scalar ends at a
comment, at a colon before a blank, and where the text is no longer indented enough; inside brackets
it also ends at a comma or bracket.
-/

namespace Teleop.Yaml

structure Cursor where
  line : Nat
  column : Nat
  rest : List Char

/-- Whether a character is a blank inside a line. -/
def isSpace (c : Char) : Bool :=
  c = ' ' || c = '\t'

def isBreak (c : Char) : Bool :=
  c = '\n' || c = '\r' || c = '\u0085' || c = '\u2028' || c = '\u2029'

/-- Whether a blank, a line end or the end of the text follows. -/
def isGapOrEnd (c : Option Char) : Bool :=
  c.all fun c => isSpace c || isBreak c

/-- Whether a mark between documents stands at a place, which must be the beginning of a line. -/
def isDocumentMark (mark : String) (here : Cursor) : Bool :=
  here.column = 0 && mark.toList.isPrefixOf here.rest && isGapOrEnd here.rest[3]?

def isAnyDocumentMark (here : Cursor) : Bool :=
  isDocumentMark "---" here || isDocumentMark "..." here

namespace Cursor

/-- The place behind some characters of the same line. -/
def skip (c : Cursor) (n : Nat) : Cursor :=
  { c with column := c.column + n, rest := c.rest.drop n }

def nextLine (c : Cursor) : Cursor :=
  match c.rest with
  | '\r' :: '\n' :: rest => ⟨c.line + 1, 0, rest⟩
  | _ => ⟨c.line + 1, 0, c.rest.drop 1⟩

/-- The place behind the first character, which may be a line end. -/
def step (c : Cursor) : Cursor :=
  if c.rest.head?.any isBreak then c.nextLine else c.skip 1

end Cursor

/-- What a line end counts as: a line or paragraph separator as itself, any other as a line feed. -/
def breakChar (c : Char) : Char :=
  if c = '\u2028' || c = '\u2029' then c else '\n'

/-- The blanks read since the last visible character: those of its line, and the line ends behind
them. -/
structure Gap where
  blanks : List Char
  breaks : Option (List Char × List Char)

namespace Gap

def empty : Gap :=
  ⟨[], none⟩

/-- The gap of a line end that is dropped. -/
def escapedBreak : Gap :=
  ⟨[], some ([], [])⟩

/-- The gap with one more character. Blanks count in the first line only. -/
def push (g : Gap) (c : Char) : Gap :=
  match g.breaks with
  | none =>
    if isBreak c then { g with breaks := some ([breakChar c], []) }
    else { g with blanks := g.blanks ++ [c] }
  | some (first, others) =>
    if isBreak c then { g with breaks := some (first, others ++ [breakChar c]) } else g

def isEmpty (g : Gap) : Bool :=
  g.blanks.isEmpty && g.breaks.isNone

def brokeLine (g : Gap) : Bool :=
  g.breaks.isSome

/-- What a gap amounts to inside a scalar. -/
def folded (g : Gap) : List Char :=
  match g.breaks with
  | none => g.blanks
  | some (['\n'], []) => [' ']
  | some (['\n'], others) => others
  | some (first, others) => first ++ others

end Gap

/-- Whether a character is a bracket or comma that ends a scalar inside brackets. -/
def endsInFlow (c : Char) : Bool :=
  c = ',' || c = '[' || c = ']' || c = '\x7b' || c = '\x7d'

/-- Reads a scalar without quotes. The result is its text, the place behind it and the blanks that
follow it, and whether a line end was among these; or there is none if the text is refused. -/
def takePlain? (inFlow : Bool) (indent : Nat) : Nat → Cursor → List Char → Gap →
    Option (List Char × Cursor × Bool)
  | 0, _, _, _ => none
  | fuel + 1, here, text, gap =>
    match here.rest with
    | [] => some (text, here, gap.brokeLine)
    | c :: rest =>
      if isSpace c || isBreak c then
        if c = '\t' && gap.brokeLine && here.column < indent then none
        else takePlain? inFlow indent fuel here.step text (gap.push c)
      else
        let next := rest.head?
        let isOver := !gap.isEmpty &&
          ((!inFlow && here.column < indent) || isAnyDocumentMark here || c = '#')
        if isOver then some (text, here, gap.brokeLine)
        else if inFlow && c = ':' && next.any fun n => endsInFlow n || n = '?' then none
        else if (c = ':' && isGapOrEnd next) || (inFlow && endsInFlow c) then
          some (text, here, gap.brokeLine)
        else takePlain? inFlow indent fuel (here.skip 1) (text ++ gap.folded ++ [c]) .empty

/-- The single-letter escapes in double quotes, with what they stand for. -/
def letterEscapes : List (Char × Char) :=
  [('0', '\x00'), ('a', '\x07'), ('b', '\x08'), ('t', '\t'), ('\t', '\t'), ('n', '\n'),
   ('v', '\x0b'), ('f', '\x0c'), ('r', '\r'), ('e', '\x1b'), (' ', ' '), ('"', '"'), ('/', '/'),
   ('\\', '\\'), ('N', '\u0085'), ('_', '\u00a0'), ('L', '\u2028'), ('P', '\u2029')]

/-- The number of hexadecimal digits behind the letter of a numeric escape. -/
def escapeWidth? (letter : Char) : Option Nat :=
  [('x', 2), ('u', 4), ('U', 8)].lookup letter

def hexChar? (digits : List Char) : Option Char := do
  let values ← digits.mapM Json.hexValue?
  let n := values.foldl (fun n d => 16 * n + d) 0
  if n.isValidChar then some (Char.ofNat n) else none

/-- Reads a scalar up to its closing quote, which is doubled to stand for itself in single quotes.
Escapes count in double quotes only; an escaped line end is dropped with the blanks behind it. -/
def takeQuoted? (quote : Char) : Nat → Cursor → List Char → Gap → Option (List Char × Cursor)
  | 0, _, _, _ => none
  | fuel + 1, here, text, gap =>
    match here.rest with
    | [] => none
    | c :: rest =>
      if isAnyDocumentMark here then none
      else if isSpace c || isBreak c then takeQuoted? quote fuel here.step text (gap.push c)
      else
        let text := text ++ gap.folded
        if c = quote then
          if quote = '\'' && rest.head? = some '\'' then
            takeQuoted? quote fuel (here.skip 2) (text ++ [quote]) .empty
          else some (text, here.skip 1)
        else if c = '\\' && quote = '"' then
          match rest with
          | [] => none
          | letter :: digits =>
            if isBreak letter then
              takeQuoted? quote fuel (here.skip 1).nextLine text .escapedBreak
            else match letterEscapes.lookup letter, escapeWidth? letter with
              | some stands, _ => takeQuoted? quote fuel (here.skip 2) (text ++ [stands]) .empty
              | none, some width => do
                guard (width ≤ digits.length)
                let stands ← hexChar? (digits.take width)
                takeQuoted? quote fuel (here.skip (2 + width)) (text ++ [stands]) .empty
              | none, none => none
        else takeQuoted? quote fuel (here.skip 1) (text ++ [c]) .empty

end Teleop.Yaml
