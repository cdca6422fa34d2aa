import Teleop.Yaml.Token

/-!
# YAML documents

A document is a tree of scalars, sequences and mappings. It is built from tokens: a node that is left
out is the empty scalar, and an alias is the node that the anchor of its name was put on before. A text
holds at most one document, and one without any token has none. Reading takes at most eight steps for a
token, so the number of tokens bounds them.
-/

namespace Teleop.Yaml

/-- A node of a document. A scalar is plain if it stands neither in quotes nor in a block style. -/
inductive Node where
  | scalar (isPlain : Bool) (text : List Char)
  | sequence (elements : List Node)
  | mapping (members : List (Node × Node))

structure Rest where
  tokens : List Token
  anchors : List (List Char × Node)
  handles : List (List Char)

/-- Reads something from the tokens, or refuses them. -/
abbrev Building := StateT Rest Option

namespace Building

/-- The next token, which is not taken. -/
def peek : Building (Option Token) :=
  return (← get).tokens.head?

def advance : Building Unit :=
  modify fun r => { r with tokens := r.tokens.drop 1 }

def takeIf (t : Token) : Building Bool := do
  if (← peek) = some t then
    advance
    return true
  else return false

end Building

namespace Node

open Building

def empty : Node :=
  .scalar true []

/-- The tokens before which a node may be left out in a block collection. -/
def blockItemEnds : List Token := [.blockEntry, .key, .value, .blockEnd]

/-- The tokens before which a node may be left out inside brackets. -/
def flowItemEnds : List Token := [.flowEntry, .value, .flowSequenceEnd, .flowMappingEnd]

structure Properties where
  anchor : Option (List Char)
  isTagged : Bool

/-- Takes the properties before a node. The handle of a tag must be declared. -/
def takeProperties : Nat → Properties → Building Properties
  | 0, p => return p
  | fuel + 1, p => do
    match ← peek with
    | some (.anchor name) =>
      if p.anchor.isSome then return p
      advance
      takeProperties fuel { p with anchor := some name }
    | some (.tag handle) =>
      if p.isTagged then return p
      guard (handle.isEmpty || (← get).handles.contains handle)
      advance
      takeProperties fuel { p with isTagged := true }
    | _ => return p

def remember (p : Properties) (node : Node) : Building Node := do
  match p.anchor with
  | none => return node
  | some name =>
    modify fun r => { r with anchors := (name, node) :: r.anchors }
    return node

mutual

/-- Reads a node. A sequence may stand without indentation of its own as the value of a key. -/
def take (inBlock isIndentless : Bool) : Nat → Building Node
  | 0 => failure
  | fuel + 1 => do
    match ← peek with
    | some (.alias name) =>
      advance
      (← get).anchors.lookup name
    | _ =>
      let p ← takeProperties 2 ⟨none, false⟩
      remember p (← takeContent inBlock isIndentless (p.anchor.isSome || p.isTagged) fuel)

/-- Reads a node behind its properties; where it has some, it may be left out. -/
def takeContent (inBlock isIndentless mayBeEmpty : Bool) : Nat → Building Node
  | 0 => failure
  | fuel + 1 => do
    match ← peek with
    | some (.scalar isPlain text) =>
      advance
      return .scalar isPlain text
    | some .flowSequence =>
      advance
      return .sequence (← takeFlowSequence true fuel)
    | some .flowMapping =>
      advance
      return .mapping (← takeFlowMapping true fuel)
    | some .blockSequence =>
      if inBlock then
        advance
        return .sequence (← takeBlockSequence fuel)
      else if mayBeEmpty then return empty
      else failure
    | some .blockMapping =>
      if inBlock then
        advance
        return .mapping (← takeBlockMapping fuel)
      else if mayBeEmpty then return empty
      else failure
    | some .blockEntry =>
      if isIndentless then return .sequence (← takeIndentless fuel)
      else if mayBeEmpty then return empty
      else failure
    | _ => if mayBeEmpty then return empty else failure

/-- Reads an item of a block collection, which may be left out. -/
def takeBlockItem (isIndentless : Bool) : Nat → Building Node
  | 0 => failure
  | fuel + 1 => do
    let next ← peek
    let isLeftOut := next.all blockItemEnds.contains
    if isLeftOut && !(isIndentless && next = some .blockEntry) then return empty
    else take true isIndentless fuel

/-- Reads an item inside brackets, which may be left out. -/
def takeFlowItem : Nat → Building Node
  | 0 => failure
  | fuel + 1 => do
    if (← peek).all flowItemEnds.contains then return empty else take false false fuel

/-- Reads the value behind a key inside brackets, if there is one. -/
def takeFlowValue : Nat → Building Node
  | 0 => failure
  | fuel + 1 => do
    if ← takeIf .value then takeFlowItem fuel else return empty

def takeBlockSequence : Nat → Building (List Node)
  | 0 => failure
  | fuel + 1 => do
    if ← takeIf .blockEnd then return []
    else
      guard (← takeIf .blockEntry)
      let element ← takeBlockItem false fuel
      return element :: (← takeBlockSequence fuel)

def takeIndentless : Nat → Building (List Node)
  | 0 => failure
  | fuel + 1 => do
    if ← takeIf .blockEntry then
      let element ← takeBlockItem false fuel
      return element :: (← takeIndentless fuel)
    else return []

def takeBlockMapping : Nat → Building (List (Node × Node))
  | 0 => failure
  | fuel + 1 => do
    if ← takeIf .blockEnd then return []
    else
      let name ← if ← takeIf .key then takeBlockItem true fuel else
        guard ((← peek) = some .value)
        pure empty
      let value ← if ← takeIf .value then takeBlockItem true fuel else pure empty
      return (name, value) :: (← takeBlockMapping fuel)

/-- Reads the elements of a sequence in brackets up to its end, with a comma before each but the first.
A key there is a mapping of one member. -/
def takeFlowSequence (isFirst : Bool) : Nat → Building (List Node)
  | 0 => failure
  | fuel + 1 => do
    if ← takeIf .flowSequenceEnd then return []
    else
      if !isFirst then guard (← takeIf .flowEntry)
      if ← takeIf .flowSequenceEnd then return []
      else
        let element ←
          if ← takeIf .key then
            let name ← takeFlowItem fuel
            pure (.mapping [(name, ← takeFlowValue fuel)])
          else take false false fuel
        return element :: (← takeFlowSequence false fuel)

/-- Reads the members of a mapping in braces up to its end, with a comma before each but the first. -/
def takeFlowMapping (isFirst : Bool) : Nat → Building (List (Node × Node))
  | 0 => failure
  | fuel + 1 => do
    if ← takeIf .flowMappingEnd then return []
    else
      if !isFirst then guard (← takeIf .flowEntry)
      if ← takeIf .flowMappingEnd then return []
      else
        let member ←
          if ← takeIf .key then
            let name ← takeFlowItem fuel
            pure (name, ← takeFlowValue fuel)
          else pure (← take false false fuel, empty)
        return member :: (← takeFlowMapping false fuel)

end

/-- The handles that need no declaration. -/
def knownHandles : List (List Char) := [['!'], ['!', '!']]

/-- Takes the directives before a document: the version at most once, and no handle twice. -/
def takeDirectives : List Directive → List Token → Option (List Directive × List Token)
  | given, .directive d :: rest => if given.contains d then none else takeDirectives (d :: given) rest
  | given, tokens => some (given, tokens)

/-- The document of some tokens, if there is one, or nothing if the tokens are refused. Behind the mark
that begins a document it may be left out. -/
def ofTokens? (tokens : List Token) : Option (Option Node) := do
  if tokens.isEmpty then return none
  let (directives, content) ← takeDirectives [] tokens
  let handles := directives.filterMap fun d =>
    match d with
    | .version => none
    | .handle name => some name
  let isMarked := content.head? = some .documentStart
  guard (isMarked || directives.isEmpty)
  let content := if isMarked then content.drop 1 else content
  let isLeftOut := isMarked && content.all (· = .documentEnd)
  let (node, rest) ←
    if isLeftOut then some (empty, ⟨content, [], []⟩)
    else (take true false (8 * content.length + 8)).run ⟨content, [], knownHandles ++ handles⟩
  guard (rest.tokens.all (· = .documentEnd))
  return some node

def isTextChar (c : Char) : Bool :=
  c = '\t' || c = '\n' || c = '\r' || c = '\u0085' || (' ' ≤ c && c ≤ '~') ||
    ('\u00a0' ≤ c && c ≠ '\uffff' && c ≠ '\ufffe')

/-- A text without the byte order mark at its beginning, if it has one. -/
def dropMark : List Char → List Char
  | '\ufeff' :: text => text
  | text => text

/-- The document of a text, if there is one, or nothing if the text is refused. -/
def read? (text : List Char) : Option (Option Node) := do
  guard (text.all isTextChar)
  ofTokens? (← tokens? (dropMark text))

end Node

end Teleop.Yaml
