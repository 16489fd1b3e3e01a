import Birdcall.Yaml.Token.Scan
import Birdcall.Yaml.Value

/-!
# YAML nodes

The tree that tokens spell.  An alias stands for the latest node before it with its name, which may
be one that it lies in, so it holds the place of that node and not the node itself.

`firstDocument?` reads the first document of a text.
-/

namespace Birdcall.Yaml

/-- A node of a document. -/
inductive Node
  | scalar (start : Mark) (anchor : Option Text) (tag : Tag) (value : Text)
  | sequence (start : Mark) (anchor : Option Text) (tag : Tag) (items : List Node)
  | mapping (start : Mark) (anchor : Option Text) (tag : Tag) (pairs : List (Node × Node))
  /-- Another mention of the node with an anchor that begins at `target`. -/
  | reference (start : Mark) (name : Text) (target : Nat)

namespace Node

/-- Where a node begins. -/
def start : Node → Mark
  | scalar start .. | sequence start .. | mapping start .. | reference start .. => start

/-- The line a node begins on, counted from one. -/
def line (n : Node) : Nat := n.start.line + 1

/-- The anchor of a node. -/
def anchor : Node → Option Text
  | scalar _ anchor .. | sequence _ anchor .. | mapping _ anchor .. => anchor
  | reference .. => none

/-- The text of a scalar, and the name in an alias. -/
def value : Node → Text
  | scalar _ _ _ value => value
  | reference _ name _ => name
  | _ => []

/-- Whether two nodes are of one kind. -/
def sameKind : Node → Node → Bool
  | scalar .., scalar .. | sequence .., sequence .. => true
  | mapping .., mapping .. | reference .., reference .. => true
  | _, _ => false

mutual

/-- How many nodes there are in a tree. -/
def size : Node → Nat
  | scalar .. | reference .. => 1
  | sequence _ _ _ items => sizeOfItems items + 1
  | mapping _ _ _ pairs => sizeOfPairs pairs + 1

/-- How many nodes there are in some trees. -/
def sizeOfItems : List Node → Nat
  | [] => 0
  | n :: rest => size n + sizeOfItems rest

/-- How many nodes there are in pairs of trees. -/
def sizeOfPairs : List (Node × Node) → Nat
  | [] => 0
  | (k, v) :: rest => size k + size v + sizeOfPairs rest

end

mutual

/-- The node with an anchor that begins at a place. -/
def find? (place : Nat) : Node → Option Node
  | scalar start anchor tag value =>
    if anchor.isSome && start.index = place then some (scalar start anchor tag value) else none
  | sequence start anchor tag items =>
    if anchor.isSome && start.index = place then some (sequence start anchor tag items)
    else findInItems? place items
  | mapping start anchor tag pairs =>
    if anchor.isSome && start.index = place then some (mapping start anchor tag pairs)
    else findInPairs? place pairs
  | reference .. => none

/-- The node with an anchor that begins at a place, in some trees. -/
def findInItems? (place : Nat) : List Node → Option Node
  | [] => none
  | n :: rest => (find? place n).or (findInItems? place rest)

/-- The node with an anchor that begins at a place, in pairs of trees. -/
def findInPairs? (place : Nat) : List (Node × Node) → Option Node
  | [] => none
  | (k, v) :: rest => (find? place k).or ((find? place v).or (findInPairs? place rest))

end

end Node

/-! ## Reading nodes -/

/-- The tokens to come, and where the nodes with anchors began, latest first. -/
structure Reading where
  tokens : List Token
  anchors : List (Text × Nat)

/-- Reads from tokens, unless they are malformed. -/
abbrev Read := StateT Reading Option

namespace Read

/-- The next token. -/
def peek : Read Token := do
  match (← get).tokens with
  | [] => failure
  | t :: _ => pure t

/-- Takes the next token. -/
def next : Read Token := do
  let t ← peek
  modify fun r => { r with tokens := r.tokens.tail }
  pure t

/-- Whether the next token is one of these. -/
def isNext (kinds : List TokenKind) : Read Bool := do
  return kinds.contains (← peek).kind

/-- A node that is not there. -/
def missing (start : Mark) : Node := .scalar start none .null []

/-- What is written in front of a node. -/
structure Properties where
  start : Mark
  anchor : Option Text
  tag : Option Text

/-- What the handles of tags stand for. -/
abbrev Handles := List (Text × Text)

/-- The tag that a handle and what follows it stand for. -/
def fullTag (handles : Handles) (handle rest : Text) : Read Text :=
  if handle.isEmpty then pure rest
  else
    match handles.lookup handle with
    | some meaning => if (meaning ++ rest).isEmpty then failure else pure (meaning ++ rest)
    | none => failure

/-- Reads an anchor and a tag in either order. -/
def properties (handles : Handles) : Read Properties := do
  let first ← peek
  match first.kind with
  | .anchor name =>
    let _ ← next
    match (← peek).kind with
    | .tag handle rest =>
      let _ ← next
      let _ ← peek
      return ⟨first.start, some name, some (← fullTag handles handle rest)⟩
    | _ => return ⟨first.start, some name, none⟩
  | .tag handle rest =>
    let _ ← next
    match (← peek).kind with
    | .anchor name =>
      let _ ← next
      let _ ← peek
      return ⟨first.start, some name, some (← fullTag handles handle rest)⟩
    | _ => return ⟨first.start, none, some (← fullTag handles handle rest)⟩
  | _ => return ⟨first.start, none, none⟩

/-- The tag of a node: the one in front of it, unless that says nothing, or else a default. -/
def tagOr (p : Properties) (default : Tag) : Tag :=
  match p.tag with
  | none => default
  | some t => if t.isEmpty || t = [Text.byte '!'] then default else .ofText t

/-- The tag of a scalar without one in front of it. -/
def scalarTag (value : Text) : Style → Tag
  | .plain => if value = Text.ofString "<<" then .merge else (Value.ofPlain true value).1
  | .quoted | .block => .str

/-- Remembers where a node with an anchor begins. -/
def remember (p : Properties) : Read Unit :=
  match p.anchor with
  | none => pure ()
  | some name => modify fun r => { r with anchors := (name, p.start.index) :: r.anchors }

mutual

/-- Reads a node.  Block collections may stand only in block context, and a block sequence without
indentation of its own only as a part of a block mapping. -/
def node (h : Handles) : Nat → Bool → Bool → Read Node
  | 0, _, _ => failure
  | fuel + 1, inBlock, hanging => do
    let t ← peek
    match t.kind with
    | .reference name =>
      let _ ← next
      match (← get).anchors.lookup name with
      | some target => return .reference t.start name target
      | none => failure
    | _ =>
      let p ← properties h
      let t ← peek
      match t.kind with
      | .scalar value style =>
        let _ ← next
        remember p
        return .scalar p.start p.anchor (tagOr p (scalarTag value style)) value
      | .openSequence =>
        let _ ← next
        remember p
        return .sequence p.start p.anchor (tagOr p .seq) (← flowItems h fuel true)
      | .openMapping =>
        let _ ← next
        remember p
        return .mapping p.start p.anchor (tagOr p .map) (← flowPairs h fuel true)
      | kind =>
        if hanging && kind = .entry then
          remember p
          return .sequence p.start p.anchor (tagOr p .seq) (← hangingItems h fuel)
        else if inBlock && kind = .blockSequence then
          let _ ← next
          remember p
          return .sequence p.start p.anchor (tagOr p .seq) (← blockItems h fuel)
        else if inBlock && kind = .blockMapping then
          let _ ← next
          remember p
          return .mapping p.start p.anchor (tagOr p .map) (← blockPairs h fuel)
        else if p.anchor.isSome || p.tag.isSome then
          remember p
          return .scalar p.start p.anchor (tagOr p .null) []
        else failure

/-- Reads the items of a block sequence to its end. -/
def blockItems (h : Handles) : Nat → Read (List Node)
  | 0 => failure
  | fuel + 1 => do
    let t ← next
    match t.kind with
    | .entry =>
      let item ←
        if ← isNext [.entry, .blockEnd] then pure (missing t.start) else node h fuel true false
      return item :: (← blockItems h fuel)
    | .blockEnd => return []
    | _ => failure

/-- Reads the items of a block sequence that has no indentation of its own. -/
def hangingItems (h : Handles) : Nat → Read (List Node)
  | 0 => failure
  | fuel + 1 => do
    let t ← peek
    if t.kind = .entry then
      let _ ← next
      let item ←
        if ← isNext [.entry, .key, .value, .blockEnd] then pure (missing t.start)
        else node h fuel true false
      return item :: (← hangingItems h fuel)
    else return []

/-- Reads the pairs of a block mapping to its end. -/
def blockPairs (h : Handles) : Nat → Read (List (Node × Node))
  | 0 => failure
  | fuel + 1 => do
    let t ← next
    match t.kind with
    | .key =>
      let key ←
        if ← isNext [.key, .value, .blockEnd] then pure (missing t.start)
        else node h fuel true true
      let t ← peek
      let value ←
        if t.kind = .value then do
          let _ ← next
          if ← isNext [.key, .value, .blockEnd] then pure (missing t.start)
          else node h fuel true true
        else pure (missing t.start)
      return (key, value) :: (← blockPairs h fuel)
    | .blockEnd => return []
    | _ => failure

/-- Reads the items of a sequence in brackets to its end.  A pair among them is a mapping. -/
def flowItems (h : Handles) : Nat → Bool → Read (List Node)
  | 0, _ => failure
  | fuel + 1, first => do
    if ← isNext [.closeSequence] then
      let _ ← next
      return []
    if !first then
      if (← next).kind ≠ .comma then failure
    let t ← peek
    match t.kind with
    | .closeSequence =>
      let _ ← next
      return []
    | .key =>
      let _ ← next
      let key ←
        if ← isNext [.value, .comma, .closeSequence] then
          let t ← next
          pure (missing t.start)
        else node h fuel false false
      let value ← flowValue h fuel .closeSequence
      return .mapping t.start none .map [(key, value)] :: (← flowItems h fuel false)
    | _ =>
      let item ← node h fuel false false
      return item :: (← flowItems h fuel false)

/-- Reads the pairs of a mapping in brackets to its end. -/
def flowPairs (h : Handles) : Nat → Bool → Read (List (Node × Node))
  | 0, _ => failure
  | fuel + 1, first => do
    if ← isNext [.closeMapping] then
      let _ ← next
      return []
    if !first then
      if (← next).kind ≠ .comma then failure
    let t ← peek
    match t.kind with
    | .closeMapping =>
      let _ ← next
      return []
    | .key =>
      let _ ← next
      let key ←
        if ← isNext [.value, .comma, .closeMapping] then
          let t ← peek
          pure (missing t.start)
        else node h fuel false false
      let value ← flowValue h fuel .closeMapping
      return (key, value) :: (← flowPairs h fuel false)
    | _ =>
      let key ← node h fuel false false
      let t ← peek
      return (key, missing t.start) :: (← flowPairs h fuel false)

/-- Reads the value of a pair in brackets, which may be missing. -/
def flowValue (h : Handles) : Nat → TokenKind → Read Node
  | 0, _ => failure
  | fuel + 1, close => do
    let t ← peek
    if t.kind = .value then
      let _ ← next
      let t ← peek
      if t.kind = .comma || t.kind = close then return missing t.start
      else node h fuel false false
    else return missing t.start

end

/-! ## Documents -/

/-- The handles that need no directive. -/
def defaultHandles : Handles :=
  [(Text.ofString "!", Text.ofString "!"), (Text.ofString "!!", Tag.longForm)]

/-- Reads directives: the version may be named once, and each handle once. -/
def directives : Nat → Bool → Handles → Read Handles
  | 0, _, _ => failure
  | fuel + 1, versioned, handles => do
    match (← peek).kind with
    | .version major minor =>
      let _ ← next
      if versioned || major ≠ 1 || minor ≠ 1 then failure
      directives fuel true handles
    | .handle name meaning =>
      let _ ← next
      if handles.any (·.1 = name) then failure
      directives fuel versioned (handles ++ [(name, meaning)])
    | _ => pure (handles ++ defaultHandles)

/-- Reads the first document, if there is one. -/
def document : Read (Option Node) := do
  let _ ← next
  let fuel := 4 * (← get).tokens.length + 4
  let t ← peek
  match t.kind with
  | .streamEnd => return none
  | .version .. | .handle .. | .documentStart =>
    let h ← directives fuel false []
    if (← next).kind ≠ .documentStart then failure
    let t ← peek
    let root ←
      match t.kind with
      | .version .. | .handle .. | .documentStart | .documentEnd | .streamEnd =>
        pure (missing t.start)
      | _ => node h fuel true false
    let _ ← peek
    return some root
  | _ =>
    let root ← node defaultHandles fuel true false
    let _ ← peek
    return some root

end Read

/-- The root of the first document of a text, if there is one; nothing if the text is malformed. -/
def firstDocument? (t : Text) : Option (Option Node) :=
  (Read.document.run ⟨readTokens (.ofText t), []⟩).map (·.1)

end Birdcall.Yaml
