import Birdcall.Yaml.Token.Name
import Birdcall.Yaml.Token.Scalar

/-!
# Finding the tokens of a text

`Scanner.fetch` finds the next token.  What is a key is known only from the colon after it, so the
place of every token that could be one is kept until its line is over, and the colon puts the key
mark there.

Tokens wait in a queue.  `Scanner.next?` takes the first one when two more follow it and it can no
longer turn out to be a key; if it was taken before its colon came, the key mark goes to the end of
the queue.  `readTokens` gives the tokens of a text up to where it turns out to be malformed.
-/

namespace Birdcall.Yaml

/-- A token that could turn out to be a key. -/
structure Candidate where
  /-- How many tokens come before it. -/
  number : Nat
  mark : Mark
  /-- Whether a key must stand here. -/
  required : Bool
  /-- Whether the token waits in the queue for its colon. -/
  waits : Bool
  deriving DecidableEq, Repr

/-- What could be a key inside a pair of brackets, or outside of all of them. -/
structure Level where
  candidate : Option Candidate
  /-- The number of the latest token that could be a key, or of the opening bracket. -/
  latest : Nat
  deriving DecidableEq, Repr

/-- How far a text has been read. -/
structure Scanner where
  cursor : Cursor
  /-- How many tokens have been taken. -/
  taken : Nat
  /-- The tokens that wait, in order. -/
  queue : List Token
  /-- The column of the innermost block. -/
  indent : Int
  /-- The columns of the blocks around it, innermost first. -/
  indents : List Int
  /-- The innermost brackets. -/
  level : Level
  /-- The brackets around them, innermost first. -/
  outer : List Level
  /-- Whether the next token could be a key. -/
  keyAllowed : Bool

namespace Scanner

/-- How deep blocks can lie in each other, and brackets in each other. -/
def maxDepth : Nat := 10000

/-- A text before any token but the first, which stands for no characters. -/
def start (s : Supply) : Scanner :=
  { cursor := .start s
    taken := 0
    queue := [⟨.streamStart, ⟨0, 0, 0⟩⟩]
    indent := -1
    indents := []
    level := ⟨none, 0⟩
    outer := []
    keyAllowed := true }

/-- Whether the cursor stands inside brackets. -/
def inFlow (s : Scanner) : Bool := !s.outer.isEmpty

/-- The number of the next token. -/
def number (s : Scanner) : Nat := s.taken + s.queue.length

/-- Adds a token. -/
def push (s : Scanner) (kind : TokenKind) (mark : Mark) : Scanner :=
  { s with queue := s.queue ++ [⟨kind, mark⟩] }

/-- Adds a token before the one with the given number, or at the end if that has been taken. -/
def insert (s : Scanner) (number : Nat) (kind : TokenKind) (mark : Mark) : Scanner :=
  if number < s.taken then s.push kind mark
  else
    let place := number - s.taken
    { s with queue := s.queue.take place ++ ⟨kind, mark⟩ :: s.queue.drop place }

/-! ## Blocks -/

/-- How many blocks end at a column, and the blocks that remain. -/
def ending (column indent : Int) : List Int → Nat × Int × List Int
  | [] => (0, indent, [])
  | next :: rest =>
    if column < indent then
      let (n, indent, indents) := ending column next rest
      (n + 1, indent, indents)
    else (0, indent, next :: rest)

/-- Ends the blocks that do not reach as far left as a column. -/
def unroll (s : Scanner) (column : Int) : Scanner :=
  if s.inFlow then s
  else
    let (n, indent, indents) := ending column s.indent s.indents
    { s with
      queue := s.queue ++ List.replicate n ⟨.blockEnd, s.cursor.mark⟩
      indent := indent
      indents := indents }

/-- Begins a block at a column, before the token with the given number, unless one is open there. -/
def roll (s : Scanner) (number : Nat) (kind : TokenKind) (mark : Mark) : Option Scanner :=
  if s.inFlow || mark.column ≤ s.indent then some s
  else if maxDepth ≤ s.indents.length then none
  else
    some { s.insert number kind mark with indent := mark.column, indents := s.indent :: s.indents }

/-! ## Keys -/

/-- Whether the text has gone on too far for a token to be a key. -/
def isStale (s : Scanner) (k : Candidate) : Bool :=
  k.mark.line < s.cursor.mark.line || k.mark.index + 1024 < s.cursor.mark.index

/-- Gives up what could be a key; it is malformed if it must be one. -/
def dropCandidate (s : Scanner) : Option Scanner :=
  if s.level.candidate.any (·.required) then none
  else some { s with level := { s.level with candidate := none } }

/-- Keeps the place of the next token, if it could be a key. -/
def saveCandidate (s : Scanner) : Option Scanner :=
  if s.keyAllowed then
    let required := !s.inFlow && s.indent = s.cursor.mark.column
    let k : Candidate := ⟨s.number, s.cursor.mark, required, true⟩
    s.dropCandidate.map ({ · with level := ⟨some k, s.number⟩ })
  else some s

/-- The key that a colon at the cursor belongs to, if there is one. -/
def keyBefore (s : Scanner) : Option (Option Candidate) :=
  match s.level.candidate with
  | none => some none
  | some k => if s.isStale k then if k.required then none else some none else some (some k)

/-! ## White space and comments -/

/-- The cursor at the next number sign. -/
def toSign : Nat → Cursor → Option Cursor
  | 0, c => some c
  | fuel + 1, c => do
    let c ← c.ensure 1
    match c.peek? with
    | none => some c
    | some ch =>
      if ch = '#' then some c
      else if isBreak ch then toSign fuel (← c.passBreak)
      else toSign fuel (c.skip 1)

/-- How far a look goes from the end of a comment, and whether it finds a further one with only
blanks and line breaks before it. -/
def lookForComment (rest : List Char) : Nat × Bool :=
  match rest with
  | [] => (2, false)
  | ch :: rest =>
    if ch = '\n' || ch = '\r' then
      let gap := (rest.takeWhile fun ch => isBlank ch || ch = '\n' || ch = '\r').length
      let next := (rest.drop gap).head?
      (min (gap + if next.any isBreak then 3 else 2) 512, next = some '#' && gap < 511)
    else (2, false)

/-- The cursor after a comment, and after the further ones that follow it. -/
def passComments : Nat → Cursor → Option Cursor
  | 0, c => some c
  | fuel + 1, c => do
    let c ← c.toLineEnd
    let (reach, found) := lookForComment c.rest
    let c ← c.ensure reach
    if found then passComments fuel (← toSign (c.limit + 1) c) else some c

/-- Goes to the next token.  Tabs count as white space where no key can begin.  A line may begin
with a byte order mark: where loading last began with one, the first character of a line is passed
over. -/
def toToken : Nat → Scanner → Option Scanner
  | 0, s => some s
  | fuel + 1, s => do
    let c ← s.cursor.ensure 1
    let c := if c.mark.column = 0 && c.marked then c.skip 1 else c
    let c ← c.passWhile fun ch => ch = ' ' || (ch = '\t' && (s.inFlow || !s.keyAllowed))
    let c ← if c.isAt '#' then passComments (c.limit + 1) c else some c
    if c.peek?.any isBreak then
      toToken fuel { s with cursor := ← c.passBreak, keyAllowed := !s.inFlow || s.keyAllowed }
    else some { s with cursor := c }

/-- Goes past a comment behind a token. -/
def pastComment (s : Scanner) : Option Scanner :=
  if s.cursor.fresh then some s
  else s.cursor.passComment.map fun c => { s with cursor := c }

/-! ## Tokens -/

/-- Takes `n` characters as a token. -/
def take (s : Scanner) (n : Nat) (kind : TokenKind) : Scanner :=
  { s.push kind s.cursor.mark with cursor := s.cursor.skip n }

/-- Adds a scalar, an anchor or the like that has been read. -/
def read (s : Scanner) (kind : TokenKind) (after : Cursor) : Scanner :=
  { s.push kind s.cursor.mark with cursor := after }

/-- Ends the text, in a line of its own. -/
def streamEnd (s : Scanner) : Option Scanner := do
  let m := s.cursor.mark
  let m := if m.column = 0 then m else { m with line := m.line + 1, column := 0 }
  let s ← ({ s with cursor := { s.cursor with mark := m } }.unroll (-1)).dropCandidate
  some { s.push .streamEnd m with keyAllowed := false }

/-- Takes a directive. -/
def directive (s : Scanner) : Option Scanner := do
  let s ← (s.unroll (-1)).dropCandidate
  let (kind, after) ← directive? s.cursor
  some { s.read kind after with keyAllowed := false }

/-- Takes a mark between documents. -/
def documentMark (s : Scanner) (kind : TokenKind) : Option Scanner := do
  let s ← (s.unroll (-1)).dropCandidate
  some { s.take 3 kind with keyAllowed := false }

/-- Takes an opening bracket, which may begin a key. -/
def openBracket (s : Scanner) (kind : TokenKind) : Option Scanner := do
  let s ← s.saveCandidate
  if maxDepth ≤ s.outer.length then none
  some
    { s.take 1 kind with
      level := ⟨none, s.number⟩
      outer := s.level :: s.outer
      keyAllowed := true }

/-- Takes a closing bracket.  The opening one no longer waits for a colon if nothing between them
could have been a key. -/
def closeBracket (s : Scanner) (kind : TokenKind) : Option Scanner := do
  let s ← s.dropCandidate
  let s :=
    match s.outer with
    | [] => s
    | around :: outer =>
      let candidate := around.candidate.map fun k : Candidate =>
        { k with waits := k.waits && k.number ≠ s.level.latest }
      { s with level := { around with candidate }, outer := outer }
  some { s.take 1 kind with keyAllowed := false }

/-- Takes a comma. -/
def comma (s : Scanner) : Option Scanner := do
  let s ← s.dropCandidate
  some { s.take 1 .comma with keyAllowed := true }

/-- Takes a hyphen before an item. -/
def entry (s : Scanner) : Option Scanner := do
  if !s.inFlow && !s.keyAllowed then none
  let s ← (← s.roll s.number .blockSequence s.cursor.mark).dropCandidate
  some { s.take 1 .entry with keyAllowed := true }

/-- Takes the question mark before a key. -/
def explicitKey (s : Scanner) : Option Scanner := do
  if !s.inFlow && !s.keyAllowed then none
  let s ← (← s.roll s.number .blockMapping s.cursor.mark).dropCandidate
  some { s.take 1 .key with keyAllowed := !s.inFlow }

/-- Takes the colon before a value, and marks the key before it. -/
def value (s : Scanner) : Option Scanner := do
  match ← s.keyBefore with
  | some k =>
    let s ← (s.insert k.number .key k.mark).roll k.number .blockMapping k.mark
    some { s.take 1 .value with level := { s.level with candidate := none }, keyAllowed := false }
  | none =>
    if !s.inFlow && !s.keyAllowed then none
    let s ← s.roll s.number .blockMapping s.cursor.mark
    some
      { s.take 1 .value with level := { s.level with candidate := none }, keyAllowed := !s.inFlow }

/-- Takes an anchor or an alias. -/
def name (s : Scanner) (kind : Text → TokenKind) : Option Scanner := do
  let s ← s.saveCandidate
  let (t, after) ← anchorName? s.cursor
  some { s.read (kind t) after with keyAllowed := false }

/-- Takes a tag. -/
def tag (s : Scanner) : Option Scanner := do
  let s ← s.saveCandidate
  let (handle, rest, after) ← tag? s.cursor
  some { s.read (.tag handle rest) after with keyAllowed := false }

/-- Takes a block scalar. -/
def blockScalar (s : Scanner) (literal : Bool) : Option Scanner := do
  let s ← s.dropCandidate
  let (value, after) ← block? literal s.indent s.cursor
  some { s.read (.scalar (Text.encode value) .block) after with keyAllowed := true }

/-- Takes a quoted scalar. -/
def quotedScalar (s : Scanner) (single : Bool) : Option Scanner := do
  let s ← s.saveCandidate
  let (value, after) ← quoted? single (s.cursor.limit + 1) [] (s.cursor.skip 1)
  some { s.read (.scalar (Text.encode value) .quoted) after with keyAllowed := false }

/-- Takes a plain scalar.  A key may begin after one that ends with its line. -/
def plainScalar (s : Scanner) : Option Scanner := do
  let s ← s.saveCandidate
  let (value, broken, after) ←
    plain? s.inFlow (s.indent + 1).toNat (s.cursor.limit + 1) [] .none s.cursor
  some { s.read (.scalar (Text.encode value) .plain) after with keyAllowed := broken }

/-- Whether a plain scalar may begin with these characters. -/
def beginsPlain (inFlow : Bool) (ch : Char) (rest : List Char) : Bool :=
  !(isBlank ch || isBreak ch || "-?:,[]\x7b\x7d#&*!|>'\"%@`".toList.contains ch) ||
    (ch = '-' && !rest.head?.any isBlank) ||
    (!inFlow && (ch = '?' || ch = ':') && !Cursor.atGap rest)

/-- Takes a token that begins with `ch`, inside a document. -/
def contentToken (s : Scanner) (ch : Char) (rest : List Char) : Option Scanner :=
  if ch = '[' then s.openBracket .openSequence
  else if ch = '{' then s.openBracket .openMapping
  else if ch = ']' then s.closeBracket .closeSequence
  else if ch = '}' then s.closeBracket .closeMapping
  else if ch = ',' then s.comma
  else if ch = '?' && (s.inFlow || Cursor.atGap rest) then s.explicitKey
  else if ch = ':' && (s.inFlow || Cursor.atGap rest) then s.value
  else if ch = '*' then s.name .reference
  else if ch = '&' then s.name .anchor
  else if ch = '!' then s.tag
  else if ch = '|' && !s.inFlow then s.blockScalar true
  else if ch = '>' && !s.inFlow then s.blockScalar false
  else if ch = '\'' then s.quotedScalar true
  else if ch = '"' then s.quotedScalar false
  else if beginsPlain s.inFlow ch rest then s.plainScalar
  else none

/-- Finds the next token.  After the end of the text it finds the end again. -/
def fetch (s : Scanner) : Option Scanner := do
  let s ← s.toToken (s.cursor.limit + 1)
  let s := s.unroll s.cursor.mark.column
  let s := { s with cursor := ← s.cursor.ensure 4 }
  match s.cursor.rest with
  | [] => s.streamEnd
  | ch :: rest =>
    if s.cursor.mark.column = 0 && ch = '%' then s.directive
    else if s.cursor.atDocumentMark then
      s.documentMark (if ch = '-' then .documentStart else .documentEnd)
    else if ch = '-' && Cursor.atGap rest then s.entry
    else (← s.contentToken ch rest).pastComment

/-! ## Taking tokens -/

/-- Whether the first token can be taken: two more follow it, and it does not wait for a colon.
Nothing if it must be a key and cannot be one any more. -/
def isSettled? (s : Scanner) : Option Bool :=
  match s.queue with
  | _ :: _ :: _ :: _ =>
    let waiting := (s.level :: s.outer).findSome? fun l =>
      l.candidate.filter fun k => k.waits && k.number = s.taken
    match waiting with
    | none => some true
    | some k => if s.isStale k then if k.required then none else some true else some false
  | _ => some false

/-- Takes the first token, after finding at most `fuel` others. -/
def next? : Nat → Scanner → Option (Token × Scanner)
  | 0, _ => none
  | fuel + 1, s => do
    if ← s.isSettled? then
      match s.queue with
      | [] => none
      | t :: queue => some (t, { s with taken := s.taken + 1, queue := queue })
    else next? fuel (← s.fetch)

/-- Takes tokens until the text ends or is malformed. -/
def readFrom : Nat → Scanner → List Token
  | 0, _ => []
  | fuel + 1, s =>
    match s.next? (s.cursor.limit + 4) with
    | none => []
    | some (t, s) => if t.kind = .streamEnd then [t] else t :: readFrom fuel s

end Scanner

/-- The tokens of a text, up to where it is malformed. -/
def readTokens (s : Supply) : List Token :=
  (Scanner.start s).readFrom (4 * s.characters.length + 4)

end Birdcall.Yaml
