import Birdcall.Yaml.Token

/-!
# Anchors, tags and directives

How the names in a YAML text are read.  Each function gives what it read and the cursor after it, or
nothing if the text is malformed.
-/

namespace Birdcall.Yaml

/-- Reads the name of an anchor, from its indicator on. -/
def anchorName? (c : Cursor) : Option (Text × Cursor) := do
  let c ← c.pass 1 1
  let name := c.run isWord
  let c ← c.pass 1 name.length
  let ends := Cursor.atGap c.rest || c.peek?.any fun ch => "?:,]\x7d%@`".toList.contains ch
  if name.isEmpty || !ends then none else some (Text.encode name, c)

/-! ## Tags -/

/-- A character that may stand in a tag. -/
def isTagChar (c : Char) : Bool := isWord c || ";/?:@&=+$,.%!~*'()[]".toList.contains c

/-- Reads a byte written as a percent sign and two hexadecimal digits. -/
def percentByte? (c : Cursor) : Option (UInt8 × Cursor) := do
  let c ← c.ensure 3
  match c.rest with
  | '%' :: a :: b :: _ =>
    if a.toNat < 128 ∧ b.toNat < 128 then
      let high ← Text.hexValue? (Text.byte a)
      let low ← Text.hexValue? (Text.byte b)
      some ((high * 16 + low).toUInt8, c.skip 3)
    else none
  | _ => none

/-- Reads `n` bytes that continue a character. -/
def percentTail? : Nat → Cursor → Option (Text × Cursor)
  | 0, c => some ([], c)
  | n + 1, c => do
    let (b, c) ← percentByte? c
    if b &&& 0xC0 ≠ 0x80 then none
    let (rest, c) ← percentTail? n c
    some (b :: rest, c)

/-- Reads the bytes of one character. -/
def percentChar? (c : Cursor) : Option (Text × Cursor) := do
  let (b, c) ← percentByte? c
  let tails ←
    if b &&& 0x80 = 0 then some 0
    else if b &&& 0xE0 = 0xC0 then some 1
    else if b &&& 0xF0 = 0xE0 then some 2
    else if b &&& 0xF8 = 0xF0 then some 3
    else none
  let (rest, c) ← percentTail? tails c
  some (b :: rest, c)

/-- Reads the characters of a tag after the bytes `t`, latest first, up to the first that may not
stand in one. -/
def tagText? : Nat → Text → Cursor → Option (Text × Cursor)
  | 0, t, c => some (t.reverse, c)
  | fuel + 1, t, c => do
    let c ← c.ensure 1
    match c.peek? with
    | none => some (t.reverse, c)
    | some ch =>
      if ch = '%' then
        let (bytes, c) ← percentChar? c
        tagText? fuel (bytes.reverse ++ t) c
      else if isTagChar ch then tagText? fuel (Text.byte ch :: t) (c.skip 1)
      else some (t.reverse, c)

/-- Reads a tag without a handle, which is not empty. -/
def tagSuffix? (c : Cursor) : Option (Text × Cursor) := do
  let (t, c') ← tagText? (c.limit + 1) [] c
  if c'.mark.index = c.mark.index then none else some (t, c')

/-- Reads what may be a handle: an exclamation mark, a word, and a second mark if there is one. -/
def tagHandle? (c : Cursor) : Option (List Char × Cursor) := do
  let c ← c.ensure 1
  if c.isAt '!' then
    let c ← c.pass 1 1
    let word := c.run isWord
    let c ← c.pass 1 word.length
    if c.isAt '!' then some ('!' :: word ++ ['!'], c.skip 1) else some ('!' :: word, c)
  else none

/-- Reads a tag: its handle and what follows it. -/
def tag? (c : Cursor) : Option (Text × Text × Cursor) := do
  let c ← c.ensure 2
  let (handle, rest, c) ←
    match c.rest with
    | '!' :: '<' :: _ => do
      let (t, c) ← tagSuffix? (c.skip 2)
      if c.isAt '>' then some ([], t, c.skip 1) else none
    | _ => do
      let (handle, c) ← tagHandle? c
      if 1 < handle.length ∧ handle.getLast? = some '!' then
        let (t, c) ← tagSuffix? c
        some (Text.encode handle, t, c)
      else
        let (t, c) ← tagText? (c.limit + 1) (Text.encode handle.tail).reverse c
        if t.isEmpty then some ([], [Text.byte '!'], c) else some ([Text.byte '!'], t, c)
  let c ← c.ensure 1
  if Cursor.atGap c.rest then some (handle, rest, c) else none

/-! ## Directives -/

/-- Reads a number of one or two digits. -/
def versionNumber? (c : Cursor) : Option (Nat × Cursor) := do
  let c ← c.ensure 1
  let digits := c.run Char.isDigit
  if digits.isEmpty || 2 < digits.length then none
  some (Text.decimalValue (Text.encode digits), ← c.pass 1 digits.length)

/-- Reads what a directive for the version says. -/
def version? (c : Cursor) : Option (TokenKind × Cursor) := do
  let (major, c) ← versionNumber? (← c.passWhile isBlank)
  if !c.isAt '.' then none
  let (minor, c) ← versionNumber? (c.skip 1)
  some (.version major minor, c)

/-- Reads what a directive for a handle says. -/
def handle? (c : Cursor) : Option (TokenKind × Cursor) := do
  let (name, c) ← tagHandle? (← c.passWhile isBlank)
  if name.getLast? ≠ some '!' then none
  let c ← c.ensure 1
  if !c.peek?.any isBlank then none
  let (meaning, c) ← tagSuffix? (← c.passWhile isBlank)
  if !Cursor.atGap c.rest then none
  some (.handle (Text.encode name) meaning, c)

/-- Reads a directive, from its indicator to the end of its line. -/
def directive? (c : Cursor) : Option (TokenKind × Cursor) := do
  let c ← c.pass 1 1
  let name := c.run isWord
  let c ← c.pass 1 name.length
  if name.isEmpty || !Cursor.atGap c.rest then none
  let (kind, c) ←
    if name = "YAML".toList then version? c
    else if name = "TAG".toList then handle? c
    else none
  some (kind, ← c.restOfLine?)

end Birdcall.Yaml
