import Birdcall.Yaml.Token

/-!
# Scalars

How the three ways to write a scalar are read: in quotes, plain, and as a block of lines.  Each
function gives the value and the cursor after it, or nothing if the text is malformed.

A line break inside a quoted or plain scalar stands for a space, and `n + 1` of them in a row for
`n`.  Every round of reading takes at least one character, so as many rounds as there are characters
are enough.
-/

namespace Birdcall.Yaml

/-- White space met inside a scalar: the blanks, or the line breaks if there are any.  Lists of
characters have the latest first. -/
structure Gap where
  blanks : List Char
  /-- The first line break. -/
  first : List Char
  /-- The further ones. -/
  more : List Char
  /-- Whether a line break was met. -/
  broken : Bool

namespace Gap

/-- No white space. -/
def none : Gap := ⟨[], [], [], false⟩

/-- A value, latest character first, followed by what white space stands for. -/
def after (value : List Char) (g : Gap) : List Char :=
  if g.broken then
    if g.first.head? = some '\n' then if g.more.isEmpty then ' ' :: value else g.more ++ value
    else g.more ++ g.first ++ value
  else g.blanks ++ value

/-- Reads white space.  With `least`, a tab left of that column at the beginning of a line is
malformed. -/
def read (least : Option Nat) : Nat → Gap → Cursor → Option (Gap × Cursor)
  | 0, g, c => some (g, c)
  | fuel + 1, g, c =>
    match c.peek? with
    | Option.none => some (g, c)
    | some ch =>
      if isBlank ch then
        if g.broken && ch = '\t' && least.any (c.mark.column < ·) then Option.none
        else do
          let g := if g.broken then g else { g with blanks := ch :: g.blanks }
          read least fuel g (← c.pass 1 1)
      else if isBreak ch then do
        let g :=
          if g.broken then { g with more := c.breakText ++ g.more }
          else ⟨[], c.breakText, [], true⟩
        read least fuel g (← (← c.passBreak).ensure 1)
      else some (g, c)

end Gap

/-! ## Quoted scalars -/

/-- The value of hexadecimal digits. -/
def hexNumber? (cs : List Char) : Option Nat :=
  cs.foldlM (fun n ch => (Text.hexValue? (Text.byte ch)).bind fun d =>
    if ch.toNat < 128 then some (n * 16 + d) else none) 0

/-- The character that an escape of hexadecimal digits stands for. -/
def escapedNumber? (length : Nat) (c : Cursor) : Option (Char × Cursor) := do
  let c ← c.ensure length
  let digits := c.rest.take length
  if digits.length < length then none
  let n ← hexNumber? digits
  if (0xD800 ≤ n ∧ n ≤ 0xDFFF) ∨ 0x10FFFF < n then none
  some (Char.ofNat n, c.skip length)

/-- The character that an escape stands for, from the letter after the backslash on. -/
def escaped? (c : Cursor) : Option (Char × Cursor) :=
  let is (ch : Char) : Option (Char × Cursor) := some (ch, c.skip 1)
  match c.peek? with
  | some '0' => is '\x00'
  | some 'a' => is '\x07'
  | some 'b' => is '\x08'
  | some 't' | some '\t' => is '\t'
  | some 'n' => is '\n'
  | some 'v' => is '\x0B'
  | some 'f' => is '\x0C'
  | some 'r' => is '\r'
  | some 'e' => is '\x1B'
  | some ' ' => is ' '
  | some '"' => is '"'
  | some '\'' => is '\''
  | some '\\' => is '\\'
  | some 'N' => is '\u0085'
  | some '_' => is '\u00A0'
  | some 'L' => is '\u2028'
  | some 'P' => is '\u2029'
  | some 'x' => escapedNumber? 2 (c.skip 1)
  | some 'u' => escapedNumber? 4 (c.skip 1)
  | some 'U' => escapedNumber? 8 (c.skip 1)
  | _ => none

/-- What was read of a scalar in quotes: its value, latest character first, and whether a line break
was passed over after a backslash. -/
structure QuotedText where
  value : List Char
  joined : Bool

/-- Reads characters in single quotes up to white space or the closing quote. -/
def singleRun? : Nat → List Char → Cursor → Option (QuotedText × Cursor)
  | 0, value, c => some (⟨value, false⟩, c)
  | fuel + 1, value, c =>
    match c.rest with
    | [] => some (⟨value, false⟩, c)
    | '\'' :: '\'' :: _ => ((c.skip 2).ensure 2).bind (singleRun? fuel ('\'' :: value))
    | ch :: _ =>
      if ch = '\'' || isBlank ch || isBreak ch then some (⟨value, false⟩, c)
      else (c.pass 2 1).bind (singleRun? fuel (ch :: value))

/-- Reads characters in double quotes up to white space, the closing quote, or a line break after a
backslash, which is passed over. -/
def doubleRun? : Nat → List Char → Cursor → Option (QuotedText × Cursor)
  | 0, value, c => some (⟨value, false⟩, c)
  | fuel + 1, value, c =>
    match c.rest with
    | [] => some (⟨value, false⟩, c)
    | ch :: rest =>
      if ch = '"' || isBlank ch || isBreak ch then some (⟨value, false⟩, c)
      else if ch = '\\' then
        if rest.head?.any isBreak then
          ((c.ensure 3).bind fun c => (c.skip 1).passBreak).map fun c => (⟨value, true⟩, c)
        else
          match escaped? (c.skip 1) with
          | none => none
          | some (ch, c) => (c.ensure 2).bind (doubleRun? fuel (ch :: value))
      else (c.pass 2 1).bind (doubleRun? fuel (ch :: value))

/-- Reads the inside of a scalar in quotes, after `value`, latest character first.  Blanks after a
line break that was passed over count for nothing. -/
def quoted? (single : Bool) : Nat → List Char → Cursor → Option (List Char × Cursor)
  | 0, _, _ => none
  | fuel + 1, value, c => do
    let c ← c.ensure 4
    if c.atDocumentMark || c.rest.isEmpty then none
    let (t, c) ←
      if single then singleRun? c.limit value c else doubleRun? c.limit value c
    let c ← c.ensure 1
    if c.isAt (if single then '\'' else '"') then some (t.value.reverse, c.skip 1)
    else
      let (g, c) ← Gap.read none c.limit { Gap.none with broken := t.joined } c
      quoted? single fuel (g.after t.value) c

/-! ## Plain scalars -/

/-- Whether a plain scalar ends before these characters. -/
def endsPlain (inFlow : Bool) : List Char → Bool
  | [] => true
  | ch :: rest =>
    isBlank ch || isBreak ch || (ch = ':' && Cursor.atGap rest) ||
      (inFlow && (ch = ',' || ch = '?' || ch = '[' || ch = ']' || ch = '{' || ch = '}'))

/-- The characters of a plain scalar up to white space or its end. -/
def plainRun (inFlow : Bool) : List Char → List Char
  | [] => []
  | ch :: rest => if endsPlain inFlow (ch :: rest) then [] else ch :: plainRun inFlow rest

/-- Reads a plain scalar after `value`, latest character first, and the white space `gap`.  In block
context it ends at a line that is not further in than the block.  Also says whether it ended at the
beginning of a line. -/
def plain? (inFlow : Bool) (least : Nat) :
    Nat → List Char → Gap → Cursor → Option (List Char × Bool × Cursor)
  | 0, _, _, _ => none
  | fuel + 1, value, gap, c => do
    let c ← c.ensure 4
    if c.atDocumentMark || c.isAt '#' then some (value.reverse, gap.broken, c)
    else
      let text := plainRun inFlow c.rest
      let value := if text.isEmpty then value else text.reverse ++ gap.after value
      let gap := if text.isEmpty then gap else .none
      let c ← c.pass 2 text.length
      if c.peek?.any fun ch => isBlank ch || isBreak ch then
        let (gap, c) ← Gap.read (some least) c.limit gap (← c.ensure 1)
        if !inFlow && c.mark.column < least then some (value.reverse, gap.broken, c)
        else plain? inFlow least fuel value gap c
      else some (value.reverse, gap.broken, c)

/-! ## Block scalars -/

/-- What becomes of the line breaks at the end of a block scalar. -/
inductive Chomp
  /-- They go. -/
  | strip
  /-- One stays. -/
  | clip
  /-- All stay. -/
  | keep
  deriving DecidableEq, Repr

/-- Reads the sign that says what becomes of the line breaks at the end, if it comes. -/
def chompSign? (c : Cursor) : Option (Option Chomp × Cursor) :=
  match c.peek? with
  | some '+' => (c.pass 1 1).map fun c => (some .keep, c)
  | some '-' => (c.pass 1 1).map fun c => (some .strip, c)
  | _ => some (none, c)

/-- Reads the digit that says how far in a block scalar stands, if it comes; zero is malformed. -/
def indentDigit? (c : Cursor) : Option (Option Nat × Cursor) :=
  match c.peek? with
  | some ch =>
    if ch = '0' then none
    else if ch.isDigit then (c.pass 1 1).map fun c => (some (ch.toNat - 48), c)
    else some (none, c)
  | none => some (none, c)

/-- Reads both in either order. -/
def blockHeader? (c : Cursor) : Option (Chomp × Nat × Cursor) := do
  match ← chompSign? c with
  | (some chomp, c) =>
    let (n, c) ← indentDigit? c
    some (chomp, n.getD 0, c)
  | (none, c) =>
    match ← indentDigit? c with
    | (some n, c) =>
      let (chomp, c) ← chompSign? c
      some (chomp.getD .clip, n, c)
    | (none, c) => some (.clip, 0, c)

/-- Empty lines and indentation in front of a line of a block scalar. -/
structure Margin where
  /-- The line breaks, latest first. -/
  breaks : List Char
  /-- How far in the lines went. -/
  deepest : Nat
  cursor : Cursor

/-- Reads empty lines and indentation up to column `indent`, or all of it if that is zero. -/
def margin? (indent : Nat) : Nat → List Char → Nat → Cursor → Option Margin
  | 0, breaks, deepest, c => some ⟨breaks, deepest, c⟩
  | fuel + 1, breaks, deepest, c => do
    let c ← c.ensure 1
    let spaces := (c.run (· = ' ')).length
    let c ← c.pass 1 (if indent = 0 then spaces else min spaces (indent - c.mark.column))
    let deepest := max deepest c.mark.column
    match c.peek? with
    | none => some ⟨breaks, deepest, c⟩
    | some ch =>
      if ch = '\t' && (indent = 0 || c.mark.column < indent) then none
      else if isBreak ch then margin? indent fuel (c.breakText ++ breaks) deepest (← c.passBreak)
      else some ⟨breaks, deepest, c⟩

/-- What was read of a block scalar: its lines, the break after the latest one, the empty lines
after that, all with the latest character first, and whether the latest line began with a blank. -/
structure BlockText where
  value : List Char
  lastBreak : List Char
  breaks : List Char
  blank : Bool

/-- Reads the lines of a block scalar that begin at column `indent`. -/
def blockLines? (literal : Bool) (indent : Nat) :
    Nat → BlockText → Cursor → Option (BlockText × Cursor)
  | 0, t, c => some (t, c)
  | fuel + 1, t, c =>
    match c.peek? with
    | none => some (t, c)
    | some ch =>
      if c.mark.column ≠ indent then some (t, c)
      else do
        let blank := isBlank ch
        let joint :=
          if !literal && !t.blank && !blank && t.lastBreak.head? = some '\n' then
            if t.breaks.isEmpty then [' '] else []
          else t.lastBreak
        let line := c.run fun ch => !isBreak ch
        let c ← c.pass 1 line.length
        let lastBreak := c.breakText
        let m ← margin? indent (c.limit + 1) [] 0 (← c.passBreak)
        let value := line.reverse ++ (t.breaks ++ (joint ++ t.value))
        blockLines? literal indent fuel ⟨value, lastBreak, m.breaks, blank⟩ m.cursor

/-- Reads a block scalar from its indicator on, inside a block at column `outer`. -/
def block? (literal : Bool) (outer : Int) (c : Cursor) : Option (List Char × Cursor) := do
  let (chomp, increment, c) ← blockHeader? (← c.pass 1 1)
  let c ← c.restOfLine?
  let given := if increment = 0 then 0 else outer.toNat + increment
  let m ← margin? given (c.limit + 1) [] 0 c
  let indent := if given = 0 then max (max m.deepest (outer + 1).toNat) 1 else given
  let (t, c) ← blockLines? literal indent (c.limit + 1) ⟨[], [], m.breaks, false⟩ m.cursor
  let value :=
    match chomp with
    | .strip => t.value
    | .clip => t.lastBreak ++ t.value
    | .keep => t.breaks ++ (t.lastBreak ++ t.value)
  some (value.reverse, c)

end Birdcall.Yaml
