import Birdcall.Yaml.Supply

/-!
# Reading YAML character by character

The classes the format puts characters into, and a cursor that knows where in a text it stands.

A cursor sees only characters that have been loaded.  `Cursor.ensure` loads as many as a look ahead
takes, and `Cursor.pass` goes on while doing so.
-/

namespace Birdcall.Yaml

/-! ## Characters -/

/-- A space or a tab. -/
def isBlank (c : Char) : Bool := c = ' ' || c = '\t'

/-- A character that breaks a line. -/
def isBreak (c : Char) : Bool :=
  c = '\n' || c = '\r' || c = '\u0085' || c = '\u2028' || c = '\u2029'

/-- A letter, a digit, an underscore or a hyphen, all of ASCII. -/
def isWord (c : Char) : Bool := c.isAlphanum || c = '_' || c = '-'

/-! ## The cursor -/

/-- A place in a text: characters, lines and columns before it. -/
structure Mark where
  index : Nat
  line : Nat
  column : Nat
  deriving DecidableEq, Repr

/-- What remains of a text, where it begins, and how much of it has been loaded. -/
structure Cursor where
  rest : List Char
  mark : Mark
  /-- Whether nothing but blanks was passed since the latest line break. -/
  fresh : Bool
  /-- How many characters have been loaded.  Looking at the end of the text counts as loading one
  more. -/
  loaded : Nat
  /-- Whether a byte order mark came first where loading last began. -/
  marked : Bool
  /-- The sizes of the batches that have not been loaded. -/
  batches : List Nat
  /-- Whether the text ends after these batches, and not in a fault. -/
  sound : Bool
  /-- How many characters the whole text has: no loop over it takes more rounds. -/
  limit : Nat

namespace Cursor

/-- The beginning of a text. -/
def start (s : Supply) : Cursor :=
  ⟨s.characters, ⟨0, 0, 0⟩, false, 0, false, s.batches, s.sound, s.characters.length⟩

/-! ## Loading -/

/-- Loads batches until there are `n` characters; after the last batch the end counts as one.
Nothing if a fault comes. -/
def load (n : Nat) (sound : Bool) : Nat → List Nat → Option (Nat × List Nat)
  | loaded, [] => if sound then some (loaded + 1, []) else none
  | loaded, size :: rest =>
    if n ≤ loaded + size then some (loaded + size, rest) else load n sound (loaded + size) rest

/-- The cursor with `n` characters loaded, if no fault comes before. -/
def ensure (n : Nat) (c : Cursor) : Option Cursor :=
  if n ≤ c.loaded then some c
  else
    (load n c.sound c.loaded c.batches).map fun (loaded, batches) =>
      { c with loaded, batches, marked := c.rest.head? = some '\uFEFF' }

/-! ## Looking -/

/-- The character at the cursor. -/
def peek? (c : Cursor) : Option Char := c.rest.head?

/-- Whether the character at the cursor is a given one. -/
def isAt (c : Cursor) (ch : Char) : Bool := c.peek? = some ch

/-- Whether the text ends at the cursor, or a character of a class follows. -/
def endsOr (p : Char → Bool) (rest : List Char) : Bool :=
  match rest with
  | [] => true
  | ch :: _ => p ch

/-- Whether a blank, a line break or the end comes. -/
def atGap (rest : List Char) : Bool := endsOr (fun ch => isBlank ch || isBreak ch) rest

/-- Whether a line break or the end comes. -/
def atLineEnd (rest : List Char) : Bool := endsOr isBreak rest

/-- The characters of a class at the cursor. -/
def run (p : Char → Bool) (c : Cursor) : List Char := c.rest.takeWhile p

/-- Whether one of the marks that separate documents comes. -/
def atDocumentMark (c : Cursor) : Bool :=
  c.mark.column = 0 &&
    match c.rest with
    | '-' :: '-' :: '-' :: rest => atGap rest
    | '.' :: '.' :: '.' :: rest => atGap rest
    | _ => false

/-- What a line break at the cursor stands for in a scalar. -/
def breakText (c : Cursor) : List Char :=
  match c.rest with
  | [] => []
  | ch :: _ => if ch = '\u2028' || ch = '\u2029' then [ch] else ['\n']

/-! ## Going on -/

/-- The cursor `n` characters on, whatever they are, without loading more. -/
def skip (c : Cursor) (n : Nat) : Cursor :=
  { c with
    rest := c.rest.drop n
    mark := { c.mark with index := c.mark.index + n, column := c.mark.column + n }
    fresh := c.fresh && (c.rest.take n).all isBlank
    loaded := c.loaded - n }

/-- The cursor `n` characters on, with `k` characters loaded after each. -/
def pass (k : Nat) : Nat → Cursor → Option Cursor
  | 0, c => some c
  | n + 1, c => (ensure k (c.skip 1)).bind (pass k n)

/-- The cursor after the characters of a class, which has no line breaks in it. -/
def passWhile (p : Char → Bool) (c : Cursor) : Option Cursor :=
  (c.ensure 1).bind (pass 1 (c.run p).length)

/-- The cursor at the end of its line. -/
def toLineEnd (c : Cursor) : Option Cursor := c.passWhile fun ch => !isBreak ch

/-- The cursor `n` characters on in the next line. -/
def nextLine (c : Cursor) (n : Nat) : Cursor :=
  { c with
    rest := c.rest.drop n
    mark := ⟨c.mark.index + n, c.mark.line + 1, 0⟩
    fresh := true
    loaded := c.loaded - n }

/-- The cursor after a line break, which may be a pair of characters; the end of the text breaks no
line. -/
def passBreak (c : Cursor) : Option Cursor :=
  (c.ensure 2).map fun c =>
    match c.rest with
    | [] => c
    | '\r' :: '\n' :: _ => c.nextLine 2
    | _ => c.nextLine 1

/-- The cursor in the next line, if nothing but blanks and a comment comes before. -/
def restOfLine? (c : Cursor) : Option Cursor := do
  let c ← c.passWhile isBlank
  let c ← if c.isAt '#' then c.toLineEnd else some c
  if c.rest.isEmpty then some c else if atLineEnd c.rest then c.passBreak else none

/-- The cursor after a comment on the line, if only blanks come before it. -/
def passComment (c : Cursor) : Option Cursor :=
  let blanks := (c.run isBlank).length
  (c.ensure (min (blanks + 1) 512)).bind fun c =>
    if blanks < 512 && (c.rest.drop blanks).head? = some '#' then
      (c.pass 1 blanks).bind toLineEnd
    else some c

end Cursor
end Birdcall.Yaml
