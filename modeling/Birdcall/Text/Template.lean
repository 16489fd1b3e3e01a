import Birdcall.Text.Quoted

/-!
# Templates

A log line is a template filled with texts.  A percent sign starts a place: flags, a width, a
precision and a letter.  `v` and `s` take a text as it stands, `q` quotes it, `x` and `X` show its
bytes, `T` says what it is, and a second percent sign stands for itself.  A number in brackets says
which text comes next.  A template never fails: a missing text, a text too many, an unknown letter,
a wrong number and a place without a letter all leave a note in the line.
-/

namespace Birdcall.Template

open Text

/-! ## Places -/

/-- How a place shows its text. -/
structure Place where
  left : Bool := false
  zeros : Bool := false
  sharp : Bool := false
  plus : Bool := false
  space : Bool := false
  width : Nat := 0
  precision : Option Nat := none

namespace Place

/-- Takes the flags at the front of a place. -/
def flags (p : Place) : Text → Place × Text
  | [] => (p, [])
  | b :: rest =>
    if b = byte '-' then flags { p with left := true } rest
    else if b = byte '0' then flags { p with zeros := true } rest
    else if b = byte '#' then flags { p with sharp := true } rest
    else if b = byte '+' then flags { p with plus := true } rest
    else if b = byte ' ' then flags { p with space := true } rest
    else (p, b :: rest)

/-- What fills `n` columns; zeros only on the left. -/
def filling (p : Place) (n : Nat) : Text :=
  List.replicate n (byte (if p.zeros && !p.left then '0' else ' '))

/-- Brings a text to the width of a place, counted in characters. -/
def pad (p : Place) (t : Text) : Text :=
  let missing := p.filling (p.width - (pieces t).length)
  if p.left then t ++ missing else missing ++ t

/-- The first `n` characters of a text; a byte that belongs to none counts as one. -/
def firstPieces : Nat → Text → Text
  | 0, _ => []
  | _ + 1, [] => []
  | n + 1, b :: rest =>
    let more := (piece b rest).2
    b :: rest.take more ++ firstPieces n (rest.drop more)

/-- Cuts a text to the precision of a place. -/
def cut (p : Place) (t : Text) : Text :=
  match p.precision with
  | none => t
  | some n => firstPieces n t

/-- A text in quotes, as the flags of a place ask for. -/
def quoted (p : Place) (t : Text) : Text :=
  let quote := if p.plus then quoteAscii else Text.quote
  if p.sharp then quoteBare quote t else quote t

/-- The bytes of a text in hexadecimal digits, one after the other or apart. -/
def bytes (p : Place) (capitals : Bool) (t : Text) : Text :=
  let heading := if p.sharp then [byte '0', byte (if capitals then 'X' else 'x')] else []
  let digits (b : UInt8) : Text :=
    (hex 2 b.toNat).map fun d => if capitals && 97 ≤ d then d - 32 else d
  let t := t.take (p.precision.getD t.length)
  if p.space then joinWith [byte ' '] (t.map fun b => heading ++ digits b)
  else if t.isEmpty then []
  else heading ++ t.flatMap digits

/-- A text in its place, by the letter of the place; none if the letter is unknown. -/
def show? (p : Place) (letter : Char) (t : Text) : Option Text :=
  match letter with
  | 'v' => some (p.pad (if p.sharp then (p.cut t).quote else p.cut t))
  | 's' => some (p.pad (p.cut t))
  | 'q' => some (p.pad (p.quoted (p.cut t)))
  | 'x' => some (p.pad (p.bytes false t))
  | 'X' => some (p.pad (p.bytes true t))
  | 'T' => some (p.pad (p.cut (ofString "string")))
  | _ => none

/-- A text under an unknown letter, as the note about it shows it. -/
def showPlain (p : Place) (letter : Char) (t : Text) : Text :=
  p.pad (if letter = 'w' && p.sharp then (p.cut t).quote else p.cut t)

end Place

/-! ## Notes -/

/-- A text with its type, as notes show it. -/
def typed (t : Text) : Text := ofString "string=" ++ t

/-- The note at the end of a line about texts that found no place. -/
def extra : List Text → Text
  | [] => []
  | args => ofString "%!(EXTRA " ++ joinWith (ofString ", ") (args.map typed) ++ ofString ")"

/-- A note about the letter of a place. -/
def complaint (letter : Char) (t : Text) : Text :=
  ofString "%!" ++ encodeChar letter ++ ofString "(" ++ t ++ ofString ")"

/-! ## Reading a template -/

/-- How far a template has been read. -/
structure Reading where
  rest : Text
  /-- Which text comes next, counted from zero. -/
  next : Nat
  /-- Whether a number in brackets was met. -/
  reordered : Bool
  /-- Whether the numbers of this place are right. -/
  sound : Bool
  /-- Whether a number in brackets came right before. -/
  numbered : Bool

/-- Takes the number at the front of a text, if there is one.  One far too large takes the whole
text with it. -/
def number? (n : Option Nat) : Text → Option Nat × Text
  | [] => (n, [])
  | b :: rest =>
    if isDigit b then
      if 1000000 < n.getD 0 then (none, [])
      else number? (some (n.getD 0 * 10 + (b.toNat - 48))) rest
    else (n, b :: rest)

namespace Reading

/-- The number between brackets at the front of a text, and what follows.  Without a closing bracket
only the opening one is taken. -/
def bracketed (t : Text) : Option Nat × Text :=
  match t with
  | _ :: a :: b :: rest =>
    match splitAt (byte ']') (a :: b :: rest) with
    | (_, none) => (none, a :: b :: rest)
    | (inside, some after) =>
      match number? none inside with
      | (some n, []) => (some n, after)
      | _ => (none, after)
  | _ => (none, t.tail)

/-- Takes a number in brackets, if one comes; `count` texts can be meant. -/
def index (count : Nat) (r : Reading) : Reading :=
  if r.rest.head? = some (byte '[') then
    match bracketed r.rest with
    | (some n, rest) =>
      if 0 < n ∧ n ≤ count then
        { r with rest := rest, next := n - 1, reordered := true, numbered := true }
      else { r with rest := rest, reordered := true, sound := false, numbered := true }
    | (none, rest) => { r with rest := rest, reordered := true, sound := false, numbered := false }
  else { r with numbered := false }

/-- Passes over a text that ought to be a number, if there is one. -/
def passStar (count : Nat) (r : Reading) : Reading :=
  { r with
    rest := r.rest.tail
    next := if r.next < count then r.next + 1 else r.next
    numbered := false }

/-- Takes the width of a place.  No text is a number, so a star leaves a note. -/
def width (count : Nat) (p : Place) (r : Reading) : Place × Text × Reading :=
  if r.rest.head? = some (byte '*') then (p, ofString "%!(BADWIDTH)", r.passStar count)
  else
    let (width, rest) := number? none r.rest
    ({ p with width := width.getD 0 }, [],
      { r with rest := rest, sound := r.sound && !(r.numbered && width.isSome) })

/-- Takes the precision of a place; a point alone is a precision of zero.  A point that ends the
template is no precision but a letter. -/
def precision (count : Nat) (p : Place) (r : Reading) : Place × Text × Reading :=
  if r.rest.head? = some (byte '.') && !r.rest.tail.isEmpty then
    let r := { r with rest := r.rest.tail, sound := r.sound && !r.numbered }.index count
    if r.rest.head? = some (byte '*') then (p, ofString "%!(BADPREC)", r.passStar count)
    else
      let (precision, rest) := number? none r.rest
      ({ p with precision := some (precision.getD 0) }, [], { r with rest := rest })
  else (p, [], r)

end Reading

/-! ## Filling -/

/-- The text of a place with the given letter, and which text comes next. -/
def place (args : List Text) (p : Place) (r : Reading) (letter : Char) : Text × Nat :=
  if letter = '%' then ([byte '%'], r.next)
  else if !r.sound then (complaint letter (ofString "BADINDEX"), r.next)
  else
    match args[r.next]? with
    | none => (complaint letter (ofString "MISSING"), r.next)
    | some t =>
      ((p.show? letter t).getD (complaint letter (typed (p.showPlain letter t))), r.next + 1)

/-- The note at the end of a line.  Texts left over say nothing if their order was changed. -/
def closing (args : List Text) (r : Reading) : Text :=
  if r.reordered then [] else extra (args.drop r.next)

/-- Fills a template; `fuel` bounds the places, of which there are fewer than bytes. -/
def fillFrom (args : List Text) : Nat → Reading → Text
  | 0, _ => []
  | fuel + 1, r =>
    match splitAt (byte '%') r.rest with
    | (before, none) => before ++ closing args r
    | (before, some rest) =>
      let (p, rest) := Place.flags {} rest
      let r := { r with rest := rest, sound := true }.index args.length
      let (p, wide, r) := r.width args.length p
      let (p, fine, r) := r.precision args.length p
      let r := if r.numbered then r else r.index args.length
      before ++ wide ++ fine ++
        match r.rest with
        | [] => ofString "%!(NOVERB)" ++ closing args r
        | b :: rest =>
          let letter := piece b rest
          let (shown, next) := place args p r letter.1.toChar
          shown ++ fillFrom args fuel { r with rest := rest.drop letter.2, next := next }

/-- A template with its places filled, in order. -/
def fill (template : Text) (args : List Text) : Text :=
  fillFrom args (template.length + 1) ⟨template, 0, false, true, false⟩

end Birdcall.Template
