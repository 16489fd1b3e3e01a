import Birdcall.Text.Utf8

/-!
# The characters of a YAML text

A byte order mark tells how a text is encoded.  Its bytes are turned into characters in batches, a
batch at a time as reading gets there, so a fault in a text shows only when reading gets to its
batch.  `Supply.ofText` gives the characters of the batches before the first fault.
-/

namespace Birdcall.Yaml

/-- Whether a character may stand in a YAML text. -/
def isAllowed (c : Char) : Bool :=
  let n := c.toNat
  n = 0x09 || n = 0x0A || n = 0x0D || (0x20 ≤ n && n ≤ 0x7E) || n = 0x85 ||
    (0xA0 ≤ n && n ≤ 0xFFFD) || 0x10000 ≤ n

/-! ## Encodings -/

/-- How characters are written as bytes. -/
inductive Encoding
  | bytes
  /-- Units of two bytes, of which the lower one comes first or last. -/
  | pairs (lowerFirst : Bool)
  deriving DecidableEq, Repr

/-- What some bytes begin with. -/
inductive Front
  /-- A character, with the bytes after it. -/
  | character (c : Char) (rest : Text)
  /-- A part of a character, or nothing. -/
  | unfinished
  | invalid

namespace Encoding

/-- The encoding of a text, and the length of the mark that tells it. -/
def ofText : Text → Encoding × Nat
  | 0xFF :: 0xFE :: _ => (pairs true, 2)
  | 0xFE :: 0xFF :: _ => (pairs false, 2)
  | 0xEF :: 0xBB :: 0xBF :: _ => (bytes, 3)
  | _ => (bytes, 0)

/-- How many bytes a character has, by the first of them. -/
def width? (b : UInt8) : Option Nat :=
  if b &&& 0x80 = 0 then some 1
  else if b &&& 0xE0 = 0xC0 then some 2
  else if b &&& 0xF0 = 0xE0 then some 3
  else if b &&& 0xF8 = 0xF0 then some 4
  else none

/-- The value of a unit of two bytes. -/
def unit (lowerFirst : Bool) (a b : UInt8) : Nat :=
  if lowerFirst then a.toNat + 256 * b.toNat else 256 * a.toNat + b.toNat

/-- What some bytes begin with.  Two surrogates make one character. -/
def front (e : Encoding) (t : Text) : Front :=
  match e with
  | bytes =>
    match t with
    | [] => .unfinished
    | b :: rest =>
      match width? b with
      | none => .invalid
      | some width =>
        if (t.take width).length < width then .unfinished
        else
          match Text.piece b rest with
          | (.char c, more) => .character c (rest.drop more)
          | (.stray _, _) => .invalid
  | pairs lowerFirst =>
    match t with
    | a :: b :: rest =>
      let high := unit lowerFirst a b
      if 0xDC00 ≤ high ∧ high ≤ 0xDFFF then .invalid
      else if 0xD800 ≤ high ∧ high ≤ 0xDBFF then
        match rest with
        | c :: d :: rest =>
          let low := unit lowerFirst c d
          if 0xDC00 ≤ low ∧ low ≤ 0xDFFF then
            .character (Char.ofNat (0x10000 + (high - 0xD800) * 0x400 + (low - 0xDC00))) rest
          else .invalid
        | _ => .unfinished
      else .character (Char.ofNat high) rest
    | _ => .unfinished

/-- The characters that some bytes hold, and the bytes left over because a character is unfinished.
Nothing if a character is invalid or may not stand in a YAML text.  There are at most `fuel`. -/
def characters? (e : Encoding) : Nat → Text → Option (List Char × Text)
  | 0, t => some ([], t)
  | fuel + 1, t =>
    match e.front t with
    | .unfinished => some ([], t)
    | .invalid => none
    | .character c rest =>
      if isAllowed c then (e.characters? fuel rest).map fun (cs, left) => (c :: cs, left) else none

/-- How many bytes make a batch. -/
def batchSize : Nat := 512

/-- The batches of a text, of which the first has `size` bytes, up to the first fault, and whether
there is none. -/
def batches (e : Encoding) : Nat → Nat → Text → List (List Char) × Bool
  | 0, _, _ => ([], false)
  | _ + 1, _, [] => ([], true)
  | fuel + 1, size, t =>
    let window := t.take size
    match e.characters? window.length window with
    | none | some ([], _) => ([], false)
    | some (cs, left) =>
      let (more, sound) := e.batches fuel batchSize (t.drop (window.length - left.length))
      (cs :: more, sound)

end Encoding

/-! ## Supplies -/

/-- The characters of a text up to the batch with the first fault in it. -/
structure Supply where
  characters : List Char
  /-- How many characters each batch has. -/
  batches : List Nat
  /-- Whether the text ends after these characters, and not in a fault. -/
  sound : Bool

/-- The characters of a text.  The mark at its beginning is none of them. -/
def Supply.ofText (t : Text) : Supply :=
  let (e, mark) := Encoding.ofText t
  let (batches, sound) := e.batches (t.length + 1) (Encoding.batchSize - mark) (t.drop mark)
  ⟨batches.flatten, batches.map List.length, sound⟩

end Birdcall.Yaml
