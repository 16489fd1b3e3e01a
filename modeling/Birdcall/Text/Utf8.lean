import Birdcall.Text

/-!
# Characters in text

Text is read as UTF-8.  Every byte that belongs to no character stands for one replacement
character, so reading never fails and never skips anything.

* `front` looks at the beginning of a text: a character, a byte that starts none, or the beginning
  of a character that is cut off.
* `pieces` reads a whole text, `decode` shows its characters, `encode` writes characters back.
* `Valid` are the texts that reading and writing back leaves alone.
-/

namespace Birdcall.Text

/-- The character that stands for a byte that belongs to no character. -/
def replacement : Char := '�'

/-- The UTF-8 bytes of a character. -/
def encodeChar (c : Char) : Text :=
  let n := c.toNat
  if n < 0x80 then [n.toUInt8]
  else if n < 0x800 then [(0xC0 + n / 0x40).toUInt8, (0x80 + n % 0x40).toUInt8]
  else if n < 0x10000 then
    [(0xE0 + n / 0x1000).toUInt8, (0x80 + n / 0x40 % 0x40).toUInt8, (0x80 + n % 0x40).toUInt8]
  else
    [(0xF0 + n / 0x40000).toUInt8, (0x80 + n / 0x1000 % 0x40).toUInt8,
      (0x80 + n / 0x40 % 0x40).toUInt8, (0x80 + n % 0x40).toUInt8]

/-- The UTF-8 bytes of a list of characters. -/
def encode (cs : List Char) : Text := cs.flatMap encodeChar

/-- The UTF-8 bytes of a string. -/
def ofString (s : String) : Text := encode s.toList

/-! ## Reading one character -/

/-- What the first byte of a longer character asks for: its own bits, how many bytes follow, and
the range of the first of them.  The range leaves out the overlong forms, the surrogates and
everything past the last character. -/
structure Lead where
  bits : Nat
  tails : Nat
  low : Nat
  high : Nat

/-- The first bytes that start a character of two to four bytes. -/
def lead? (b : UInt8) : Option Lead :=
  let n := b.toNat
  if n < 0xC2 then none
  else if n < 0xE0 then some ⟨n - 0xC0, 1, 0x80, 0xBF⟩
  else if n = 0xE0 then some ⟨0, 2, 0xA0, 0xBF⟩
  else if n = 0xED then some ⟨0xD, 2, 0x80, 0x9F⟩
  else if n < 0xF0 then some ⟨n - 0xE0, 2, 0x80, 0xBF⟩
  else if n = 0xF0 then some ⟨0, 3, 0x90, 0xBF⟩
  else if n < 0xF4 then some ⟨n - 0xF0, 3, 0x80, 0xBF⟩
  else if n = 0xF4 then some ⟨4, 3, 0x80, 0x8F⟩
  else none

/-- What a text begins with. -/
inductive Front
  /-- A character of `size` bytes. -/
  | char (c : Char) (size : Nat)
  /-- A byte that starts no character. -/
  | invalid
  /-- The beginning of a character, and then the text ends. -/
  | cut
  deriving DecidableEq, Repr

/-- Takes the `owed` further bytes of a character whose bits so far are `bits`, each in the range
of a continuation byte; `size` counts the bytes taken. -/
def tails (bits size : Nat) : Nat → Text → Front
  | 0, _ => .char (Char.ofNat bits) size
  | _ + 1, [] => .cut
  | owed + 1, b :: rest =>
    if 0x80 ≤ b.toNat ∧ b.toNat ≤ 0xBF then
      tails (bits * 0x40 + (b.toNat - 0x80)) (size + 1) owed rest
    else .invalid

/-- What a text begins with; an empty text waits for more. -/
def front : Text → Front
  | [] => .cut
  | b :: rest =>
    if b.toNat < 0x80 then .char (Char.ofNat b.toNat) 1
    else
      match lead? b, rest with
      | none, _ => .invalid
      | some _, [] => .cut
      | some l, c :: more =>
        if l.low ≤ c.toNat ∧ c.toNat ≤ l.high then
          tails (l.bits * 0x40 + (c.toNat - 0x80)) 2 (l.tails - 1) more
        else .invalid

/-! ## Reading a whole text -/

/-- A character, or a byte that belongs to none. -/
inductive Piece
  | char (c : Char)
  | stray (b : UInt8)
  deriving DecidableEq, Repr

/-- The character a piece shows. -/
def Piece.toChar : Piece → Char
  | .char c => c
  | .stray _ => replacement

/-- The first piece of a text that begins with `b`, and how many bytes of `rest` it takes too. -/
def piece (b : UInt8) (rest : Text) : Piece × Nat :=
  match front (b :: rest) with
  | .char c size => (.char c, size - 1)
  | .invalid | .cut => (.stray b, 0)

/-- The pieces of a text, in order. -/
def pieces : Text → List Piece
  | [] => []
  | b :: rest =>
    let p := piece b rest
    p.1 :: pieces (rest.drop p.2)
termination_by t => t.length
decreasing_by simp only [List.length_drop, List.length_cons]; omega

/-- The characters of a text, with one replacement character for each byte that belongs to
none. -/
def decode (t : Text) : List Char := (pieces t).map Piece.toChar

/-- Whether a text is UTF-8 throughout: reading it and writing it back changes nothing. -/
def Valid (t : Text) : Prop := encode (decode t) = t

instance (t : Text) : Decidable t.Valid := inferInstanceAs (Decidable (_ = _))

end Birdcall.Text
