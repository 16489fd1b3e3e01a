import Birdcall.Text.Printable
import Birdcall.Text.Utf8

/-!
# Quoted text

A name in a message is put between quotes so that it shows whatever bytes it holds: printable
characters stand for themselves, the quote and the backslash are escaped, the common controls have
one letter, and everything else is written in hexadecimal, a byte outside any character too.
-/

namespace Birdcall.Text

/-- The letter that names a control character after a backslash. -/
def controlLetter? (c : Char) : Option Char :=
  match c.toNat with
  | 7 => some 'a'
  | 8 => some 'b'
  | 12 => some 'f'
  | 10 => some 'n'
  | 13 => some 'r'
  | 9 => some 't'
  | 11 => some 'v'
  | _ => none

/-- A character written with ASCII alone: two hexadecimal digits below the end of ASCII, else four,
else eight. -/
def escapeChar (c : Char) : Text :=
  match controlLetter? c with
  | some letter => [byte '\\', byte letter]
  | none =>
    let n := c.toNat
    if n ≤ 0x7F then byte '\\' :: byte 'x' :: hex 2 n
    else if n < 0x10000 then byte '\\' :: byte 'u' :: hex 4 n
    else byte '\\' :: byte 'U' :: hex 8 n

/-- A character inside the quotes `mark`.  What `shows` holds of stands for itself. -/
def quoteChar (shows : Char → Bool) (mark c : Char) : Text :=
  if c = mark ∨ c = '\\' then byte '\\' :: encodeChar c
  else if shows c then encodeChar c
  else escapeChar c

/-- A piece of text inside double quotes. -/
def quotePiece (shows : Char → Bool) : Piece → Text
  | .char c => quoteChar shows '"' c
  | .stray b => byte '\\' :: byte 'x' :: hex 2 b.toNat

/-- A text between double quotes, in which the characters that `shows` holds of stand for
themselves. -/
def quoteShowing (shows : Char → Bool) (t : Text) : Text :=
  byte '"' :: (pieces t).flatMap (quotePiece shows) ++ [byte '"']

/-- A text between double quotes. -/
def quote (t : Text) : Text := quoteShowing isPrintable t

/-- A text between double quotes, written with ASCII alone. -/
def quoteAscii (t : Text) : Text :=
  quoteShowing (fun c => decide (c.toNat < 0x80) && isPrintable c) t

/-- A character between single quotes. -/
def quoteSingle (c : Char) : Text := byte '\'' :: quoteChar isPrintable '\'' c ++ [byte '\'']

/-! ## Bare quotes -/

/-- The quote between which a text stands as it is. -/
def bareMark : Char := Char.ofNat 0x60

/-- Whether a text can stand as it is between bare quotes: one line of whole characters without a
control, a byte order mark or the quote itself. -/
def isBare (t : Text) : Bool :=
  (pieces t).all fun
    | .char c =>
      (c = '\t' || 0x20 ≤ c.toNat) && c ≠ bareMark && c.toNat ≠ 0x7F && c.toNat ≠ 0xFEFF
    | .stray _ => false

/-- A text between bare quotes if it can stand there, else between double quotes. -/
def quoteBare (otherwise : Text → Text) (t : Text) : Text :=
  if isBare t then byte bareMark :: t ++ [byte bareMark] else otherwise t

end Birdcall.Text
