/-!
# Text

Everything the library reads, names, prints and reports is a string of bytes, since input need not
be valid UTF-8.  This module holds the type, the spelling of numbers, and the few list operations
the rest of the library shares.  Characters are the subject of `Text.Utf8`.
-/

namespace Birdcall

/-- A string of bytes. -/
abbrev Text := List UInt8

namespace Text

/-- The byte of an ASCII character. -/
def byte (c : Char) : UInt8 := c.toNat.toUInt8

/-- The line feed, which ends a line. -/
def lineFeed : UInt8 := 10

/-! ## Numbers -/

/-- A natural number in decimal. -/
def ofNat (n : Nat) : Text := (Nat.toDigits 10 n).map byte

/-- An integer in decimal, with a minus sign if it is negative. -/
def ofInt : Int → Text
  | .ofNat n => ofNat n
  | .negSucc n => byte '-' :: ofNat (n + 1)

/-- The digit of a value below sixteen, in lower case. -/
def hexDigit (n : Nat) : UInt8 := if n < 10 then (48 + n).toUInt8 else (87 + n).toUInt8

/-- The lowest `width` hexadecimal digits of a number, highest first. -/
def hex : Nat → Nat → Text
  | 0, _ => []
  | width + 1, n => hex width (n / 16) ++ [hexDigit (n % 16)]

/-- The value of a hexadecimal digit of either case. -/
def hexValue? (b : UInt8) : Option Nat :=
  let n := b.toNat
  if 48 ≤ n ∧ n ≤ 57 then some (n - 48)
  else if 97 ≤ n ∧ n ≤ 102 then some (n - 87)
  else if 65 ≤ n ∧ n ≤ 70 then some (n - 55)
  else none

/-- Whether a byte is an ASCII digit. -/
def isDigit (b : UInt8) : Bool := 48 ≤ b && b ≤ 57

/-- The value of a string of decimal digits, highest first. -/
def decimalValue (t : Text) : Nat := t.foldl (fun n b => n * 10 + (b.toNat - 48)) 0

/-! ## Pieces -/

/-- `n` blanks. -/
def blanks (n : Nat) : Text := List.replicate n (byte ' ')

/-- A text moved to the right end of a field of `width` bytes. -/
def padLeft (width : Nat) (t : Text) : Text := blanks (width - t.length) ++ t

/-- The texts of a list one after the other, with `sep` between neighbours. -/
def joinWith (sep : Text) : List Text → Text
  | [] => []
  | [t] => t
  | t :: u :: rest => t ++ sep ++ joinWith sep (u :: rest)

/-- Whether `part` stands somewhere in `t`. -/
def contains (part : Text) : Text → Bool
  | [] => part.isEmpty
  | b :: rest => part.isPrefixOf (b :: rest) || contains part rest

/-- The text before the first `b`, and the text after it if there is one. -/
def splitAt (b : UInt8) : Text → Text × Option Text
  | [] => ([], none)
  | c :: rest =>
    if c = b then ([], some rest)
    else
      let (before, after) := splitAt b rest
      (c :: before, after)

/-- The text split at every `b`; there is one piece more than there are `b`s. -/
def splitOn (b : UInt8) : Text → List Text
  | [] => [[]]
  | c :: rest =>
    if c = b then [] :: splitOn b rest
    else
      match splitOn b rest with
      | [] => [[c]]
      | piece :: pieces => (c :: piece) :: pieces

end Text
end Birdcall
