import Birdcall.Text.Utf8

/-!
# Classes of characters

White space parts words, control characters never reach an output line, and reserved words are
recognised by their capitals.
-/

namespace Birdcall.Text

/-- Whether a character is white space (the Unicode property), which parts words. -/
def isBlank (c : Char) : Bool :=
  let n := c.toNat
  (0x9 ≤ n && n ≤ 0xD) || n == 0x20 || n == 0x85 || n == 0xA0 || n == 0x1680 ||
    (0x2000 ≤ n && n ≤ 0x200A) || n == 0x2028 || n == 0x2029 || n == 0x202F || n == 0x205F ||
    n == 0x3000

/-- Whether a character is one of the two blocks of control characters. -/
def isControl (c : Char) : Bool :=
  let n := c.toNat
  n ≤ 0x1F || (0x7F ≤ n && n ≤ 0x9F)

/-- The capital of a character where that is an ASCII character: of the ASCII letters, and of the
two letters outside ASCII whose capitals are in it, the dotless i and the long s.  Every other
character stays as it is, so a text without ASCII capitals never turns into one that has them. -/
def capital (c : Char) : Char :=
  let n := c.toNat
  if 0x61 ≤ n ∧ n ≤ 0x7A then Char.ofNat (n - 0x20)
  else if n = 0x131 then 'I'
  else if n = 0x17F then 'S'
  else c

/-- A text with its characters replaced by their ASCII capitals. -/
def capitals (t : Text) : Text := encode ((decode t).map capital)

end Birdcall.Text
