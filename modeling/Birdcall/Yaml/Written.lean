import Birdcall.Yaml.Cursor
import Birdcall.Yaml.Value

/-!
# Writing texts as scalars

A text is written plain if it then reads back as the same text.  One that would mean something else
is put in double quotes, one that would be cut or misread in single quotes if they can hold it, and
one of several lines becomes a block.  Double quotes can hold everything.  A text that is not valid
UTF-8 is written as binary data.
-/

namespace Birdcall.Yaml.Written

/-! ## Looks of a text -/

/-- Whether a character can stand in a scalar as it is. -/
def isPrintable (c : Char) : Bool :=
  let n := c.toNat
  n = 0x0A || (0x20 ≤ n && n ≤ 0x7E) || (0xA0 ≤ n && n ≤ 0xFFFD && n ≠ 0xFEFF)

/-- Words that once meant truth values. -/
def oldTruths : List String :=
  ["y", "Y", "yes", "Yes", "YES", "on", "On", "ON", "n", "N", "no", "No", "NO", "off", "Off", "OFF"]

/-- Whether a text is one place of a number in base sixty. -/
def isSixtieth : Text → Bool
  | [b] => Text.isDigit b
  | [a, b] => 48 ≤ a && a ≤ 53 && Text.isDigit b
  | _ => false

/-- Whether a text consists of digits and separators. -/
def isDigits (t : Text) : Bool := t.all fun b => Text.isDigit b || b = Text.byte '_'

/-- Whether a text is a number in base sixty, which once was a float: places between colons, and
perhaps a fraction behind. -/
def isBaseSixty (t : Text) : Bool :=
  match Text.splitOn (Text.byte ':') t with
  | [] | [_] => false
  | whole :: places =>
    let whole := Text.unsignedPart whole
    let (last, fraction) := Text.splitAt (Text.byte '.') (places.getLast?.getD [])
    whole.head?.any Text.isDigit && isDigits whole && places.dropLast.all isSixtieth &&
      isSixtieth last && fraction.all isDigits

/-- Whether a text read back plain means the text itself, also to older readers. -/
def meansItself (t : Text) : Bool :=
  (Value.ofPlain true t).1 = .str && !isBaseSixty t && !oldTruths.any (Text.ofString · = t)

/-- Whether a text begins or goes on with characters that mean something in a block. -/
def hasIndicator (before : Option Char) : List Char → Bool
  | [] => false
  | c :: rest =>
    let followed := rest.isEmpty || rest.head?.any isBlank
    let here :=
      match before with
      | none =>
        "#,[]\x7b\x7d&*!|>'\"%@`".toList.contains c || ((c = '?' || c = ':' || c = '-') && followed)
      | some b => (c = ':' && followed) || (c = '#' && (isBlank b || isBreak b || b = '\x00'))
    here || hasIndicator (some c) rest

/-- Whether a text begins like a mark between documents. -/
def beginsLikeMark : List Char → Bool
  | '-' :: '-' :: '-' :: _ => true
  | '.' :: '.' :: '.' :: _ => true
  | _ => false

/-- Whether a character of one class is right before one of another. -/
def hasPair (p q : Char → Bool) : List Char → Bool
  | a :: b :: rest => (p a && q b) || hasPair p q (b :: rest)
  | _ => false

/-- What decides how a text can be written. -/
structure Looks where
  indicators : Bool
  breaks : Bool
  tabs : Bool
  specials : Bool
  /-- Whether the first character is a space or a line break. -/
  opensWide : Bool
  /-- Whether the last character is a space or a line break. -/
  closesWide : Bool
  closesWithSpace : Bool
  breakSpace : Bool
  spaceBreak : Bool

/-- The looks of a text. -/
def looks (cs : List Char) : Looks where
  indicators := beginsLikeMark cs || hasIndicator none cs
  breaks := cs.any isBreak
  tabs := cs.contains '\t'
  specials := cs.any fun c => c != '\t' && !isPrintable c
  opensWide := cs.head?.any fun c => c = ' ' || isBreak c
  closesWide := cs.getLast?.any fun c => c = ' ' || isBreak c
  closesWithSpace := cs.getLast? = some ' '
  breakSpace := hasPair isBreak (· = ' ') cs
  spaceBreak := hasPair (· = ' ') isBreak cs

namespace Looks

/-- Whether a text can be written plain. -/
def plain (l : Looks) : Bool :=
  !(l.opensWide || l.closesWide || l.breakSpace || l.spaceBreak || l.tabs || l.specials ||
    l.breaks || l.indicators)

/-- Whether a text can be written in single quotes. -/
def single (l : Looks) : Bool := !(l.breakSpace || l.spaceBreak || l.tabs || l.specials)

/-- Whether a text can be written as a block. -/
def block (l : Looks) : Bool := !(l.closesWithSpace || l.spaceBreak || l.specials)

end Looks

/-! ## Ways to write -/

/-- Hexadecimal digits in capitals. -/
def bigHex (width n : Nat) : List Char :=
  (Text.hex width n).map fun b => Char.toUpper (Char.ofNat b.toNat)

/-- A character behind a backslash. -/
def escape (c : Char) : List Char :=
  match c.toNat with
  | 0x00 => ['\\', '0']
  | 0x07 => ['\\', 'a']
  | 0x08 => ['\\', 'b']
  | 0x09 => ['\\', 't']
  | 0x0A => ['\\', 'n']
  | 0x0B => ['\\', 'v']
  | 0x0C => ['\\', 'f']
  | 0x0D => ['\\', 'r']
  | 0x1B => ['\\', 'e']
  | 0x22 => ['\\', '"']
  | 0x5C => ['\\', '\\']
  | 0x85 => ['\\', 'N']
  | 0xA0 => ['\\', '_']
  | 0x2028 => ['\\', 'L']
  | 0x2029 => ['\\', 'P']
  | n =>
    if n ≤ 0xFF then '\\' :: 'x' :: bigHex 2 n
    else if n ≤ 0xFFFF then '\\' :: 'u' :: bigHex 4 n
    else '\\' :: 'U' :: bigHex 8 n

/-- A text in double quotes.  Behind a byte order mark at its beginning every character is
escaped. -/
def doubleQuoted (cs : List Char) : List Char :=
  let marked := cs.head? = some '\uFEFF'
  let inside := cs.flatMap fun c =>
    if marked || !isPrintable c || isBreak c || c = '"' || c = '\\' then escape c else [c]
  '"' :: inside ++ ['"']

/-- The inside of single quotes.  The line after a line break begins at column `indent`. -/
def singleInside (indent : Nat) (broken : Bool) : List Char → List Char
  | [] => []
  | c :: rest =>
    if c = ' ' then c :: singleInside indent broken rest
    else if isBreak c then
      (if !broken && c = '\n' then [c, c] else [c]) ++ singleInside indent true rest
    else
      (if broken then List.replicate indent ' ' else []) ++ (if c = '\'' then [c, c] else [c]) ++
        singleInside indent false rest

/-- A text in single quotes. -/
def singleQuoted (indent : Nat) (cs : List Char) : List Char :=
  '\'' :: singleInside indent false cs ++ ['\'']

/-- What stands behind the bar of a block: how far in its lines are, if that cannot be seen, and
what is to become of its last line breaks. -/
def blockSigns (step : Nat) (cs : List Char) : List Char :=
  (if cs.head?.any fun c => c = ' ' || isBreak c then Nat.toDigits 10 step else []) ++
    match cs.reverse with
    | [] => ['-']
    | [c] => if isBreak c then ['+'] else ['-']
    | c :: d :: _ => if isBreak c then if isBreak d then ['+'] else [] else ['-']

/-- The lines of a block.  The first line ends the line of the bar, and so does a line break in
front of it. -/
def blockBody (indent : Nat) (atStart broken : Bool) : List Char → List Char
  | [] => []
  | c :: rest =>
    if isBreak c then c :: blockBody indent true true rest
    else
      (if broken then (if atStart then [] else ['\n']) ++ List.replicate indent ' ' else []) ++
        c :: blockBody indent false false rest

/-- A text as a block of lines. -/
def block (step indent : Nat) (cs : List Char) : List Char :=
  '|' :: blockSigns step cs ++ blockBody indent false true cs

/-- The lines of a text, each with a line feed behind.  All but the last hold `more` bytes and
one. -/
def lines (more : Nat) : Text → Text
  | [] => []
  | b :: rest => b :: rest.take more ++ Text.lineFeed :: lines more (rest.drop more)
termination_by t => t.length
decreasing_by simp only [List.length_drop, List.length_cons]; omega

/-- Cuts a text into lines if it is not shorter than one. -/
def cut (width : Nat) (t : Text) : Text :=
  if t.length < width then t else lines (width - 1) t

/-- A text as a scalar in a block whose lines begin at column `indent`, `step` columns further in
than the ones around it. -/
def scalar (step indent : Nat) (t : Text) : Text :=
  let (heading, own, t) :=
    if Text.Valid t then ("", meansItself t, t)
    else ("!!binary ", true, cut 70 (Text.Base64.encode t))
  let cs := Text.decode t
  let l := looks cs
  let written :=
    if cs.contains '\n' then
      if l.block then block step indent cs else doubleQuoted cs
    else if own then
      if cs.isEmpty || l.plain then cs
      else if l.single then singleQuoted indent cs
      else doubleQuoted cs
    else doubleQuoted cs
  Text.ofString heading ++ Text.encode written

/-- Whether a scalar ends with a line break of its own. -/
def endsLine (t : Text) : Bool := (Text.decode t).getLast?.any isBreak

end Birdcall.Yaml.Written
