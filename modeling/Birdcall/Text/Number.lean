import Birdcall.Text

/-!
# Reading integers

An integer is read in the base that its beginning names: `0x` hexadecimal, `0b` binary, `0o` or a
mere `0` octal, anything else decimal.  Underscores may stand between digits.  Integers have 64
bits, and one that has more is told apart from a text that is no integer.
-/

namespace Birdcall.Text

/-- Why a text is not an integer. -/
inductive NumberError
  | malformed
  | outOfRange
  deriving DecidableEq, Repr

/-- The letter of a byte in lower case, and any other byte as it is. -/
def lower (b : UInt8) : UInt8 := if 65 ≤ b && b ≤ 90 then b + 32 else b

/-- The value of a digit, with letters for the values from ten on. -/
def digitValue? (b : UInt8) : Option Nat :=
  let n := (lower b).toNat
  if 48 ≤ n ∧ n ≤ 57 then some (n - 48)
  else if 97 ≤ n ∧ n ≤ 122 then some (n - 87)
  else none

/-- The largest number of 64 bits. -/
def maxNatural : Nat := 0xFFFFFFFFFFFFFFFF

/-- The least number that an integer of 64 bits cannot hold. -/
def integerLimit : Nat := 0x8000000000000000

/-- Reads digits after those that gave `n`, up to the first fault. -/
def digitsFrom (base n : Nat) : Text → Except NumberError Nat
  | [] => .ok n
  | b :: rest =>
    match digitValue? b with
    | none => .error .malformed
    | some d =>
      if base ≤ d then .error .malformed
      else if maxNatural < n * base + d then .error .outOfRange
      else digitsFrom base (n * base + d) rest

/-! ## Separators -/

/-- What stood before a byte of a number. -/
inductive Before
  | digit
  | separator
  | other
  deriving DecidableEq, Repr

/-- Whether every underscore stands between digits. -/
def separatedFrom (isDigit : UInt8 → Bool) (before : Before) : Text → Bool
  | [] => before != .separator
  | b :: rest =>
    if isDigit b then separatedFrom isDigit .digit rest
    else if b = byte '_' then before == .digit && separatedFrom isDigit .separator rest
    else before != .separator && separatedFrom isDigit .other rest

/-- A number without its sign. -/
def unsignedPart : Text → Text
  | b :: rest => if b = byte '+' || b = byte '-' then rest else b :: rest
  | [] => []

/-- Whether every underscore in a number stands between digits, where the letters that name the
base count as one. -/
def separated (t : Text) : Bool :=
  match unsignedPart t with
  | z :: x :: rest =>
    let x := lower x
    if z = byte '0' && (x = byte 'b' || x = byte 'o' || x = byte 'x') then
      separatedFrom (fun b => isDigit b || (x = byte 'x' && (hexValue? b).isSome)) .digit rest
    else separatedFrom isDigit .other (unsignedPart t)
  | u => separatedFrom isDigit .other u

/-- A text without its underscores. -/
def dropSeparators (t : Text) : Text := t.filter (· != byte '_')

/-! ## Integers -/

/-- The base that the beginning of a number names, and the digits after it. -/
def splitBase : Text → Nat × Text
  | z :: x :: d :: rest =>
    if z = byte '0' then
      match (lower x).toNat with
      | 98 => (2, d :: rest)
      | 111 => (8, d :: rest)
      | 120 => (16, d :: rest)
      | _ => (8, x :: d :: rest)
    else (10, z :: x :: d :: rest)
  | z :: rest => if z = byte '0' then (8, rest) else (10, z :: rest)
  | [] => (10, [])

/-- Reads a natural number in a given base, without separators. -/
def naturalIn (base : Nat) (t : Text) : Except NumberError Nat :=
  if t.isEmpty then .error .malformed else digitsFrom base 0 t

/-- Reads a natural number in the base that it names. -/
def natural (t : Text) : Except NumberError Nat :=
  if t.isEmpty then .error .malformed
  else do
    let (base, digits) := splitBase t
    let n ← digitsFrom base 0 (dropSeparators digits)
    if digits.any (· = byte '_') && !separated t then throw .malformed
    pure n

/-- Reads a sign, if there is one, and a number after it. -/
def signed (read : Text → Except NumberError Nat) (t : Text) : Except NumberError Int :=
  let negative := t.head? = some (byte '-')
  match read (unsignedPart t) with
  | .error e => .error e
  | .ok n =>
    if negative then if n ≤ integerLimit then .ok (-n) else .error .outOfRange
    else if n < integerLimit then .ok n
    else .error .outOfRange

/-- Reads an integer in the base that it names. -/
def integer (t : Text) : Except NumberError Int := signed natural t

/-- Reads an integer in a given base. -/
def integerIn (base : Nat) (t : Text) : Except NumberError Int := signed (naturalIn base) t

end Birdcall.Text
