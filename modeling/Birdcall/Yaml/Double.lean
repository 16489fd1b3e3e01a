import Birdcall.Text.Number

/-!
# Floating-point numbers

A decimal fraction stands for the nearest number of 53 binary digits, the even one of two that are
equally near.  All of it is exact arithmetic on natural numbers.  A number is kept in one form only
(`Double.normal`), so numbers are equal if their parts are, apart from the two zeros.
-/

namespace Birdcall.Yaml

/-- A binary floating-point number. -/
inductive Double
  /-- A mantissa times a power of two. -/
  | finite (negative : Bool) (mantissa : Nat) (exponent : Int)
  | infinite (negative : Bool)
  | nan
  deriving DecidableEq, Repr

namespace Double

/-- The nearest integer to a fraction; a half goes to the even neighbour. -/
def nearest (num den : Nat) : Nat :=
  let q := num / den
  let r := num % den
  if 2 * r < den then q else if den < 2 * r then q + 1 else q + q % 2

/-- A fraction divided by a power of two. -/
def scale (num den : Nat) (e : Int) : Nat × Nat :=
  if 0 ≤ e then (num, den <<< e.toNat) else (num <<< (-e).toNat, den)

/-- The exponent that leaves a fraction with 53 binary digits before the point. -/
def exponentOf (num den : Nat) : Int :=
  let e : Int := (num.log2 : Int) - den.log2 - 52
  let (n, d) := scale num den e
  if n / d < 1 <<< 52 then e - 1 else e

/-- A mantissa of at most `2 ^ 53` times a power of two, with the mantissa below that, and zero
without a power. -/
def normal (negative : Bool) (mantissa : Nat) (exponent : Int) : Double :=
  if mantissa = 0 then finite negative 0 0
  else if mantissa = 1 <<< 53 then finite negative (1 <<< 52) (exponent + 1)
  else finite negative mantissa exponent

/-- The number nearest to a positive fraction, unless it is too large. -/
def ofFraction (negative : Bool) (num den : Nat) : Option Double :=
  let e := max (exponentOf num den) (-1074)
  let (n, d) := scale num den e
  let m := nearest n d
  if 0 ≤ e ∧ 1 <<< 1024 ≤ m <<< e.toNat then none else some (normal negative m e)

/-- The number nearest to `digits * 10 ^ exponent`, unless it is too large. -/
def ofDecimal (negative : Bool) (digits : Text) (exponent : Int) : Option Double :=
  let digits := digits.dropWhile (· = 48)
  let place : Int := digits.length + exponent
  if digits.isEmpty ∨ place < -330 then some (finite negative 0 0)
  else if 310 < place then none
  else
    let n := Text.decimalValue digits
    if 0 ≤ exponent then ofFraction negative (n * Nat.pow 10 exponent.toNat) 1
    else ofFraction negative n (Nat.pow 10 (-exponent).toNat)

/-- The number that the digits of an exponent mean; digits after it has reached ten thousand do not
count. -/
def exponentValue (digits : Text) : Nat :=
  digits.foldl (fun n d => if n < 10000 then n * 10 + (d.toNat - 48) else n) 0

/-- Reads the exponent part of a decimal number, which may be missing. -/
def exponentPart : Text → Option Int
  | [] => some 0
  | e :: rest =>
    if Text.lower e = Text.byte 'e' then
      let digits := Text.unsignedPart rest
      if digits.isEmpty || !digits.all Text.isDigit then none
      else
        let n : Int := exponentValue digits
        some (if rest.head? = some (Text.byte '-') then -n else n)
    else none

/-- Reads a decimal number: a sign, digits with a point somewhere or none, and an exponent. -/
def read (t : Text) : Option Double := do
  let negative := t.head? = some (Text.byte '-')
  let u := Text.unsignedPart t
  let whole := u.takeWhile Text.isDigit
  let rest := u.dropWhile Text.isDigit
  let (fraction, rest) :=
    match rest with
    | 46 :: rest => (rest.takeWhile Text.isDigit, rest.dropWhile Text.isDigit)
    | rest => ([], rest)
  if whole.isEmpty && fraction.isEmpty then none
  else
    let e ← exponentPart rest
    ofDecimal negative (whole ++ fraction) (e - fraction.length)

/-- Whether two numbers are equal: the zeros are, and what is not a number equals nothing. -/
def equals : Double → Double → Bool
  | finite s m e, finite s' m' e' => m = m' && e = e' && (s = s' || m = 0)
  | infinite s, infinite s' => s = s'
  | _, _ => false

/-- The magnitude without its fraction. -/
def wholePart (mantissa : Nat) (exponent : Int) : Nat :=
  if 0 ≤ exponent then mantissa <<< exponent.toNat else mantissa >>> (-exponent).toNat

/-- The number without its fraction, as an integer of 64 bits.  Numbers above the limit have none,
and the other ones that do not fit become the least integer. -/
def toInteger? : Double → Option Int
  | nan => none
  | infinite negative => if negative then some (-Text.integerLimit) else none
  | finite negative m e =>
    let n := wholePart m e
    if negative then some (if n ≤ Text.integerLimit then -n else -Text.integerLimit)
    else if n < Text.integerLimit then some n
    else if n = Text.integerLimit then some (-Text.integerLimit)
    else none

end Double
end Birdcall.Yaml
