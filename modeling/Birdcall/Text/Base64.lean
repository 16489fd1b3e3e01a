import Birdcall.Text

/-!
# Base 64

Three bytes are written as four characters of six bits each; a shorter last group is filled up with
`=`.  Reading passes over line breaks and refuses everything else that writing does not give,
except that unused bits at the end are not looked at.
-/

namespace Birdcall.Text.Base64

/-- The character of six bits. -/
def digit (n : Nat) : UInt8 :=
  if n < 26 then (65 + n).toUInt8
  else if n < 52 then (71 + n).toUInt8
  else if n < 62 then (n - 4).toUInt8
  else if n = 62 then byte '+'
  else byte '/'

/-- The six bits of a character. -/
def value? (b : UInt8) : Option Nat :=
  let n := b.toNat
  if 65 ≤ n ∧ n ≤ 90 then some (n - 65)
  else if 97 ≤ n ∧ n ≤ 122 then some (n - 71)
  else if 48 ≤ n ∧ n ≤ 57 then some (n + 4)
  else if b = byte '+' then some 62
  else if b = byte '/' then some 63
  else none

/-- The filler. -/
def filler : UInt8 := byte '='

/-- Writes bytes in base 64. -/
def encode : Text → Text
  | [] => []
  | [a] => [digit (a.toNat / 4), digit (a.toNat % 4 * 16), filler, filler]
  | [a, b] =>
    [digit (a.toNat / 4), digit (a.toNat % 4 * 16 + b.toNat / 16), digit (b.toNat % 16 * 4), filler]
  | a :: b :: c :: rest =>
    digit (a.toNat / 4) :: digit (a.toNat % 4 * 16 + b.toNat / 16) ::
      digit (b.toNat % 16 * 4 + c.toNat / 64) :: digit (c.toNat % 64) :: encode rest

/-- Reads groups of four characters, fillers in the last one only. -/
def groups : Text → Option Text
  | [] => some []
  | p :: q :: r :: s :: rest => do
    let p ← value? p
    let q ← value? q
    let first := (p * 4 + q / 16).toUInt8
    if r = filler then
      if s = filler ∧ rest.isEmpty then some [first] else none
    else
      let r ← value? r
      let second := (q % 16 * 16 + r / 4).toUInt8
      if s = filler then
        if rest.isEmpty then some [first, second] else none
      else
        let s ← value? s
        let more ← groups rest
        some (first :: second :: (r % 4 * 64 + s).toUInt8 :: more)
  | _ => none

/-- Reads base 64. -/
def decode (t : Text) : Option Text := groups (t.filter fun b => b != 10 && b != 13)

end Birdcall.Text.Base64
