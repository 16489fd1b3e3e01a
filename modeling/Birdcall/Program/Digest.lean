import Birdcall.Program

/-!
# Digests

A program is filed under a digest of its content: the xxHash64 value, with seed zero, of the
program's canonical bytes.  The canonical bytes of an instruction are its operation, its symbol,
the length of its name, the name, and the end of its body; lengths and ends are written in groups
of seven bits, lowest first, ends with their sign folded into the lowest bit.
-/

namespace Birdcall

/-! ## Canonical bytes -/

namespace Canonical

/-- A number in groups of seven bits, lowest first; all but the last have the high bit set. -/
def number (n : Nat) : Text :=
  if n < 128 then [n.toUInt8] else (n % 128 + 128).toUInt8 :: number (n / 128)

/-- Folds the sign of an integer into the lowest bit. -/
def fold : Int → Nat
  | .ofNat n => 2 * n
  | .negSucc n => 2 * n + 1

/-- The canonical bytes of an instruction. -/
def instruction (i : Instruction) : Text :=
  i.op.code :: i.symbol.code :: number i.name.length ++ i.name ++ number (fold i.last)

/-- The canonical bytes of a program. -/
def program (p : Program) : Text := p.flatMap instruction

end Canonical

/-! ## xxHash64 -/

namespace Digest

def prime1 : UInt64 := 11400714785074694791
def prime2 : UInt64 := 14029467366897019727
def prime3 : UInt64 := 1609587929392839161
def prime4 : UInt64 := 9650029242287828579
def prime5 : UInt64 := 2870177450012600261

/-- Turns the bits of a word to the left. -/
def rotate (x n : UInt64) : UInt64 := (x <<< n) ||| (x >>> (64 - n))

/-- The number that bytes spell, lowest byte first. -/
def word (t : Text) : UInt64 := t.foldr (fun b w => w * 256 + b.toUInt64) 0

/-- Mixes eight bytes into a lane. -/
def round (lane input : UInt64) : UInt64 := rotate (lane + input * prime2) 31 * prime1

/-- Mixes a lane into the value. -/
def merge (h lane : UInt64) : UInt64 := (h ^^^ round 0 lane) * prime1 + prime4

/-- The four lanes of the long part. -/
structure Lanes where
  v1 : UInt64
  v2 : UInt64
  v3 : UInt64
  v4 : UInt64

/-- The lanes before any input. -/
def Lanes.start : Lanes := ⟨prime1 + prime2, prime2, 0, 0 - prime1⟩

/-- Mixes thirty-two bytes, eight to a lane. -/
def Lanes.mix (l : Lanes) (t : Text) : Lanes :=
  ⟨round l.v1 (word (t.take 8)), round l.v2 (word ((t.drop 8).take 8)),
    round l.v3 (word ((t.drop 16).take 8)), round l.v4 (word ((t.drop 24).take 8))⟩

/-- Mixes the long part, and gives what is left of it. -/
def Lanes.run (l : Lanes) (t : Text) : Lanes × Text :=
  if _h : (t.take 32).length = 32 then (l.mix t).run (t.drop 32) else (l, t)
termination_by t.length
decreasing_by simp only [List.length_take] at _h; simp only [List.length_drop]; omega

/-- The value of the four lanes. -/
def Lanes.value (l : Lanes) : UInt64 :=
  let h := rotate l.v1 1 + rotate l.v2 7 + rotate l.v3 12 + rotate l.v4 18
  merge (merge (merge (merge h l.v1) l.v2) l.v3) l.v4

/-- Mixes the bytes after the last whole group of four. -/
def bytes (h : UInt64) (t : Text) : UInt64 :=
  t.foldl (fun h b => rotate (h ^^^ (b.toUInt64 * prime5)) 11 * prime1) h

/-- Mixes a last group of four bytes and what follows it. -/
def fours (h : UInt64) (t : Text) : UInt64 :=
  if 4 ≤ t.length then
    bytes (rotate (h ^^^ (word (t.take 4) * prime1)) 23 * prime2 + prime3) (t.drop 4)
  else bytes h t

/-- Mixes the groups of eight bytes after the long part, and what follows them. -/
def eights (h : UInt64) (t : Text) : UInt64 :=
  if 8 ≤ t.length then
    eights (rotate (h ^^^ round 0 (word (t.take 8))) 27 * prime1 + prime4) (t.drop 8)
  else fours h t
termination_by t.length
decreasing_by simp only [List.length_drop]; omega

/-- Spreads every bit over the whole word. -/
def avalanche (h : UInt64) : UInt64 :=
  let h := (h ^^^ (h >>> 33)) * prime2
  let h := (h ^^^ (h >>> 29)) * prime3
  h ^^^ (h >>> 32)

/-- The xxHash64 value of a text, with seed zero. -/
def ofText (t : Text) : UInt64 :=
  let (h, rest) :=
    if 32 ≤ t.length then
      let (lanes, rest) := Lanes.start.run t
      (lanes.value, rest)
    else (prime5, t)
  avalanche (eights (h + t.length.toUInt64) rest)

/-- A digest as sixteen hexadecimal digits. -/
def text (d : UInt64) : Text := Text.hex 16 d.toNat

end Digest

/-- The digest a program is filed under. -/
def Program.digest (p : Program) : UInt64 := Digest.ofText (Canonical.program p)

end Birdcall
