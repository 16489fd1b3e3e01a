import Birdcall.Event
import Birdcall.Program.Artifact
import Birdcall.Program.Digest

/-!
# The cache

A cache holds one entry per distinct program.  An entry counts the executions of its program; the
first execution past the threshold promotes it, and from then on its artifact is run.

Entries are filed in buckets by a digest of their program.  Programs that share a digest share a
bucket and nothing else, so the digest may be any function whatever.
-/

namespace Birdcall

/-- How a program is executed, and how far its promotion has come. -/
inductive Tier
  /-- Interpreted. -/
  | cold
  /-- Past the threshold: the artifact is made, and this execution is still interpreted. -/
  | warm
  /-- The artifact is run. -/
  | compiled
  deriving DecidableEq, Repr

namespace Tier

/-- The name of a tier. -/
def text : Tier → Text
  | cold => Text.ofString "cold"
  | warm => Text.ofString "warm"
  | compiled => Text.ofString "compiled"

/-- The tier with a given number. -/
def ofCode? (code : UInt8) : Option Tier :=
  match code.toNat with
  | 0 => some cold
  | 1 => some warm
  | 2 => some compiled
  | _ => none

/-- The name of the tier with a given number, or the number if there is none. -/
def nameOf (code : UInt8) : Text :=
  match ofCode? code with
  | some t => t.text
  | none => Text.ofString "Tier(" ++ Text.ofNat code.toNat ++ Text.ofString ")"

end Tier

/-- What moves an entry from tier to tier. -/
inductive Trigger
  | thresholdCrossed
  | artifactGenerated
  /-- Something that moves nothing. -/
  | other (code : UInt8)
  deriving DecidableEq, Repr

namespace Trigger

/-- The trigger with a given number. -/
def ofCode (code : UInt8) : Trigger :=
  match code.toNat with
  | 0 => thresholdCrossed
  | 1 => artifactGenerated
  | _ => other code

/-- The name of a trigger. -/
def text : Trigger → Text
  | thresholdCrossed => Text.ofString "threshold crossed"
  | artifactGenerated => Text.ofString "artifact generated"
  | other code => Text.ofString "promotion(" ++ Text.ofNat code.toNat ++ Text.ofString ")"

end Trigger

/-- The executions of one program. -/
structure Entry where
  /-- The digest the entry is filed under. -/
  key : UInt64
  program : Program
  /-- How many executions there were. -/
  count : Nat
  artifact : Option Artifact
  tier : Tier

/-- How one execution is to be done. -/
structure Admission where
  key : UInt64
  tier : Tier
  artifact : Option Artifact
  /-- Which execution of the program it is. -/
  count : Nat

namespace Entry

/-- The entry of a program never executed. -/
def new (key : UInt64) (program : Program) : Entry := ⟨key, program, 0, none, .cold⟩

/-- Moves an entry on.  Only crossing the threshold leads out of the cold tier, which makes the
artifact, and only having made it leads out of the warm tier. -/
def fire (e : Entry) (t : Trigger) : Except Error Entry :=
  match e.tier, t with
  | .cold, .thresholdCrossed =>
    .ok { e with tier := .warm, artifact := some e.program.compile }
  | .warm, .artifactGenerated => .ok { e with tier := .compiled }
  | state, t => .error (.notPermitted state.text t.text)

/-- Promotes an entry. -/
def promote (e : Entry) : Except Error Entry := do
  let e ← e.fire .thresholdCrossed
  e.fire .artifactGenerated

/-- Counts an execution and decides how it is done. -/
def enter (threshold : Nat) (e : Entry) : Except Error (Admission × Entry) :=
  let e := { e with count := e.count + 1 }
  match e.artifact with
  | some art => .ok (⟨e.key, .compiled, some art, e.count⟩, e)
  | none =>
    if e.count ≤ threshold then .ok (⟨e.key, .cold, none, e.count⟩, e)
    else do
      let e ← e.promote
      pure (⟨e.key, .warm, none, e.count⟩, e)

end Entry

/-- The entries of the programs that share a digest. -/
structure Bucket where
  key : UInt64
  entries : List Entry

/-- Where an entry is filed. -/
structure EntryRef where
  key : UInt64
  slot : Nat
  deriving DecidableEq, Repr

/-- One entry per distinct program, and counts over all of them. -/
structure Cache where
  digest : Program → UInt64
  threshold : Nat
  buckets : List Bucket
  size : Nat
  interpreted : Nat
  compiled : Nat
  promotions : Nat

namespace Cache

/-- An empty cache; a negative threshold counts as zero. -/
def new (digest : Program → UInt64) (threshold : Int) : Cache :=
  ⟨digest, threshold.toNat, [], 0, 0, 0, 0⟩

/-- The entries filed under a key. -/
def bucket (c : Cache) (key : UInt64) : List Entry :=
  ((c.buckets.find? (·.key = key)).map (·.entries)).getD []

/-- The buckets with the entries of a key replaced. -/
def setBucket (key : UInt64) (entries : List Entry) : List Bucket → List Bucket
  | [] => [⟨key, entries⟩]
  | b :: rest => if b.key = key then ⟨key, entries⟩ :: rest else b :: setBucket key entries rest

/-- The entry of a program, made if there is none. -/
def lookup (c : Cache) (p : Program) : EntryRef × Cache :=
  let key := c.digest p
  let entries := c.bucket key
  match entries.findIdx? (·.program = p) with
  | some slot => (⟨key, slot⟩, c)
  | none =>
    (⟨key, entries.length⟩,
      { c with
        buckets := setBucket key (entries ++ [.new key p]) c.buckets
        size := c.size + 1 })

/-- The entry at a place. -/
def entryAt? (c : Cache) (r : EntryRef) : Option Entry := (c.bucket r.key)[r.slot]?

/-- The cache with an entry replaced. -/
def setEntry (c : Cache) (r : EntryRef) (e : Entry) : Cache :=
  { c with buckets := setBucket r.key ((c.bucket r.key).set r.slot e) c.buckets }

/-- Counts an execution in the tier it was done in. -/
def tally (c : Cache) : Tier → Cache
  | .cold => { c with interpreted := c.interpreted + 1 }
  | .warm => { c with interpreted := c.interpreted + 1, promotions := c.promotions + 1 }
  | .compiled => { c with compiled := c.compiled + 1 }

/-- Counts an execution of an entry and decides how it is done. -/
def enter (c : Cache) (r : EntryRef) : Except Error (Admission × Cache) :=
  match c.entryAt? r with
  | none => .error (.device (Text.ofString "no such entry"))
  | some e => do
    let (a, e) ← e.enter c.threshold
    pure (a, (c.setEntry r e).tally a.tier)

/-- Moves an entry on by itself.  Making an artifact counts as a promotion. -/
def fire (c : Cache) (r : EntryRef) (t : Trigger) : Except Error Cache :=
  match c.entryAt? r with
  | none => .error (.device (Text.ofString "no such entry"))
  | some e => do
    let e' ← e.fire t
    let c := c.setEntry r e'
    pure (if e'.tier = .warm then { c with promotions := c.promotions + 1 } else c)

/-- What the cache has done. -/
def stats (c : Cache) : Stats := ⟨c.threshold, c.size, c.interpreted, c.compiled, c.promotions⟩

end Cache
end Birdcall
