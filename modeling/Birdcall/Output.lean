import Birdcall.Output.Device
import Birdcall.Text.CleanLine

/-!
# Outputs

An output leads to no device, to one, or to several at once.  Outputs that lead nowhere vanish when
outputs are joined, and joined outputs come apart, so a joined output always holds at least two
devices and nothing else.
-/

namespace Birdcall

/-- Where output goes. -/
inductive Output
  /-- Nowhere. -/
  | discard
  /-- To a device. -/
  | device (id : Nat)
  /-- To several devices, in order. -/
  | tee (ids : List Nat)
  deriving DecidableEq, Repr

/-- What an output can be made of. -/
inductive Target
  /-- Nothing at all. -/
  | absent
  /-- Something that takes everything and does nothing with it. -/
  | discard
  | writer (w : Writer)
  | lineLog (l : LineLog)
  /-- Several targets at once. -/
  | several (targets : List Target)

namespace Target

/-- Whether the target can be closed.  Several targets at once cannot, even if each of them can. -/
def closes : Target → Bool
  | absent | discard | several _ => false
  | writer w => w.closing.isSome
  | lineLog _ => true

end Target

namespace Output

/-- Whether an output leads nowhere. -/
def isDiscard : Output → Bool
  | discard => true
  | _ => false

/-- The devices an output leads to. -/
def devices : Output → List Nat
  | discard => []
  | device id => [id]
  | tee ids => ids

/-- The output that leads to the given devices. -/
def ofDevices : List Nat → Output
  | [] => discard
  | [id] => device id
  | ids => tee ids

/-- Joins outputs; an output that is not there leads nowhere. -/
def join (outputs : List (Option Output)) : Output :=
  ofDevices (outputs.flatMap fun o => (o.map devices).getD [])

mutual

/-- Makes an output of a target. -/
def ofTarget : Target → Act Outside Output
  | .absent | .discard => pure discard
  | .writer w => return device (← Outside.addDevice (.pipe (.ofWriter w)))
  | .lineLog l => return device (← Outside.addDevice (.lineLog l))
  | .several targets => return join (← ofTargets targets)

/-- Makes an output of each of some targets. -/
def ofTargets : List Target → Act Outside (List (Option Output))
  | [] => pure []
  | t :: rest => do
    let o ← ofTarget t
    return some o :: (← ofTargets rest)

end

/-- Makes an output that passes every write straight through to its target, if that is there. -/
def straight : Target → Act Outside (Option Output)
  | .absent => pure none
  | .discard => pure (some discard)
  | .writer w => return some (device (← Outside.addDevice (.pipe (.direct w))))
  | .lineLog l => return some (device (← Outside.addDevice (.lineLog l)))
  | .several targets => return some (← ofTarget (.several targets))

/-- An output that has to be there. -/
def present : Option Output → Act Outside Output
  | some o => pure o
  | none => Act.crash .nothing

/-- Writes to devices in order, up to the first that does not take everything. -/
def writeAll (t : Text) : List Nat → Act Outside (Nat × Option Error)
  | [] => pure (t.length, none)
  | id :: rest => do
    let (n, error) ← Outside.write id t
    match error with
    | some e => pure (n, some e)
    | none => if n < t.length then pure (n, some .shortWrite) else writeAll t rest

/-- Flushes devices in order, and gives the first error. -/
def flushAll : List Nat → Act Outside (Option Error)
  | [] => pure none
  | id :: rest => do
    let error ← Outside.flush id
    let later ← flushAll rest
    pure (error.or later)

/-- Writes bytes: how many were taken, and the error. -/
def write (o : Output) (t : Text) : Act Outside (Nat × Option Error) :=
  match o with
  | discard => pure (t.length, none)
  | device id => Outside.write id t
  | tee ids => writeAll t ids

/-- Flushes. -/
def flush : Output → Act Outside (Option Error)
  | discard => pure none
  | device id => Outside.flush id
  | tee ids => flushAll ids

/-- Writes pieces one by one; a piece not taken whole is an error. -/
def writePieces (o : Output) : List Text → Act Outside Unit
  | [] => pure ()
  | t :: rest => do
    let (n, error) ← o.write t
    Act.check error
    Act.check (if n < t.length then some .shortWrite else none)
    writePieces o rest

/-- Writes a value as a line. -/
def writeLine (o : Output) (value : Text) : Act Outside (Nat × Option Error) :=
  o.write value.line

end Output
end Birdcall
