import Birdcall.Error

/-!
# Acts

An act changes a state and finishes, fails with an error, crashes, or leaves the run altogether.
Whatever it did before it stopped stays done, so the state survives every kind of end.

`Act.lastly` runs a last act however the first one ends, and `rescue` turns a crash or an exit
into an error.
-/

namespace Birdcall

/-- What a crash was raised with. -/
inductive CrashValue
  | text (t : Text)
  | number (n : Int)
  | error (e : Error)
  deriving DecidableEq, Repr

namespace CrashValue

/-- A crash on something that is not there. -/
def nothing : CrashValue := text (Text.ofString "used something that is not there")

/-- A crash on a collection that stands where only a single value can. -/
def collection : CrashValue := text (Text.ofString "used a collection as a key")

/-- A crash without a value. -/
def empty : CrashValue :=
  error (.device (Text.ofString "runtime error: panic called with nil argument"))

end CrashValue

/-- How an act stops short. -/
inductive Stop
  | failed (e : Error)
  | crashed (v : CrashValue)
  | exited
  deriving DecidableEq, Repr

/-- A stop with what was being done in front of its error. -/
def Stop.during (context : Text) : Stop → Stop
  | failed e => failed (.during context e)
  | stop => stop

/-- A computation on a state that may stop short. -/
abbrev Act (σ α : Type) := EStateM Stop σ α

namespace Act

variable {σ τ α : Type}

/-- Fails with an error. -/
def fail (e : Error) : Act σ α := throw (.failed e)

/-- Fails with an error if there is one. -/
def check : Option Error → Act σ Unit
  | none => pure ()
  | some e => fail e

/-- Gives the value of a computation, or fails with its error. -/
def ofExcept : Except Error α → Act σ α
  | .ok x => pure x
  | .error e => fail e

/-- Gives the value of a computation, or stops as it did. -/
def ofOutcome : Except Stop α → Act σ α
  | .ok x => pure x
  | .error stop => throw stop

/-- Crashes. -/
def crash (v : CrashValue) : Act σ α := throw (.crashed v)

/-- Runs `last` after `a`, however `a` ends.  The act then ends as `a` did, except that `last`
ending in a crash or an exit counts in its place, and that the error `last` gives back counts if
`a` finished. -/
def lastly (a : Act σ Unit) (last : Act σ (Option Error)) : Act σ Unit := fun s =>
  match a s with
  | .ok _ s =>
    match last s with
    | .ok none s => .ok () s
    | .ok (some e) s => .error (.failed e) s
    | .error stop s => .error stop s
  | .error stop s =>
    match last s with
    | .ok _ s => .error stop s
    | .error stop' s => .error stop' s

/-- How an act ends, and the state it leaves. -/
def outcome (a : Act σ α) (s : σ) : Except Stop α × σ :=
  match a s with
  | .ok x s => (.ok x, s)
  | .error stop s => (.error stop, s)

/-- An act whose error becomes a value.  It still crashes and exits as before. -/
def attempt (a : Act σ α) : Act σ (Except Error α) := fun s =>
  match a s with
  | .ok x s => .ok (.ok x) s
  | .error (.failed e) s => .ok (.error e) s
  | .error stop s => .error stop s

/-- Runs an act on a part of a state, given how the state comes apart: into that part and a way to
put the state together again. -/
def on (part : σ → τ × (τ → σ)) (a : Act τ α) : Act σ α := fun s =>
  match part s with
  | (t, whole) =>
    match a t with
    | .ok x t => .ok x (whole t)
    | .error stop t => .error stop (whole t)

end Act

/-- Guards a run: a crash or an exit becomes an error under the given name. -/
def rescue (name : Text) : Except Stop Unit → Option Error
  | .ok _ => none
  | .error (.failed e) => some e
  | .error (.crashed (.text t)) => some (.crashed name t)
  | .error (.crashed (.number n)) => some (.crashed name (Text.ofInt n))
  | .error (.crashed (.error e)) => some (.crashedWith name e)
  | .error .exited => some (.exited name)

end Birdcall
