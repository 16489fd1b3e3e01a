import Birdcall.Text

/-!
# Events

What is done to the outside, in order: bytes that a writer took, flushes, closings, values given
to a sink, lines logged, and files written.
-/

namespace Birdcall

/-- How much a log line matters. -/
inductive Level
  | debug
  | info
  | error
  deriving DecidableEq, Repr

/-- What an event can also say in numbers. -/
structure Stats where
  threshold : Nat
  entries : Nat
  interpreted : Nat
  compiled : Nat
  promotions : Nat
  deriving DecidableEq, Repr

/-- Something done to the outside. -/
inductive Event
  /-- A writer took these bytes of an offer. -/
  | wrote (label : String) (taken : Text)
  | flushed (label : String)
  | closed (label : String)
  /-- A sink was given a value. -/
  | emitted (label : String) (value : Text)
  /-- A line was logged on a channel. -/
  | logged (channel : Text) (level : Level) (message : Text)
  /-- Cache statistics were logged. -/
  | reported (stats : Stats)
  /-- A file was written. -/
  | stored (name content : Text)
  deriving DecidableEq, Repr

end Birdcall
