import Birdcall.Log

/-!
# Devices

What output goes to.  A writer is known by what it makes of an offer and of a flush, given all
offers before it.  So any writer is one of these that goes by what it was offered; one that also
goes by how often it was flushed or closed is not.  A writer that neither flushes nor keeps its
bytes in memory is written through a buffer; a line log turns what it is given into log lines.

Devices are shared: several outputs may lead to the same one.  `Outside` holds them all, with the
record of everything done to them.
-/

namespace Birdcall

/-- What a writer makes of an offer: how many bytes it takes, and its error. -/
structure Grant where
  taken : Nat
  error : Option Error

/-- How a writer treats what it takes. -/
inductive WriterKind
  /-- Nothing more is known of it. -/
  | plain
  /-- It has a flush of its own, which gives this error after such offers, latest first. -/
  | flushing (error : List Text → Option Error)
  /-- It keeps everything in memory. -/
  | memory

/-- A writer. -/
structure Writer where
  /-- By what the record of events knows it. -/
  label : String
  kind : WriterKind
  /-- Whether it can be closed, and the error closing it gives. -/
  closing : Option (Option Error)
  /-- What it makes of an offer after the earlier ones, latest first. -/
  respond : List Text → Text → Grant

namespace Writer

/-- How many bytes of an offer are left over once `limit` bytes have been taken in all. -/
def room (limit : Nat) (earlier : List Text) : Nat := limit - earlier.flatten.length

/-- Takes everything up to a limit, and then what fits; a write beyond it fails, or is merely
short. -/
def limited (limit : Option Nat) (short : Bool) (earlier : List Text) (offer : Text) : Grant :=
  match limit with
  | none => ⟨offer.length, none⟩
  | some limit =>
    let taken := min offer.length (room limit earlier)
    ⟨taken, if taken < offer.length ∧ !short then some (.device (Text.ofString "write failed"))
      else none⟩

end Writer

/-- How a device handles writes to its writer. -/
inductive Manner
  /-- Every write goes straight through. -/
  | direct
  /-- Bytes are held back, and a failed write is final. -/
  | buffered (held : Text) (fault : Option Error)

/-- A writer in use. -/
structure Pipe where
  writer : Writer
  manner : Manner
  /-- What the writer was offered, latest first. -/
  offers : List Text

/-- Turns bytes into log lines. -/
structure LineLog where
  channel : Option Channel
  /-- What stands in front of each line. -/
  heading : Text
  /-- Bytes of a line that is not complete. -/
  held : Text

/-- Something output goes to. -/
inductive Device
  | pipe (p : Pipe)
  | lineLog (l : LineLog)

/-- What a sink makes of a value. -/
inductive SinkReply
  | done
  | fail (e : Error)
  | crash (v : CrashValue)

/-- Something values are given to one by one, known by what it makes of each value after all
values before it. -/
structure Sink where
  label : String
  /-- What it makes of the latest of these values, latest first. -/
  respond : List Text → SinkReply

/-- A sink in use. -/
structure SinkState where
  sink : Sink
  /-- The values it was given, latest first. -/
  values : List Text

/-- Everything outside: devices and sinks by number, and what was done to them. -/
structure Outside where
  devices : Array Device
  sinks : Array SinkState
  events : Array Event

namespace Outside

/-- Nothing outside. -/
def empty : Outside := ⟨#[], #[], #[]⟩

/-- Records an event. -/
def record (e : Event) : Act Outside Unit := fun o => .ok () { o with events := o.events.push e }

/-- Adds a device, and gives its number. -/
def addDevice (d : Device) : Act Outside Nat := fun o =>
  .ok o.devices.size { o with devices := o.devices.push d }

/-- Adds a sink, and gives its number. -/
def addSink (s : Sink) : Act Outside Nat := fun o =>
  .ok o.sinks.size { o with sinks := o.sinks.push ⟨s, []⟩ }

/-- Replaces a device. -/
def setDevice (id : Nat) (d : Device) : Act Outside Unit := fun o =>
  .ok () { o with devices := o.devices.setIfInBounds id d }

/-- Does what logging a line leads to. -/
def follow : Reply → Act Outside Unit
  | .done => pure ()
  | .crash m => Act.crash (.text m)
  | .exit => throw .exited

/-- Logs a line on a channel. -/
def log (c : Channel) (message : Text) : Act Outside Unit := do
  record (.logged c.name c.level message)
  follow (c.reply message)

/-- Everything that the writer of a device was offered. -/
def offered (o : Outside) (id : Nat) : Text :=
  match o.devices[id]? with
  | some (.pipe p) => p.offers.reverse.flatten
  | _ => []

/-- Gives a value to a sink. -/
def emit (id : Nat) (value : Text) : Act Outside Unit := do
  match (← get).sinks[id]? with
  | none => Act.crash .nothing
  | some s =>
    let values := value :: s.values
    modify fun o => { o with sinks := o.sinks.setIfInBounds id { s with values } }
    record (.emitted s.sink.label value)
    match s.sink.respond values with
    | .done => pure ()
    | .fail e => Act.fail e
    | .crash v => Act.crash v

end Outside

/-! ## Ports -/

namespace Pipe

/-- How many bytes a pipe holds back at most. -/
def capacity : Nat := 4096

/-- A pipe that passes every write straight through to its writer. -/
def direct (w : Writer) : Pipe := ⟨w, .direct, []⟩

/-- The pipe of a writer: a plain one is written through a buffer. -/
def ofWriter (w : Writer) : Pipe :=
  match w.kind with
  | .plain => ⟨w, .buffered [] none, []⟩
  | .flushing _ | .memory => direct w

/-- Offers bytes to the writer: the grant, the pipe after it, and the event. -/
def offer (p : Pipe) (t : Text) : Grant × Pipe × Event :=
  let g := p.writer.respond p.offers t
  let taken := min g.taken t.length
  (⟨taken, g.error⟩, { p with offers := t :: p.offers }, .wrote p.writer.label (t.take taken))

/-- What a write or a flush did. -/
structure Done where
  /-- How many bytes were taken. -/
  taken : Nat
  error : Option Error
  pipe : Pipe
  events : List Event

/-- Writes with nothing held back: what is too long for the buffer goes straight to the writer,
and the rest is held.  Writers are to give an error if they do not take everything.  One that takes
nothing and gives none would be offered the same bytes for ever; as no answer can be given then, the
write is a short one here. -/
def writeEmpty (p : Pipe) (t : Text) : Done :=
  if t.length ≤ capacity then ⟨t.length, none, { p with manner := .buffered t none }, []⟩
  else
    let (g, p', e) := p.offer t
    match g.error with
    | some err => ⟨g.taken, some err, { p' with manner := .buffered [] (some err) }, [e]⟩
    | none =>
      if _h : 0 < g.taken then
        let rest := writeEmpty p' (t.drop g.taken)
        { rest with taken := g.taken + rest.taken, events := e :: rest.events }
      else
        ⟨0, some .shortWrite, { p' with manner := .buffered [] (some .shortWrite) }, [e]⟩
termination_by t.length
decreasing_by simp only [List.length_drop]; omega

/-- Writes out what is held back.  On a failure the part not taken stays, and the failure is
final. -/
def flushHeld (p : Pipe) (held : Text) : Done :=
  if held.isEmpty then ⟨0, none, p, []⟩
  else
    let (g, p', e) := p.offer held
    let error :=
      match g.error with
      | some err => some err
      | none => if g.taken < held.length then some .shortWrite else none
    match error with
    | some err =>
      ⟨g.taken, some err, { p' with manner := .buffered (held.drop g.taken) (some err) }, [e]⟩
    | none => ⟨g.taken, none, { p' with manner := .buffered [] none }, [e]⟩

/-- Writes bytes. -/
def write (p : Pipe) (t : Text) : Done :=
  match p.manner with
  | .direct =>
    let (g, p', e) := p.offer t
    ⟨g.taken, g.error, p', [e]⟩
  | .buffered _ (some err) => ⟨0, some err, p, []⟩
  | .buffered held none =>
    let free := capacity - held.length
    if t.length ≤ free then
      ⟨t.length, none, { p with manner := .buffered (held ++ t) none }, []⟩
    else if held.isEmpty then p.writeEmpty t
    else
      let flushed := p.flushHeld (held ++ t.take free)
      match flushed.error with
      | some err => { flushed with taken := free, error := some err }
      | none =>
        let rest := flushed.pipe.writeEmpty (t.drop free)
        { rest with taken := free + rest.taken, events := flushed.events ++ rest.events }

/-- Flushes. -/
def flush (p : Pipe) : Done :=
  match p.manner with
  | .direct =>
    match p.writer.kind with
    | .flushing error => ⟨0, error p.offers, p, [.flushed p.writer.label]⟩
    | _ => ⟨0, none, p, []⟩
  | .buffered _ (some err) => ⟨0, some err, p, []⟩
  | .buffered held none => p.flushHeld held

end Pipe

/-! ## Line logs -/

namespace LineLog

/-- The text after the first line feed is shorter. -/
theorem length_splitAt {t line rest : Text} {b : UInt8}
    (h : Text.splitAt b t = (line, some rest)) : rest.length < t.length := by
  induction t generalizing line with
  | nil => simp [Text.splitAt] at h
  | cons c t ih =>
    simp only [Text.splitAt] at h
    split at h
    · simp only [Prod.mk.injEq, Option.some.injEq] at h
      simp [h.2]
    · have hrest : Text.splitAt b t = ((Text.splitAt b t).1, some rest) :=
        Prod.ext rfl (Prod.mk.injEq .. ▸ h).2
      have := ih hrest
      simp only [List.length_cons]
      omega

/-- Logs one line. -/
def logLine (l : LineLog) (line : Text) : Act Outside Unit :=
  match l.channel with
  | none => pure ()
  | some c => Outside.log c (l.heading ++ line)

/-- Logs the complete lines of what is held, and with `all` the rest too.  A line is taken away
before it is logged and its line feed after, so a crash in between leaves the line feed. -/
def drain (l : LineLog) (id : Nat) (all : Bool) (held : Text) : Act Outside Unit :=
  match _h : Text.splitAt Text.lineFeed held with
  | (line, some rest) => do
    Outside.setDevice id (.lineLog { l with held := Text.lineFeed :: rest })
    l.logLine line
    drain l id all rest
  | (_, none) =>
    if all && !held.isEmpty then do
      Outside.setDevice id (.lineLog { l with held := [] })
      l.logLine held
    else Outside.setDevice id (.lineLog { l with held })
termination_by held.length
decreasing_by exact length_splitAt _h

end LineLog

/-! ## Devices by number -/

namespace Outside

/-- Puts a pipe's work on record, and gives the count and the error. -/
def settle (id : Nat) (d : Pipe.Done) : Act Outside (Nat × Option Error) := do
  setDevice id (.pipe d.pipe)
  d.events.forM record
  pure (d.taken, d.error)

/-- Writes bytes to a device: how many were taken, and the error. -/
def write (id : Nat) (t : Text) : Act Outside (Nat × Option Error) := do
  match (← get).devices[id]? with
  | none => Act.crash .nothing
  | some (.pipe p) => settle id (p.write t)
  | some (.lineLog l) =>
    l.drain id false (l.held ++ t)
    pure (t.length, none)

/-- Flushes a device. -/
def flush (id : Nat) : Act Outside (Option Error) := do
  match (← get).devices[id]? with
  | none => Act.crash .nothing
  | some (.pipe p) => return (← settle id p.flush).2
  | some (.lineLog l) =>
    l.drain id true l.held
    pure none

/-- Closes a device. -/
def close (id : Nat) : Act Outside (Option Error) := do
  match (← get).devices[id]? with
  | none => Act.crash .nothing
  | some (.pipe p) =>
    record (.closed p.writer.label)
    pure (p.writer.closing.getD none)
  | some (.lineLog l) =>
    l.drain id true l.held
    pure none

end Outside
end Birdcall
