import Birdcall.Engine.Options
import Birdcall.Program.Listing

/-!
# Workers

The programs of a command run at the same time, each done by a worker with an engine and an output
of its own; the cache and the meter are shared.  Workers take turns.  A turn is one step between
two looks at what is shared: setting up, finding the entry of the program, or executing it.  Who
takes which turn is left open, so a `Crew` can run by any list of turns (`Crew.run`).

A worker that fails, crashes or leaves does not disturb the others.
-/

namespace Birdcall

/-- What the workers of a command have in common. -/
structure Task where
  config : Config
  /-- The number of the cache. -/
  cache : Option Nat
  /-- The number of the meter. -/
  meter : Option Nat
  /-- How often each program is executed. -/
  rounds : Nat
  trace : Bool
  dump : Bool
  /-- Whether the run was called off. -/
  canceled : Bool
  /-- What logging a line leads to. -/
  reply : Text → Reply

/-- What a worker has done, and so what it does next. -/
inductive Phase
  | waiting
  /-- It has executed its program this often. -/
  | ready (done : Nat)
  /-- It is about to execute its program, whose entry it has found. -/
  | found (done : Nat) (p : Program) (entry : Option EntryRef)
  | ended (error : Option Error)

/-- Someone who runs one program. -/
structure Worker where
  name : Text
  /-- The text of the program. -/
  content : Text
  engine : Engine
  phase : Phase

namespace Task

/-- What keeps the output of a worker. -/
def buffer : Writer := ⟨"", .memory, none, Writer.limited none false⟩

/-- What the engine of a worker is made with. -/
def options (t : Task) (name : Text) : Options :=
  let channel : Channel := ⟨name, .debug, t.reply⟩
  let tracing : List Options :=
    if t.trace then
      [.one (.log (some channel)),
        .one (.tee (.lineLog ⟨some channel, Text.ofString "out: ", []⟩))]
    else []
  .all ([.one (.output (.writer buffer)), .one (.config t.config), .one (.cache t.cache),
    .one (.meter t.meter)] ++ tracing)

end Task

namespace Worker

/-- A worker before its first turn. -/
def new (name content : Text) : Worker := ⟨name, content, .blank, .waiting⟩

/-- Logs the listing of a program. -/
def logListing (c : Channel) (p : Program) : Act Outside Unit := do
  let id ← Outside.addDevice (.lineLog ⟨some c, [], []⟩)
  let _ ← Act.attempt (p.dump (.device id))
  let _ ← Outside.close id

/-- Makes the engine, and logs the listing if that is asked for. -/
def prepare (t : Task) (w : Worker) : Act Machine Phase := do
  Machine.build Program.digest (t.options w.name)
  if t.dump then
    match Program.ofTokens (Token.lex w.content) with
    | .error e => return .ended (some (.during w.name (.spelling e)))
    | .ok p => Machine.outside (logListing ⟨w.name, .info, t.reply⟩ p)
  return .ready 0

/-- Ends with an error; one from closing does not count. -/
def quit (e : Error) : Act Machine Phase := do
  let _ ← Act.attempt Machine.close
  return .ended (some e)

/-- Does a part of an execution, and ends if it fails. -/
def trying (w : Worker) (done : Nat) (a : Act Machine Phase) : Act Machine Phase := do
  match ← Act.attempt a with
  | .ok phase => pure phase
  | .error e =>
    quit (.during (w.name ++ Text.ofString " execution #" ++ Text.ofNat (done + 1)) e)

/-- What a worker does at its turn. -/
def act (t : Task) (w : Worker) : Act Machine Phase :=
  match w.phase with
  | .waiting => w.prepare t
  | .ready done =>
    if t.rounds ≤ done then do
      Machine.close
      return .ended none
    else if t.canceled then quit .canceled
    else
      w.trying done do
        let p ← Machine.inWorld (World.load ((Source.ofText w.content).named w.name))
        return .found done p (← Machine.find p)
  | .found done p entry =>
    w.trying done do
      Act.lastly (Machine.proceed p entry) Machine.flush
      return .ready (done + 1)
  | .ended e => return .ended e

/-- One turn of a worker in a world.  A crash ends it, and so does leaving. -/
def turn (t : Task) (w : Worker) (world : World) : Worker × World :=
  let (result, m) := Act.outcome (w.act t) ⟨w.engine, world⟩
  let phase :=
    match result with
    | .ok phase => phase
    | .error stop => .ended (rescue w.name (.error stop))
  ({ w with engine := m.engine, phase }, m.world)

/-- Whether a worker has ended. -/
def hasEnded (w : Worker) : Bool :=
  match w.phase with
  | .ended _ => true
  | _ => false

/-- The error a worker has ended with. -/
def error? (w : Worker) : Option Error :=
  match w.phase with
  | .ended e => e
  | _ => none

/-- What a worker has printed. -/
def output (w : Worker) (world : World) : Text :=
  (w.engine.out.devices.head?.map world.outside.offered).getD []

end Worker

/-- Workers in a world. -/
structure Crew where
  workers : List Worker
  world : World
  /-- The first error a worker ended with. -/
  error : Option Error

namespace Crew

/-- A turn of one worker. -/
def turn (t : Task) : Crew → Nat → Crew
  | ⟨workers, world, error⟩, i =>
    match workers[i]? with
    | none => ⟨workers, world, error⟩
    | some w =>
      if w.hasEnded then ⟨workers, world, error⟩
      else
        let (w, world) := w.turn t world
        ⟨workers.set i w, world, error.or w.error?⟩

/-- Turns of one worker until it has ended, at most `turns` of them. -/
def finish (t : Task) (i : Nat) : Nat → Crew → Crew
  | 0, c => c
  | turns + 1, c => if c.workers[i]?.any (·.hasEnded) then c else finish t i turns (c.turn t i)

/-- How many turns a worker takes at most: one to set up, two for every execution, and one to
close. -/
def turnsOf (t : Task) : Nat := 2 * t.rounds + 2

/-- Runs all workers to their end.  They first take turns as `turns` says, and then one after the
other. -/
def run (t : Task) (turns : List Nat) (c : Crew) : Crew :=
  (List.range c.workers.length).foldl (fun c i => finish t i (turnsOf t) c)
    (turns.foldl (turn t) c)

end Crew
end Birdcall
