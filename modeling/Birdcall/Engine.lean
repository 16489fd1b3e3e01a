import Birdcall.Config
import Birdcall.Meter
import Birdcall.Output
import Birdcall.Source.Input

/-!
# Engines

An engine executes programs.  A tiered engine asks its cache how to execute a program, and
interprets it or runs its artifact; any other engine interprets.  However an execution ends, the
output is flushed after it.

Engines may share caches, meters and devices, so these are known by number and live in a `World`.
An engine together with its world is a `Machine`, and what an engine does is an act on a machine.
-/

namespace Birdcall

/-- Where printed values go. -/
inductive Outlet
  /-- To an output, one value a line. -/
  | lines (out : Output)
  /-- To a sink. -/
  | sink (id : Nat)
  /-- To something that is not there. -/
  | absent
  deriving DecidableEq, Repr

/-- An engine. -/
structure Engine where
  log : Log
  out : Output
  /-- An error from flushing an output that was replaced. -/
  pending : Option Error
  outlet : Outlet
  symbols : SymbolTable
  tiered : Bool
  /-- The threshold of a cache made for this engine. -/
  threshold : Int
  /-- The number of the cache. -/
  cache : Option Nat
  /-- The number of the meter. -/
  meter : Option Nat
  /-- The devices to close with the engine, latest first. -/
  closers : List Nat

/-- Everything engines share. -/
structure World where
  outside : Outside
  caches : Array Cache
  meters : Array Meter

namespace World

/-- A world with nothing in it. -/
def empty : World := ⟨.empty, #[], #[]⟩

/-- Does something to the outside. -/
def doing {α : Type} (a : Act Outside α) : Act World α :=
  Act.on (fun | ⟨outside, caches, meters⟩ => (outside, fun o => ⟨o, caches, meters⟩)) a

/-- Adds a cache, and gives its number. -/
def addCache (c : Cache) : Act World Nat := fun w =>
  .ok w.caches.size { w with caches := w.caches.push c }

/-- Adds a meter, and gives its number. -/
def addMeter (m : Meter) : Act World Nat := fun w =>
  .ok w.meters.size { w with meters := w.meters.push m }

/-- Counts on a meter, if there is one. -/
def count (id : Option Nat) (f : Meter → Meter) : Act World Unit :=
  match id with
  | none => pure ()
  | some id => modify fun w => { w with meters := w.meters.modify id f }

/-- Everything a meter has on show. -/
def families (w : World) (m : Meter) : List Family :=
  m.families ((m.watched.join.bind (w.caches[·]?)).map (·.size))

/-- Does something with a cache. -/
def withCache {α : Type} (id : Nat) (f : Cache → Except Error (α × Cache)) : Act World α := do
  match (← get).caches[id]? with
  | none => Act.crash .nothing
  | some c =>
    match f c with
    | .error e => Act.crash (.error e)
    | .ok (x, c) =>
      modify fun w => { w with caches := w.caches.setIfInBounds id c }
      pure x

/-- Finds the entry of a program in a cache. -/
def find (id : Nat) (p : Program) : Act World EntryRef := withCache id fun c => .ok (c.lookup p)

/-- Counts an execution of an entry of a cache, and decides how it is done. -/
def enter (id : Nat) (r : EntryRef) : Act World Admission := withCache id (·.enter r)

/-- Reads the program that a source holds. -/
def load (s : Source) : Act World Program := do
  let (tokens, closed) := (Input.ofSources [s]).scan
  closed.forM fun label => doing (Outside.record (.closed label))
  match tokens with
  | .error e => Act.fail (.reading e)
  | .ok tokens =>
    match Program.ofTokens tokens with
    | .error e => Act.fail (.spelling e)
    | .ok p => pure p

end World

/-- An engine and its world. -/
structure Machine where
  engine : Engine
  world : World

namespace Engine

/-- An engine before any option is applied. -/
def blank : Engine :=
  ⟨.silent, .discard, none, .absent, .empty, false, 0, none, none, []⟩

/-- The cache the engine uses, if it is tiered. -/
def cache? (e : Engine) : Option Nat := if e.tiered then e.cache else none

end Engine

namespace Machine

/-- Does something in the world. -/
def inWorld {α : Type} (a : Act World α) : Act Machine α :=
  Act.on (fun | ⟨engine, world⟩ => (world, fun w => ⟨engine, w⟩)) a

/-- Does something to the outside. -/
def outside {α : Type} (a : Act Outside α) : Act Machine α := inWorld (World.doing a)

/-- Changes the engine. -/
def change (f : Engine → Engine) : Act Machine Unit :=
  modify fun m => { m with engine := f m.engine }

/-- Logs a message under a mark. -/
def log (mark template : Text) (args : List Text) : Act Machine Unit := do
  let (line, l) := (← get).engine.log.write mark template args
  change ({ · with log := l })
  match line with
  | none => pure ()
  | some (channel, line) => outside (Outside.log channel line)

/-- Prints a value. -/
def printValue (value : Text) : Act Machine Unit := do
  match (← get).engine.outlet with
  | .lines out =>
    let (_, error) ← outside (out.writeLine value)
    Act.check error
  | .sink id => outside (Outside.emit id value)
  | .absent => Act.crash .nothing

/-- Prints a symbol. -/
def emit (s : Symbol) : Act Machine Unit := do
  match (← get).engine.symbols.get? s with
  | none => Act.fail (.running (.invalidInstruction (-1) (.print s)))
  | some value => printValue value

/-- Flushes the output, and gives the first error: the pending one comes before the one from
flushing. -/
def flush : Act Machine (Option Error) := do
  let e := (← get).engine
  change ({ · with pending := none })
  let error ← outside e.out.flush
  pure (e.pending.or error)

/-- Logs an instruction about to be carried out. -/
def visit (index : Nat) (i : Instruction) : Act Machine Unit :=
  log (Text.ofString ">") (Text.ofString "@%v %v") [Text.ofNat index, i.text]

/-- Moves the log lines of a run to the right. -/
def within (a : Act Machine Unit) : Act Machine Unit := do
  change fun e => { e with log := e.log.push (Text.blanks 2) }
  Act.lastly a do
    change fun e => { e with log := e.log.pop }
    pure none

/-- What interpreting a program does to a machine. -/
def hooks : Hooks Machine := ⟨emit, visit, within⟩

/-- Interprets a program. -/
def interpret (p : Program) : Act Machine Unit := p.interpret hooks

/-- Logs how a program is executed. -/
def announce (mark template : String) (a : Admission) : Act Machine Unit :=
  log (Text.ofString mark) (Text.ofString template) [Text.hex 16 a.key.toNat, Text.ofNat a.count]

/-- Executes a program as its cache says. -/
def perform (p : Program) (a : Admission) : Act Machine Unit := do
  let meter := (← get).engine.meter
  inWorld (World.count meter (·.observe a.tier))
  match a.tier with
  | .compiled =>
    announce "*" "compiled %v #%v" a
    match a.artifact with
    | some art => art.invoke emit
    | none => Act.crash .nothing
  | .warm =>
    inWorld (World.count meter (·.promoted))
    announce "+" "warm up %v #%v" a
    interpret p
  | .cold =>
    announce "-" "interpret %v #%v" a
    interpret p

/-- Finds the entry of a program, if the engine is tiered. -/
def find (p : Program) : Act Machine (Option EntryRef) := do
  let e := (← get).engine
  if e.tiered then
    match e.cache with
    | none => Act.crash .nothing
    | some id => return some (← inWorld (World.find id p))
  else pure none

/-- Executes a program whose entry is known, if the engine is tiered. -/
def proceed (p : Program) : Option EntryRef → Act Machine Unit
  | none => do
    inWorld (World.count (← get).engine.meter (·.observe .cold))
    interpret p
  | some r => do
    match (← get).engine.cache with
    | none => Act.crash .nothing
    | some id => perform p (← inWorld (World.enter id r))

/-- Executes a program.  The output is flushed afterwards, however the execution ends. -/
def exec (p : Program) : Act Machine Unit :=
  Act.lastly (do proceed p (← find p)) flush

/-- Executes the program that a source holds. -/
def execSource (s : Source) : Act Machine Unit := do exec (← inWorld (World.load s))

/-- Executes the program that a text holds. -/
def execText (t : Text) : Act Machine Unit :=
  execSource ((Source.ofText t).named (Text.ofString "input"))

/-- Closes devices in order, and gives the first error. -/
def closeAll : List Nat → Act Machine (Option Error)
  | [] => pure none
  | id :: rest => do
    let error ← outside (Outside.close id)
    let later ← closeAll rest
    pure (error.or later)

/-- Flushes the output and closes what the engine was given to close, latest first. -/
def close : Act Machine Unit := do
  let error ← flush
  let later ← closeAll (← get).engine.closers
  change ({ · with closers := [] })
  Act.check (error.or later)

end Machine
end Birdcall
