import Birdcall.Engine

/-!
# Options

What an engine is made with.  Options come in any nesting.  They are put together from inside out
(`Options.combine`): options that are not there are left out, and options that were put together
before come apart again.

Each setting brings writers of its own: every writer in a target becomes a device when the setting
is applied.  Options over one and the same writer, whose writes would reach it in turns, are not
among these.
-/

namespace Birdcall

/-- One thing to set about an engine. -/
inductive Setting
  /-- Sets the threshold, tiering and the symbols. -/
  | config (c : Config)
  | threshold (n : Int)
  | tiering (enabled : Bool)
  | symbols (t : SymbolTable)
  /-- Shares a cache. -/
  | cache (id : Option Nat)
  /-- Counts on a meter. -/
  | meter (id : Option Nat)
  /-- Prints lines to a target, in place of the output or sink before. -/
  | output (t : Target)
  /-- Also prints lines to a target, which is closed with the engine. -/
  | tee (t : Target)
  /-- Gives values to a sink, in place of an output. -/
  | sink (s : Option Sink)
  | log (c : Option Channel)

/-- Settings in any nesting. -/
inductive Options
  | absent
  | one (s : Setting)
  | all (options : List Options)

instance : Inhabited Options := ⟨.absent⟩

namespace Options

mutual

/-- The settings in some options, in order. -/
def settings : Options → List Setting
  | absent => []
  | one s => [s]
  | all options => settingsOfAll options

/-- The settings in a list of options, in order. -/
def settingsOfAll : List Options → List Setting
  | [] => []
  | o :: rest => settings o ++ settingsOfAll rest

end

/-- What some options add when they are put together with others. -/
def parts : Options → List Options
  | absent => []
  | one s => [one s]
  | all options => options

/-- Puts options together.  If only one of them is there, it is what comes out. -/
def combine (options : List Options) : Options :=
  match options.flatMap parts with
  | [o] => o
  | parts => all parts

mutual

/-- Puts options together from inside out. -/
def combined : Options → Options
  | absent => absent
  | one s => one s
  | all options => combine (combinedAll options)

/-- Puts each of some options together from inside out. -/
def combinedAll : List Options → List Options
  | [] => []
  | o :: rest => combined o :: combinedAll rest

end

end Options

namespace Setting

/-- Applies a setting. -/
def apply : Setting → Act Machine Unit
  | config c =>
    Machine.change
      ({ · with threshold := c.threshold, tiered := c.tiered, symbols := c.symbols })
  | threshold n => Machine.change ({ · with threshold := n })
  | tiering enabled => Machine.change ({ · with tiered := enabled })
  | symbols t => Machine.change ({ · with symbols := t })
  | cache id => Machine.change ({ · with cache := id })
  | meter id => Machine.change ({ · with meter := id })
  | log c => Machine.change fun e => { e with log := { e.log with channel := c, headings := [] } }
  | output t => do
    let e := (← get).engine
    let error ← Machine.outside e.out.flush
    let out ← Machine.outside (Output.ofTarget t)
    Machine.change fun e =>
      { e with pending := e.pending.or error, out := out, outlet := .lines out }
  | tee t => do
    let e := (← get).engine
    let added ← Machine.outside (Output.ofTarget t)
    let out := Output.join [some e.out, some added]
    Machine.change fun e =>
      { e with
        out := out
        outlet := .lines out
        closers := if t.closes then added.devices ++ e.closers else e.closers }
  | sink none => Machine.change ({ · with outlet := .absent })
  | sink (some s) => do
    let id ← Machine.outside (Outside.addSink s)
    Machine.change ({ · with outlet := .sink id })

end Setting

namespace Options

mutual

/-- Carries out options that have been put together. -/
def carry : Options → Act Machine Unit
  | absent => Act.crash .nothing
  | one s => s.apply
  | all options => carryAll options

/-- Carries out some options in order. -/
def carryAll : List Options → Act Machine Unit
  | [] => pure ()
  | o :: rest => do
    carry o
    carryAll rest

end

/-- Applies options. -/
def apply (o : Options) : Act Machine Unit := (combine [o.combined]).carry

/-- What every engine starts from. -/
def default : Options := all [one (.config .default), one (.output .discard)]

end Options

namespace Machine

/-- Makes the engine of a machine anew.  A tiered engine that shares no cache gets its own. -/
def build (digest : Program → UInt64) (o : Options) : Act Machine Unit := do
  change fun _ => .blank
  Options.default.apply
  o.apply
  let e := (← get).engine
  if e.tiered && e.cache.isNone then
    let id ← inWorld (World.addCache (.new digest e.threshold))
    change ({ · with cache := some id })

end Machine
end Birdcall
