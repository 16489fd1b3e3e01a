import Birdcall.Command
import Birdcall.Command.Worker
import Birdcall.Config.Reading

/-!
# Running commands

A command settles its configuration, reads its sources, runs their programs at the same time, and
then writes out what each of them printed, in the order of the sources.  At the end it logs
statistics and writes a file with the numbers on show, if that is asked for.  The first thing that
goes wrong is the error of the run, but nothing that goes wrong with one program keeps the rest
from being done.
-/

namespace Birdcall

/-- What a command finds around it. -/
structure Surroundings where
  /-- Reads a file. -/
  fetch : Text → Except Error Text
  /-- Whether a file of this name can be written. -/
  canWrite : Text → Bool
  /-- The standard input. -/
  input : Content
  /-- The standard output. -/
  output : Target
  /-- Whether the run was called off before it began. -/
  canceled : Bool
  /-- What logging a line leads to. -/
  reply : Text → Reply
  /-- The turns that the workers take at first. -/
  turns : List Nat

namespace Command

/-- The argument that stands for the standard input. -/
def inputArgument : Text := Text.ofString "-"

/-- By what the standard input is named. -/
def inputName : Text := Text.ofString "<stdin>"

/-- The configuration of a run: that of its file, and above it what the command line says. -/
def settle (c : Command) (fetch : Text → Except Error Text) : Except Stop Config := do
  let config ← if c.configFile.isEmpty then .ok .default else Config.load fetch c.configFile
  let config := if c.thresholdGiven then { config with threshold := c.threshold } else config
  let config := if c.noTier then { config with tiered := false } else config
  match config.validate with
  | .ok _ => .ok config
  | .error e => .error (.failed (.config e))

/-- Puts what was being done in front of an error. -/
def doing {α : Type} (context : Text) : Except Error α → Except Error α
  | .ok x => .ok x
  | .error e => .error (.during context e)

/-- Reads sources.  The standard input gives everything the first time.  One that never ends, but
for ever gives nothing and no error, would keep the command reading; here reading it fails, as
`Content.readAll` says. -/
def readSources (fetch : Text → Except Error Text) :
    Content → List Text → Except Error (List Worker)
  | _, [] => .ok []
  | input, name :: rest =>
    if name = inputArgument then do
      let (t, input) ←
        doing (Text.ofString "failed to read stdin") (input.readAll.mapError Error.reading)
      return .new inputName t :: (← readSources fetch input rest)
    else do
      let t ← doing (Text.ofString "failed to read " ++ name) (fetch name)
      return .new name t :: (← readSources fetch input rest)

/-- The sources of a command; without files, the standard input. -/
def sources (c : Command) : List Text := if c.files.isEmpty then [inputArgument] else c.files

/-- Writes out texts, and gives the first error. -/
def deliver (out : Option Output) : List Text → Act Outside (Option Error)
  | [] => pure none
  | [] :: rest => deliver out rest
  | t :: rest => do
    let (n, error) ← (← Output.present out).write t
    let short := if n < t.length then some Error.shortWrite else none
    let later ← deliver out rest
    pure ((error.or short).or later)

/-- Logs the statistics of a cache. -/
def logStats (reply : Text → Reply) (c : Cache) : Act Outside Unit := do
  Outside.record (.reported c.stats)
  Outside.follow (reply (Text.ofString "cache stats"))

/-- Writes the file with the numbers on show, and gives the error. -/
def store (s : Surroundings) (name : Text) (families : List Family) :
    Act Outside (Option Error) := do
  if s.canWrite name then
    Outside.record (.stored name (families.flatMap Family.text))
    pure none
  else
    pure <| some <| .during (Text.ofString "failed to write metrics to " ++ name) (.unwritable name)

/-- Runs a command. -/
def run (c : Command) (s : Surroundings) : Act World Unit := do
  let config ← Act.ofOutcome (c.settle s.fetch)
  let workers ← Act.ofExcept (readSources s.fetch s.input c.sources)
  let cache ←
    if config.tiered then some <$> World.addCache (.new Program.digest config.threshold)
    else pure none
  let meter ←
    if c.metricsFile.isEmpty then pure none
    else some <$> World.addMeter { Meter.new true with watched := cache.map some }
  let task : Task :=
    ⟨config, cache, meter, c.rounds.toNat, c.trace, c.dump, s.canceled, s.reply⟩
  let crew := Crew.run task s.turns ⟨workers, ← get, none⟩
  modify fun _ => crew.world
  let undelivered ← World.doing do
    deliver (← Output.straight s.output) (crew.workers.map (·.output crew.world))
  let world ← get
  if c.stats then
    match cache.bind (world.caches[·]?) with
    | some found => World.doing (logStats s.reply found)
    | none => pure ()
  let unstored ←
    match meter.bind (world.meters[·]?) with
    | some m => World.doing (store s c.metricsFile (world.families m))
    | none => pure none
  Act.check (crew.error.or (undelivered.or unstored))

end Command

/-! ## A command line from beginning to end -/

/-- What has come of a command line. -/
structure Outcome where
  /-- The exit status. -/
  status : Nat
  /-- What is said about the command line itself. -/
  notice : Text
  /-- What the run failed with. -/
  failure : Option Error
  events : Array Event

namespace Outcome

/-- A command line that was not run. -/
def unrun (status : Nat) (notice : Text) : Outcome := ⟨status, notice, none, #[]⟩

/-- What comes of a run. -/
def ofRun : Except Stop Unit × World → Outcome
  | (.ok _, w) => ⟨0, [], none, w.outside.events⟩
  | (.error (.failed e), w) => ⟨e.status, [], some e, w.outside.events⟩
  | (.error (.crashed _), w) => ⟨2, [], none, w.outside.events⟩
  | (.error .exited, w) => ⟨2, [], none, w.outside.events⟩

/-- What comes of a command line.  Help is no failure, and bad usage has a status of its own. -/
def ofArguments (arguments : List Text) (s : Command → Surroundings) : Outcome :=
  match Command.parse arguments with
  | .error .help => unrun 0 Flag.usage
  | .error e => unrun 2 (Text.ofString "ERROR: " ++ e.message ++ [Text.lineFeed])
  | .ok c => ofRun (Act.outcome (c.run (s c)) .empty)

end Outcome
end Birdcall
