import Birdcall.Command.Flag

/-!
# Commands

What a command line asks for.  Flags and files come in any order; the last value of a flag counts.
A flag is given by its name after two dashes or by its letter after one.  Its value follows behind
an equals sign, behind the letter, or as the next argument; a switch takes only the first of these.
-/

namespace Birdcall

/-- What is to be run, and how. -/
structure Command where
  /-- The configuration file; an empty name stands for none. -/
  configFile : Text
  threshold : Int
  /-- Whether the threshold was given. -/
  thresholdGiven : Bool
  /-- Whether programs are never promoted. -/
  noTier : Bool
  /-- How often each program is executed. -/
  rounds : Int
  trace : Bool
  dump : Bool
  stats : Bool
  /-- Where the numbers on show are written; an empty name stands for nowhere. -/
  metricsFile : Text
  files : List Text
  deriving DecidableEq, Repr

namespace Command

/-- The command of an empty command line. -/
def blank : Command := ⟨[], 10, false, false, 1, false, false, false, [], []⟩

/-- Reads a truth value. -/
def truth? (t : Text) : Option Bool :=
  if ["1", "t", "T", "TRUE", "true", "True"].any (Text.ofString · = t) then some true
  else if ["0", "f", "F", "FALSE", "false", "False"].any (Text.ofString · = t) then some false
  else none

/-- Reads the value of a number flag. -/
def number (f : Flag) (value : Text) : Except UsageError Int :=
  match Text.integer value with
  | .ok n => .ok n
  | .error reason => .error (.badNumber f value reason)

/-- Reads the value of a switch. -/
def switch (f : Flag) (value : Text) : Except UsageError Bool :=
  match truth? value with
  | some b => .ok b
  | none => .error (.badSwitch f value)

/-- Sets a flag to a value. -/
def set (c : Command) (f : Flag) (value : Text) : Except UsageError Command :=
  match f with
  | .config => .ok { c with configFile := value }
  | .metricsFile => .ok { c with metricsFile := value }
  | .rounds => do return { c with rounds := ← number .rounds value }
  | .threshold => do
    return { c with threshold := ← number .threshold value, thresholdGiven := true }
  | .dump => do return { c with dump := ← switch .dump value }
  | .noTier => do return { c with noTier := ← switch .noTier value }
  | .stats => do return { c with stats := ← switch .stats value }
  | .trace => do return { c with trace := ← switch .trace value }

/-- A flag whose value is the next argument, and what is wrong if there is none. -/
structure Waiting where
  flag : Flag
  fault : UsageError

/-- What switches are set to without a value. -/
def on : Text := Text.ofString "true"

/-- Reads letters after a dash.  Letters that begin with `test.` mean nothing. -/
def readLetters (c : Command) : Text → Except UsageError (Command × Option Waiting)
  | [] => .ok (c, none)
  | b :: rest =>
    if (Text.ofString "test.").isPrefixOf (b :: rest) then .ok (c, none)
    else
      match Flag.ofLetter? b with
      | none => .error (if b = Text.byte 'h' then .help else .unknownLetter b (b :: rest))
      | some f =>
        if rest.head? = some (Text.byte '=') && 1 < rest.length then do
          return (← c.set f rest.tail, none)
        else if f.shape = .switch then do readLetters (← c.set f on) rest
        else if !rest.isEmpty then do return (← c.set f rest, none)
        else .ok (c, some ⟨f, .missingLetterValue b [b]⟩)

/-- Reads an argument that begins with two dashes. -/
def readName (c : Command) (argument : Text) : Except UsageError (Command × Option Waiting) :=
  let (name, value) := Text.splitAt (Text.byte '=') (argument.drop 2)
  if name.isEmpty || name.head? = some (Text.byte '-') then .error (.badFlag argument)
  else
    match Flag.ofName? name, value with
    | none, _ => .error (if name = Text.ofString "help" then .help else .unknownFlag name)
    | some f, some value => do return (← c.set f value, none)
    | some f, none =>
      if f.shape = .switch then do return (← c.set f on, none)
      else .ok (c, some ⟨f, .missingValue argument⟩)

/-- Whether an argument names a file. -/
def isFile (argument : Text) : Bool :=
  argument.head? != some (Text.byte '-') || argument.length = 1

/-- Reads arguments.  Two dashes alone end the flags. -/
def readArguments (c : Command) (waiting : Option Waiting) :
    List Text → Except UsageError Command
  | [] =>
    match waiting with
    | none => .ok c
    | some w => .error w.fault
  | argument :: rest =>
    match waiting with
    | some w => do readArguments (← c.set w.flag argument) none rest
    | none =>
      if isFile argument then readArguments { c with files := c.files ++ [argument] } none rest
      else if argument = Text.ofString "--" then .ok { c with files := c.files ++ rest }
      else if (Text.ofString "--").isPrefixOf argument then do
        let (c, waiting) ← c.readName argument
        readArguments c waiting rest
      else do
        let (c, waiting) ← c.readLetters argument.tail
        readArguments c waiting rest

/-- The command of a command line.  Each program is executed at least once. -/
def parse (arguments : List Text) : Except UsageError Command := do
  let c ← readArguments blank none arguments
  if c.rounds < 1 then .error (.badRounds c.rounds) else .ok c

end Command
end Birdcall
