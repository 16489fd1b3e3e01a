import Birdcall.Config.Error
import Birdcall.Program.Spelling
import Birdcall.Source

/-!
# Errors

Everything that can go wrong, by its cause.  `Error.message` holds the wording, and an error keeps
what it was caused by, so `Error.crash?` finds a crash however deep it lies.
-/

namespace Birdcall

/-- What went wrong. -/
inductive Error
  /-- A source could not be read. -/
  | reading (e : ReadError)
  /-- The tokens spell no program. -/
  | spelling (e : SyntaxError)
  /-- The program cannot be run on. -/
  | running (f : Fault)
  /-- A writer, a sink or a closing failed with a message of its own. -/
  | device (message : Text)
  /-- A writer took less than it was offered and gave no reason. -/
  | shortWrite
  /-- The run was called off. -/
  | canceled
  /-- The configuration cannot be used. -/
  | config (e : ConfigError)
  /-- A file could not be opened. -/
  | missingFile (name reason : Text)
  /-- A file that is open could not be read. -/
  | unreadable (name reason : Text)
  /-- A file could not be written. -/
  | unwritable (name : Text)
  /-- A promotion was asked for that the state does not permit. -/
  | notPermitted (state trigger : Text)
  /-- The same gauge was registered twice. -/
  | duplicateGauge
  /-- A guarded run crashed with something other than an error. -/
  | crashed (name shown : Text)
  /-- A guarded run crashed with an error. -/
  | crashedWith (name : Text) (cause : Error)
  /-- A guarded run left without finishing. -/
  | exited (name : Text)
  /-- An error together with what was being done. -/
  | during (context : Text) (cause : Error)
  deriving DecidableEq, Repr

namespace Error

/-- A name and a blank, or nothing for no name. -/
def titled (name rest : Text) : Text :=
  if name.isEmpty then rest else name ++ Text.ofString " " ++ rest

/-- An error as messages show it. -/
def message : Error → Text
  | reading .endOfInput => Text.ofString "EOF"
  | reading .noProgress => Text.ofString "multiple Read calls return no data or error"
  | reading (.failed m) => m
  | spelling e => e.message
  | running f => f.message
  | device m => m
  | shortWrite => Text.ofString "short write"
  | canceled => Text.ofString "context canceled"
  | config e => e.message
  | missingFile name reason =>
    Text.ofString "open " ++ name ++ Text.ofString ": " ++ reason
  | unreadable name reason =>
    Text.ofString "read " ++ name ++ Text.ofString ": " ++ reason
  | unwritable name =>
    if name.all (· = Text.byte '/') then
      Text.ofString "createtemp /: pattern contains path separator"
    else Text.ofString "cannot write " ++ name
  | notPermitted state trigger =>
    Text.ofString "stateless: No valid leaving transitions are permitted from state '" ++ state ++
      Text.ofString "' for trigger '" ++ trigger ++
      Text.ofString "', consider ignoring the trigger"
  | duplicateGauge => Text.ofString "duplicate metrics collector registration attempted"
  | crashed name shown => titled name (Text.ofString "panicked: " ++ shown)
  | crashedWith name cause => titled name (Text.ofString "panicked: " ++ cause.message)
  | exited name => titled name (Text.ofString "called runtime.Goexit")
  | during context cause => context ++ Text.ofString ": " ++ cause.message

/-- The outermost crash or exit in an error. -/
def crash? : Error → Option Error
  | crashed name shown => some (crashed name shown)
  | crashedWith name cause => some (crashedWith name cause)
  | exited name => some (exited name)
  | during _ cause => cause.crash?
  | _ => none

/-- The error at the bottom of an error. -/
def root : Error → Error
  | crashedWith _ cause => cause.root
  | during _ cause => cause.root
  | e => e

/-- The exit status of a command that failed: a crash and an exit have their own. -/
def status (e : Error) : Nat :=
  match e.crash? with
  | some (exited _) => 4
  | some _ => 3
  | none => 1

/-- The names of the fields that a report of the error has: a crash also shows its stack. -/
def fields (e : Error) : List String :=
  match e.crash? with
  | some (exited _) => ["error"]
  | some _ => ["error", "stack"]
  | none => ["error"]

end Error
end Birdcall
