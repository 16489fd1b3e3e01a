import Birdcall.Command.Report
import Birdcall.Files

/-!
# The command line

Reads what a command asks for, works out what comes of it, and writes that down.  Everything is
decided by `Outcome.ofArguments`.
-/

namespace Birdcall.Main

/-- The name of a file as the system takes it. -/
def fileName (t : Text) : String := String.ofList (Text.decode t)

/-- Why a file could not be read. -/
def faultOf (name : Text) : IO.Error → Error
  | .noFileOrDirectory _ _ _ => .missingFile name Files.Obstacle.missing.text
  | .permissionDenied _ _ _ => .missingFile name (Text.ofString "permission denied")
  | .inappropriateType _ 20 _ => .missingFile name Files.Obstacle.notDirectory.text
  | .inappropriateType _ _ _ => .unreadable name (Text.ofString "is a directory")
  | .invalidArgument _ 36 _ => .missingFile name Files.Obstacle.tooLong.text
  | e => .unreadable name (Text.ofString e.toString)

/-- Reads a file. -/
def readDisk (name : Text) : IO (Except Error Text) := do
  try
    return .ok (← IO.FS.readBinFile (fileName name)).toList
  catch e => return .error (faultOf name e)

/-- Reads a stream to its end. -/
partial def readStream (s : IO.FS.Stream) (held : ByteArray) : IO ByteArray := do
  let chunk ← s.read 65536
  if chunk.isEmpty then return held else readStream s (held ++ chunk)

/-- The files a command names, with what reading each of them gave. -/
def readNamed (c : Command) : IO (List (Text × Except Error Text)) :=
  ((c.configFile :: c.files).filter fun name => !name.isEmpty && name != Command.inputArgument).mapM
    fun name => return (name, ← readDisk name)

/-- Reads a file of a list. -/
def fetchFrom (files : List (Text × Except Error Text)) (name : Text) : Except Error Text :=
  (files.lookup name).getD (.error (.missingFile name Files.Obstacle.missing.text))

/-- A writer that takes everything. -/
def writer : Writer := ⟨Outcome.outputLabel, .plain, none, Writer.limited none false⟩

/-- The surroundings of a run whose files are read. -/
def surroundings (files : List (Text × Except Error Text)) (input : ByteArray) (canWrite : Bool) :
    Surroundings where
  fetch := fetchFrom files
  canWrite := fun _ => canWrite
  input := .memory input.toList
  output := .writer writer
  canceled := false
  reply := fun _ => .done
  turns := []

/-- Writes files, and tells whether all of them could be written. -/
def store : List (Text × Text) → IO Bool
  | [] => return true
  | (name, content) :: rest => do
    let done ←
      try
        IO.FS.writeBinFile (fileName name) ⟨content.toArray⟩
        pure true
      catch _ => pure false
    return (← store rest) && done

/-- Reads what a command line asks for. -/
def gather (arguments : List Text) : IO (List (Text × Except Error Text) × ByteArray) := do
  match Command.parse arguments with
  | .error _ => return ([], .empty)
  | .ok c =>
    let files ← readNamed c
    let wanted := (c.settle (fetchFrom files)).isOk && c.sources.contains Command.inputArgument
    return (files, ← if wanted then readStream (← IO.getStdin) .empty else pure .empty)

/-- Works out what comes of a command line, and writes the files.  If one cannot be written the
command is told so. -/
def perform (arguments : List Text) : IO Outcome := do
  let (files, input) ← gather arguments
  let outcome := Outcome.ofArguments arguments fun _ => surroundings files input true
  if ← store outcome.stored then return outcome
  else return Outcome.ofArguments arguments fun _ => surroundings files input false

end Birdcall.Main

/-- Runs a command line. -/
def main (arguments : List String) : IO UInt32 := do
  let outcome ← Birdcall.Main.perform (arguments.map Birdcall.Text.ofString)
  (← IO.getStdout).write ⟨outcome.outputText.toArray⟩
  (← IO.getStderr).write ⟨outcome.errorText.toArray⟩
  return outcome.status.toUInt32
