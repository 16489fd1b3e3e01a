import Birdcall.Error

/-!
# Files by name

A table of files.  A file has many names: `Path.clean` takes the detours out of a name, and a file
is known by what is left.  Every directory on the way to a file is there too.

The table can be read in two ways.  In memory (`Files.read`) detours do not matter, and a directory
is an empty file.  On a disk (`Files.readDisk`) a name is followed part by part, so every directory
that it passes through has to be there, a directory cannot be read, and an error shows the name as
it was given.
-/

namespace Birdcall

namespace Path

/-- What separates the parts of a path. -/
def slash : UInt8 := Text.byte '/'

/-- The part that means the directory itself. -/
def here : Text := Text.ofString "."

/-- The part that means the directory above. -/
def above : Text := Text.ofString ".."

/-- Whether a path starts from the root. -/
def isRooted (path : Text) : Bool := path.head? = some slash

/-- Goes on by a part, from a place given by its parts, latest first.  There is nothing above the
root, and above the start there are only further steps up. -/
def enter (rooted : Bool) (place : List Text) (part : Text) : List Text :=
  if part.isEmpty || part = here then place
  else if part = above then
    match place with
    | [] => if rooted then [] else [above]
    | last :: before => if last = above then above :: place else before
  else part :: place

/-- The path that leads straight to a place. -/
def ofPlace (rooted : Bool) (place : List Text) : Text :=
  if rooted then slash :: Text.joinWith [slash] place.reverse
  else if place.isEmpty then here
  else Text.joinWith [slash] place.reverse

/-- The shortest path that leads to the same place. -/
def clean (path : Text) : Text :=
  ofPlace (isRooted path) ((Text.splitOn slash path).foldl (enter (isRooted path)) [])

end Path

/-- Files by name. -/
structure Files where
  entries : List (Text × Text)
  /-- Directories that are there without any file. -/
  directories : List Text

namespace Files

/-- By what a file is known.  The start and the directory above it count as the root. -/
def key (name : Text) : Text :=
  let path := Path.clean name
  if path = Path.here || path = Path.above then [Path.slash] else path

/-- Files with the given names. -/
def ofList (files : List (Text × Text)) : Files := ⟨files.map fun (name, t) => (key name, t), []⟩

/-- The content of a file. -/
def find? (f : Files) (name : Text) : Option Text :=
  (f.entries.find? (·.1 = key name)).map (·.2)

/-- Writes a file, in place of one with this name. -/
def write (f : Files) (name content : Text) : Files :=
  { f with entries := (key name, content) :: f.entries.filter (·.1 ≠ key name) }

/-- Whether a name is that of a directory. -/
def isDirectory (f : Files) (name : Text) : Bool :=
  key name = [Path.slash] ||
    f.directories.contains (key name) ||
    f.entries.any fun e => (key name ++ [Path.slash]).isPrefixOf e.1

/-- Reads a file in memory. -/
def read (f : Files) (name : Text) : Except Error Text :=
  match f.find? name with
  | some t => .ok t
  | none =>
    if f.isDirectory name then .ok []
    else .error (.missingFile (key name) (Text.ofString "file does not exist"))

/-! ## On a disk -/

/-- Why a name on a disk leads nowhere. -/
inductive Obstacle
  | missing
  /-- A part that is gone on from is a file. -/
  | notDirectory
  | tooLong
  deriving DecidableEq, Repr

/-- An obstacle as messages show it. -/
def Obstacle.text : Obstacle → Text
  | missing => Text.ofString "no such file or directory"
  | notDirectory => Text.ofString "not a directory"
  | tooLong => Text.ofString "file name too long"

/-- The longest part of a name on a disk. -/
def longestPart : Nat := 255

/-- The longest name on a disk. -/
def longestName : Nat := 4095

/-- Whether there is a directory at a place on a disk.  There is one above every other. -/
def isFolder (f : Files) (rooted : Bool) (place : List Text) : Bool :=
  place.all (· = Path.above) || f.isDirectory (Path.ofPlace rooted place)

/-- Goes on by a part from a place on a disk, if there is a directory, to one where there is
something. -/
def goOn (f : Files) (rooted : Bool) (place : List Text) (part : Text) :
    Except Obstacle (List Text) :=
  let next := Path.enter rooted place part
  if !f.isFolder rooted place then .error .notDirectory
  else if longestPart < part.length then .error .tooLong
  else if f.isFolder rooted next || (f.find? (Path.ofPlace rooted next)).isSome then .ok next
  else .error .missing

/-- The place that a name on a disk leads to. -/
def follow (f : Files) (name : Text) : Except Obstacle (List Text) :=
  if name.isEmpty then .error .missing
  else if longestName < name.length then .error .tooLong
  else (Text.splitOn Path.slash name).foldlM (f.goOn (Path.isRooted name)) []

/-- Reads a file on a disk. -/
def readDisk (f : Files) (name : Text) : Except Error Text :=
  match f.follow name with
  | .error o => .error (.missingFile name o.text)
  | .ok place =>
    match f.find? (Path.ofPlace (Path.isRooted name) place) with
    | some t => .ok t
    | none => .error (.unreadable name (Text.ofString "is a directory"))

/-- How much longer the name is under which a file is written at first. -/
def draftLength : Nat := 10

/-- Whether a file can be written on a disk under a name.  It is first written beside its place,
and then moved there. -/
def canWrite (f : Files) (name : Text) : Bool :=
  let parts := Text.splitOn Path.slash name
  let last := parts.getLastD []
  let folder := Text.joinWith [Path.slash] (parts.dropLast ++ [Path.here])
  let reaches (path : Text) : Bool :=
    match f.follow path with
    | .ok place => f.isFolder (Path.isRooted path) place
    | .error _ => false
  last ≠ [] && last ≠ Path.here && last ≠ Path.above &&
    last.length + draftLength ≤ longestPart && reaches folder && reaches (Path.clean folder) &&
    !reaches name

end Files
end Birdcall
