import Birdcall.Text.Utf8

/-!
# Sources

Where a program's text comes from.  A source is known by what it answers when it is read: bytes, an
error, both or neither, in any order, so that one that has failed may go on.  A text in memory hands
out its characters itself, and so do sources of other makes.

`Feed.read` is one reading of bytes.  `Feed.size` counts the bytes still to come, and no reading
loses any (`Feed.size_read`).
-/

namespace Birdcall

/-- Why a reading gave nothing more. -/
inductive ReadError
  /-- Everything has been read. -/
  | endOfInput
  /-- Too many readings in a row gave nothing. -/
  | noProgress
  /-- The source failed. -/
  | failed (message : Text)
  deriving DecidableEq, Repr

/-- What one reading of bytes is answered with: some bytes, an error, both or neither. -/
structure Delivery where
  bytes : Text
  fault : Option ReadError
  deriving DecidableEq, Repr

/-- What remains of a source that delivers bytes.  A number of readings only ever sees a number of
answers, so a list of them stands for any source, also for one that fails and goes on. -/
structure Feed where
  /-- The answers to come. -/
  pending : List Delivery
  /-- The error that every reading behind them gives; nothing at all, for ever, if there is none. -/
  ending : Option ReadError
  deriving DecidableEq, Repr

namespace Feed

/-- Chunks without an error among them, then the error that every further reading gives. -/
def chunks (pending : List Text) (ending : ReadError) : Feed :=
  ⟨pending.map fun chunk => ⟨chunk, none⟩, some ending⟩

/-- Every reading gives nothing. -/
def idle : Feed := ⟨[], none⟩

/-- The bytes still to come. -/
def bytes (f : Feed) : Text := f.pending.flatMap (·.bytes)

/-- How many bytes are still to come. -/
def size (f : Feed) : Nat := f.bytes.length

/-- One reading of at most `room` bytes.  Of bytes that do not fit the rest is left for the next
reading, and so is the error that comes with them. -/
def read (room : Nat) : Feed → Text × Option ReadError × Feed
  | ⟨[], ending⟩ => ([], ending, ⟨[], ending⟩)
  | ⟨d :: pending, ending⟩ =>
    if d.bytes.length ≤ room then (d.bytes, d.fault, ⟨pending, ending⟩)
    else (d.bytes.take room, none, ⟨⟨d.bytes.drop room, d.fault⟩ :: pending, ending⟩)

/-- The bytes of answers up to the end, and the feed behind it. -/
def collect (ending : Option ReadError) : List Delivery → Except ReadError (Text × Feed)
  | [] =>
    match ending with
    | some .endOfInput => .ok ([], ⟨[], ending⟩)
    | some e => .error e
    | none => .error .noProgress
  | d :: pending =>
    match d.fault with
    | none => (collect ending pending).map fun r => (d.bytes ++ r.1, r.2)
    | some .endOfInput => .ok (d.bytes, ⟨pending, ending⟩)
    | some e => .error e

/-- Reads up to the next end: all bytes before it, and what is left behind it.  Any other error
takes the place of the bytes.  A feed that gives neither an end nor an error would be read for ever.
No answer can be given then, so the error that there is no progress stands for none. -/
def readAll (f : Feed) : Except ReadError (Text × Feed) := collect f.ending f.pending

/-- A reading hands over what it takes. -/
theorem size_read (room : Nat) (f : Feed) :
    (f.read room).1.length + (f.read room).2.2.size = f.size := by
  match f with
  | ⟨[], _⟩ => simp [read]
  | ⟨d :: pending, _⟩ =>
    by_cases h : d.bytes.length ≤ room
    · simp [read, h, size, bytes]
    · simp [read, h, size, bytes]
      omega

end Feed

/-- What a source that hands out characters itself is answered with: a character and how many bytes
it took, an error, both or neither. -/
structure CharAnswer where
  char : Char
  size : Nat
  fault : Option ReadError
  deriving DecidableEq, Repr

/-- What remains of a source that hands out characters itself. -/
structure CharFeed where
  /-- The answers to come. -/
  pending : List CharAnswer
  /-- The error behind them; nothing at all, for ever, if there is none. -/
  ending : Option ReadError
  deriving DecidableEq, Repr

/-- What a source holds. -/
inductive Content
  /-- Bytes. -/
  | bytes (feed : Feed)
  /-- A text in memory, which hands out its characters itself. -/
  | memory (text : Text)
  /-- Characters that the source hands out itself, and the bytes it delivers if it is asked for
  these instead. -/
  | chars (answers : CharFeed) (feed : Feed)
  deriving DecidableEq, Repr

namespace Content

/-- Nothing, and never an end. -/
def stuck : Content := .chars ⟨[], none⟩ .idle

/-- The content as bytes only. -/
def toFeed : Content → Feed
  | bytes feed => feed
  | memory text => .chunks (if text.isEmpty then [] else [text]) .endOfInput
  | chars _ feed => feed

/-- How many characters a content holds at most: each takes a byte or an answer. -/
def size : Content → Nat
  | bytes feed => feed.size
  | memory text => text.length
  | chars answers _ => answers.pending.length

/-- Everything a content holds up to its next end, and what is left of it afterwards.  For one that
never ends, the error that there is no progress stands for an answer that never comes (see
`Feed.readAll`). -/
def readAll : Content → Except ReadError (Text × Content)
  | bytes feed => feed.readAll.map fun r => (r.1, bytes r.2)
  | memory text => .ok (text, memory [])
  | chars answers feed => feed.readAll.map fun r => (r.1, chars answers r.2)

end Content

/-- A source of text. -/
structure Source where
  /-- By what the record of events knows it. -/
  label : String
  /-- Its own name, if it has one. -/
  name : Option Text
  /-- What it is called if it has no name. -/
  sort : Text
  /-- Whether it wants to be closed at its end. -/
  closes : Bool
  content : Content

namespace Source

/-- The name that locates a source's characters. -/
def title (s : Source) : Text :=
  s.name.getD (Text.ofString "<unnamed " ++ s.sort ++ Text.ofString ">")

/-- A source under another name.  Only its bytes show through. -/
def named (name : Text) (s : Source) : Source :=
  { s with name := some name, closes := false, content := .bytes s.content.toFeed }

/-- A text in memory. -/
def ofText (t : Text) : Source :=
  { label := "", name := none, sort := [], closes := false, content := .memory t }

end Source
end Birdcall
