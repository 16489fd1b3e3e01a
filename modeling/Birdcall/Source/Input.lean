import Birdcall.Location
import Birdcall.Source.Stream
import Birdcall.Token

/-!
# Inputs

A queue of sources read as one sequence of characters, each located in its own source.  A source
is opened when all before it have ended, and closed at its own end if it wants to be.

`Input.next` reads one character and `Input.scan` reads the words.
-/

namespace Birdcall

/-- The source being read, and where its next character stands. -/
structure Active where
  source : Source
  stream : Stream
  next : Location

/-- A queue of sources, and how far it has been read. -/
structure Input where
  queue : List Source
  active : Option Active
  /-- Where the latest character stood. -/
  latest : Location

namespace Active

/-- A source about to be read. -/
def ofSource (s : Source) : Active := ⟨s, .ofContent s.content, .start s.title⟩

/-- The label of the source if it is to be closed at its end. -/
def closing (a : Active) : List String := if a.source.closes then [a.source.label] else []

end Active

namespace Input

/-- An input before any reading. -/
def ofSources (queue : List Source) : Input := ⟨queue, none, .zero⟩

/-- How many characters the sources of a queue hold at most. -/
def queueSize : List Source → Nat
  | [] => 0
  | s :: rest => s.content.size + queueSize rest

/-- How many characters are not yet handed out at most. -/
def size (inp : Input) : Nat :=
  (inp.active.map (·.stream.size)).getD 0 + queueSize inp.queue

/-- What one reading from an input gives. -/
structure Reading where
  read : CharRead
  input : Input
  /-- The sources closed meanwhile, by label. -/
  closed : List String

/-- What the active source gives while it has not ended. -/
def current? (latest : Location) (a : Active) (queue : List Source) : Option Reading :=
  let got := a.stream.nextChar
  let a' : Active := { a with stream := got.2 }
  match got.1 with
  | .char c n => some ⟨.char c n, ⟨queue, some { a' with next := a.next.after c }, a.next⟩, []⟩
  | .fault .endOfInput => none
  | .fault e => some ⟨.fault e, ⟨queue, some a', latest⟩, []⟩
  | .nothing => some ⟨.fault .noProgress, ⟨queue, some a', latest⟩, []⟩

/-- Reads from the active source, going on to the queued ones as they end. -/
def nextFrom (latest : Location) (a : Active) : List Source → Reading
  | [] => (current? latest a []).getD ⟨.fault .endOfInput, ⟨[], none, latest⟩, a.closing⟩
  | s :: rest =>
    match current? latest a (s :: rest) with
    | some r => r
    | none =>
      let r := nextFrom latest (.ofSource s) rest
      { r with closed := a.closing ++ r.closed }

/-- The next character.  The end is reported once every source has ended. -/
def next (inp : Input) : Reading :=
  match inp.active, inp.queue with
  | some a, queue => nextFrom inp.latest a queue
  | none, s :: rest => nextFrom inp.latest (.ofSource s) rest
  | none, [] => ⟨.fault .endOfInput, inp, []⟩

/-! ## Every character leaves less -/

theorem size_current? {latest : Location} {a : Active} {queue : List Source} {r : Reading}
    (h : current? latest a queue = some r) {c : Char} {n : Nat} (hr : r.read = .char c n) :
    r.input.size < a.stream.size + queueSize queue := by
  simp only [current?] at h
  split at h
  · next c' n' hread =>
    have hlt : a.stream.nextChar.snd.size < a.stream.size :=
      Stream.size_nextChar (Prod.ext hread rfl : a.stream.nextChar = (.char c' n', _))
    simp only [Option.some.injEq] at h
    rw [← h]
    simp only [size, Option.map_some, Option.getD_some]
    omega
  · simp at h
  · simp only [Option.some.injEq] at h
    simp [← h] at hr
  · simp only [Option.some.injEq] at h
    simp [← h] at hr

theorem size_nextFrom (latest : Location) (a : Active) (queue : List Source) {c : Char} {n : Nat}
    (h : (nextFrom latest a queue).read = .char c n) :
    (nextFrom latest a queue).input.size <
      a.stream.size + queueSize queue := by
  induction queue generalizing a with
  | nil =>
    simp only [nextFrom] at h ⊢
    cases hc : current? latest a [] with
    | none => simp [hc] at h
    | some r =>
      simp only [hc, Option.getD_some] at h ⊢
      exact size_current? hc h
  | cons s rest ih =>
    simp only [nextFrom] at h ⊢
    split at h
    · next r hc => exact size_current? hc h
    · have hrest := ih (.ofSource s) h
      rw [show (Active.ofSource s).stream.size = s.content.size from Stream.size_ofContent _]
        at hrest
      simp only [queueSize]
      omega

theorem size_next {inp : Input} {c : Char} {n : Nat} (h : inp.next.read = .char c n) :
    inp.next.input.size < inp.size := by
  obtain ⟨queue, active, latest⟩ := inp
  match active, queue with
  | some a, queue =>
    have := size_nextFrom latest a queue h
    simpa [size, next] using this
  | none, s :: rest =>
    have := size_nextFrom latest (.ofSource s) rest h
    simpa [size, queueSize, next, Active.ofSource, Stream.size_ofContent] using this
  | none, [] => simp [next] at h

end Input

/-! ## Words -/

/-- How far words have been read. -/
structure Lexer where
  tokens : Array Token
  /-- The word that is being read, as far as it has been. -/
  word : Text
  /-- Where the word began. -/
  start : Location

namespace Lexer

/-- Before any character. -/
def empty : Lexer := ⟨#[], [], .zero⟩

/-- Makes a token of the word, if there is one. -/
def flush (l : Lexer) : Lexer :=
  if l.word.isEmpty then l
  else { l with tokens := l.tokens.push (.classify l.word l.start), word := [] }

/-- Takes a character that stands at a place.  White space ends the word, any other character goes
on with it or begins one. -/
def add (l : Lexer) (c : Char) (place : Location) : Lexer :=
  if Text.isBlank c then l.flush
  else
    { l with
      word := l.word ++ Text.encodeChar c
      start := if l.word.isEmpty then place else l.start }

end Lexer

namespace Input

/-- Goes on reading words until the input ends or fails: the tokens or the error, and the sources
closed on the way. -/
def scanFrom (l : Lexer) (inp : Input) : Except ReadError (List Token) × List String :=
  match _h : inp.next.read with
  | .char c _ =>
    let rest := scanFrom (l.add c inp.next.input.latest) inp.next.input
    (rest.1, inp.next.closed ++ rest.2)
  | .fault .endOfInput => (.ok l.flush.tokens.toList, inp.next.closed)
  | .fault e => (.error e, inp.next.closed)
  | .nothing => (.error .noProgress, inp.next.closed)
termination_by inp.size
decreasing_by exact size_next _h

/-- The tokens of an input, or the error that kept it from being read, and the sources closed. -/
def scan (inp : Input) : Except ReadError (List Token) × List String := inp.scanFrom .empty

end Input

/-- The tokens of a text in memory, located in a source called `input`. -/
def Token.lex (t : Text) : List Token :=
  match (Input.ofSources [(Source.ofText t).named (Text.ofString "input")]).scan.1 with
  | .ok tokens => tokens
  | .error _ => []

end Birdcall
