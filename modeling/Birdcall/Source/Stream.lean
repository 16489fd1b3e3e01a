import Birdcall.Source

/-!
# Streams

A source while it is being read, by characters or by bytes.  Bytes are read ahead into a buffer so
that a character cut between two deliveries comes out whole; before an error, the bytes of a
character that never got whole come out one by one.

`Stream.size` counts what is not yet handed out.  A character takes some of it
(`Stream.size_nextChar`), which is why reading a source to its end comes to an end.
-/

namespace Birdcall

/-- What one reading of a character gives. -/
inductive CharRead
  /-- A character and how many bytes it took. -/
  | char (c : Char) (size : Nat)
  | fault (e : ReadError)
  /-- Neither a character nor an error. -/
  | nothing
  deriving DecidableEq, Repr

/-- What an answer comes to.  One that took bytes is a character, whatever error it came with. -/
def CharAnswer.read (a : CharAnswer) : CharRead :=
  if 0 < a.size then .char a.char a.size
  else
    match a.fault with
    | some e => .fault e
    | none => .nothing

namespace CharFeed

/-- The next answer. -/
def answer (f : CharFeed) : CharAnswer := f.pending.headD ⟨Char.ofNat 0, 0, f.ending⟩

/-- The next character. -/
def next (f : CharFeed) : CharRead × CharFeed :=
  (f.answer.read, { f with pending := f.pending.tail })

/-- A character takes an answer. -/
theorem length_next {f f' : CharFeed} {c : Char} {n : Nat} (h : f.next = (.char c n, f')) :
    f'.pending.length < f.pending.length := by
  obtain ⟨pending, ending⟩ := f
  cases pending with
  | nil => cases ending <;> simp [next, answer, CharAnswer.read] at h
  | cons a pending =>
    rw [next, Prod.mk.injEq] at h
    rw [← h.2]
    exact Nat.lt_succ_self _

end CharFeed

/-- A feed with the bytes read ahead of their use. -/
structure Buffered where
  /-- Bytes read and not handed out. -/
  held : Text
  /-- An error met while reading ahead, shown once the held bytes are used up. -/
  fault : Option ReadError
  feed : Feed

namespace Buffered

/-- How many bytes are read ahead at most. -/
def capacity : Nat := 4096

/-- How many empty readings in a row are taken for no progress. -/
def patience : Nat := 100

/-- How many bytes are not yet handed out. -/
def size (b : Buffered) : Nat := b.held.length + b.feed.size

/-- A feed before any reading. -/
def ofFeed (feed : Feed) : Buffered := ⟨[], none, feed⟩

/-- Reads ahead once, going over at most `tries` empty readings. -/
def fill : Nat → Buffered → Buffered
  | 0, b => { b with fault := some .noProgress }
  | tries + 1, b =>
    let got := b.feed.read (capacity - b.held.length)
    let b' : Buffered := { b with held := b.held ++ got.1, feed := got.2.2 }
    match got.2.1 with
    | some e => { b' with fault := some e }
    | none => if got.1.isEmpty then fill tries b' else b'

/-- Reads ahead until the held bytes begin with a whole character or cannot get to.  A character
has at most four bytes, so four rounds are enough. -/
def settle : Nat → Buffered → Buffered
  | 0, b => b
  | rounds + 1, b =>
    if b.held.length < 4 ∧ Text.front b.held = .cut ∧ b.fault = none then
      settle rounds (fill patience b)
    else b

/-- The next character.  An error is shown once. -/
def nextChar (b : Buffered) : CharRead × Buffered :=
  let b := settle 4 b
  match b.held with
  | [] =>
    match b.fault with
    | some e => (.fault e, { b with fault := none })
    | none => (.nothing, b)
  | first :: rest =>
    let p := Text.piece first rest
    (.char p.1.toChar (p.2 + 1), { b with held := rest.drop p.2 })

/-- Shows the pending error, if there is one. -/
def report (b : Buffered) : Text × Option ReadError × Buffered :=
  ([], b.fault, { b with fault := none })

/-- At most `n` bytes: held ones if there are any, else those of a single reading. -/
def read (n : Nat) (b : Buffered) : Text × Option ReadError × Buffered :=
  if n = 0 then
    if b.held.isEmpty then b.report else ([], none, b)
  else if !b.held.isEmpty then
    (b.held.take n, none, { b with held := b.held.drop n })
  else if b.fault.isSome then b.report
  else if capacity ≤ n then
    let got := b.feed.read n
    (got.1, got.2.1, { b with feed := got.2.2 })
  else
    let got := b.feed.read capacity
    if got.1.isEmpty then ([], got.2.1, { b with feed := got.2.2 })
    else
      (got.1.take n, none, { held := got.1.drop n, fault := got.2.1, feed := got.2.2 })

/-! ## No byte is lost -/

theorem size_fill (tries : Nat) (b : Buffered) : (fill tries b).size = b.size := by
  induction tries generalizing b with
  | zero => rfl
  | succ tries ih =>
    have hread := Feed.size_read (capacity - b.held.length) b.feed
    have hsize : b.held.length + (b.feed.read (capacity - b.held.length)).1.length +
        (b.feed.read (capacity - b.held.length)).2.2.size = b.size := by
      simp only [size]
      omega
    simp only [fill]
    split
    · simpa [size] using hsize
    · split
      · rw [ih]
        simpa [size] using hsize
      · simpa [size] using hsize

theorem size_settle (rounds : Nat) (b : Buffered) : (settle rounds b).size = b.size := by
  induction rounds generalizing b with
  | zero => rfl
  | succ rounds ih =>
    simp only [settle]
    split
    · rw [ih, size_fill]
    · rfl

theorem size_nextChar {b b' : Buffered} {c : Char} {n : Nat}
    (h : b.nextChar = (.char c n, b')) : b'.size < b.size := by
  have hsettle := size_settle 4 b
  simp only [nextChar] at h
  split at h
  · split at h <;> simp at h
  · next first rest hheld =>
    simp only [Prod.mk.injEq] at h
    rw [← h.2, ← hsettle]
    simp only [size, hheld, List.length_drop, List.length_cons]
    omega

end Buffered

/-- A source being read. -/
inductive Stream
  | buffered (b : Buffered)
  | memory (rest : Text)
  | chars (answers : CharFeed) (feed : Feed)

namespace Stream

/-- A content before any reading. -/
def ofContent : Content → Stream
  | .bytes feed => buffered (.ofFeed feed)
  | .memory text => memory text
  | .chars answers feed => chars answers feed

/-- How many characters are not yet handed out at most: each takes a byte or an answer. -/
def size : Stream → Nat
  | buffered b => b.size
  | memory rest => rest.length
  | chars answers _ => answers.pending.length

/-- The next character. -/
def nextChar : Stream → CharRead × Stream
  | buffered b =>
    let got := b.nextChar
    (got.1, buffered got.2)
  | memory [] => (.fault .endOfInput, memory [])
  | memory (first :: rest) =>
    let p := Text.piece first rest
    (.char p.1.toChar (p.2 + 1), memory (rest.drop p.2))
  | chars answers feed =>
    let got := answers.next
    (got.1, chars got.2 feed)

/-- At most `n` bytes. -/
def read (n : Nat) : Stream → Text × Option ReadError × Stream
  | buffered b =>
    let got := b.read n
    (got.1, got.2.1, buffered got.2.2)
  | memory [] => ([], some .endOfInput, memory [])
  | memory rest => (rest.take n, none, memory (rest.drop n))
  | chars answers feed =>
    let got := feed.read n
    (got.1, got.2.1, chars answers got.2.2)

theorem size_ofContent (c : Content) : (ofContent c).size = c.size := by
  cases c <;> simp [ofContent, size, Content.size, Buffered.size, Buffered.ofFeed]

/-- A character takes at least one byte or answer. -/
theorem size_nextChar {s s' : Stream} {c : Char} {n : Nat}
    (h : s.nextChar = (.char c n, s')) : s'.size < s.size := by
  match s with
  | buffered b =>
    simp only [nextChar, Prod.mk.injEq] at h
    rw [← h.2]
    exact Buffered.size_nextChar (Prod.ext h.1 rfl)
  | memory [] => simp [nextChar] at h
  | memory (first :: rest) =>
    simp only [nextChar, Prod.mk.injEq] at h
    rw [← h.2]
    simp only [size, List.length_drop, List.length_cons]
    omega
  | chars answers feed =>
    simp only [nextChar, Prod.mk.injEq] at h
    rw [← h.2]
    exact CharFeed.length_next (Prod.ext h.1 rfl)

end Stream

/-- A source opened for reading, by characters or by bytes. -/
structure Reader where
  /-- Its name, if it has one. -/
  name : Option Text
  stream : Stream

/-- Opens a source. -/
def Source.reader (s : Source) : Reader := ⟨s.name, .ofContent s.content⟩

end Birdcall
