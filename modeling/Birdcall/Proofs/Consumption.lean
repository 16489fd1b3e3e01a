import Birdcall.Proofs.Lexing

/-!
# What reading takes from a source

A source can be read by characters and by bytes in turn.  Both take from the same buffer, and every
request takes the bytes that come next: none is lost, handed out twice or out of order.

* `Stream.answers` are the answers to a series of requests.  `Answer.Tells` says which bytes an
  answer stands for.
* `Buffered.Owes.nextChar` and `Buffered.Owes.read` are the two kinds of request: what is owed
  behind one is what was owed before, less the bytes that it has taken.
* `Source.reads_lose_nothing` is the whole series.
-/

namespace Birdcall

/-! ## Requests -/

/-- What is asked of a stream: its next character, or at most `n` bytes. -/
inductive Request
  | char
  | bytes (n : Nat)

/-- What a stream answers. -/
inductive Answer
  | char (read : CharRead)
  | bytes (data : Text) (fault : Option ReadError)

namespace Stream

/-- The answer to a request, and the stream behind it. -/
def answer (s : Stream) : Request → Answer × Stream
  | .char => (.char s.nextChar.1, s.nextChar.2)
  | .bytes n => (.bytes (s.read n).1 (s.read n).2.1, (s.read n).2.2)

/-- The answers to requests, one after the other, each with the stream behind it. -/
def answers (s : Stream) : List Request → List (Answer × Stream)
  | [] => []
  | c :: requests => s.answer c :: answers (s.answer c).2 requests

/-- The bytes that are at hand without reading on. -/
def held : Stream → Text
  | buffered b => b.held
  | memory rest => rest
  | chars _ _ => []

/-- The error that was met while reading ahead. -/
def fault : Stream → Option ReadError
  | buffered b => b.fault
  | memory _ | chars _ _ => none

end Stream

namespace Answer

/-- The error that an answer reports. -/
def fault? : Answer → Option ReadError
  | char (.fault f) => some f
  | char _ => none
  | bytes _ f => f

/-- The bytes that an answer stands for, with `after` the stream behind it.

A character stands for its own bytes.  A replacement character of one byte stands for a byte at
which no character begins in the bytes at hand.  If no error was met, none begins there whatever
follows. -/
def Tells (own : Text) (after : Stream) : Answer → Prop
  | char (.char c n) =>
    own.length = n ∧
      (own = Text.encodeChar c ∨
        c = Text.replacement ∧ n = 1 ∧ (∀ d, ¬Text.encodeChar d <+: own ++ after.held) ∧
          (after.fault = none → ∀ d more, ¬Text.encodeChar d <+: own ++ after.held ++ more))
  | char (.fault _) => own = []
  | char .nothing => False
  | bytes data _ => own = data

end Answer

/-! ## One request -/

/-- A byte at which no character begins is none of a character either if more bytes follow, unless a
character may be cut off there. -/
theorem Text.not_isPrefix_append {t : Text} (hnone : ∀ c, ¬encodeChar c <+: t)
    (hcut : front t ≠ .cut) (c : Char) (more : Text) : ¬encodeChar c <+: t ++ more := by
  rintro ⟨rest, hrest⟩
  have hfront := front_encodeChar c rest
  rw [hrest, front_append hcut] at hfront
  apply hnone c
  rw [← take_of_front hfront]
  exact List.take_prefix _ t

namespace Buffered

/-- The errors that may be reported with the given bytes still owed: that of the source if there are
none, and that there is no progress if there were too many empty chunks in a row. -/
def Due (chunks : List Text) (e f : ReadError) (rest : Text) : Prop :=
  f = e ∧ rest = [] ∨ f = .noProgress ∧ ¬Steady chunks

theorem nextChar_fault {b : Buffered} {f : ReadError} (hheld : (b.settle 4).held = [])
    (hfault : (b.settle 4).fault = some f) :
    b.nextChar = (.fault f, { b.settle 4 with fault := none }) := by
  simp only [nextChar, hheld, hfault]

theorem nextChar_piece {b : Buffered} {first : UInt8} {more : Text}
    (hheld : (b.settle 4).held = first :: more) :
    b.nextChar = (.char (Text.piece first more).1.toChar ((Text.piece first more).2 + 1),
      { b.settle 4 with held := more.drop (Text.piece first more).2 }) := by
  simp only [nextChar, hheld]

namespace Owes

variable {chunks : List Text} {e : ReadError} {b : Buffered} {t : Text}

/-- An error that is pending is due once no bytes are held. -/
theorem due (h : Owes chunks e b t) (hheld : b.held = []) : ∀ f ∈ b.fault, Due chunks e f t := by
  intro f hf
  cases h with
  | @mk held fault pending _ hfault =>
    obtain rfl : held = [] := hheld
    rcases hfault f hf with ⟨rfl, rfl⟩ | hstuck
    · exact .inl ⟨rfl, rfl⟩
    · exact .inr hstuck

/-- Reporting an error changes nothing about what is owed. -/
theorem clear (h : Owes chunks e b t) : Owes chunks e { b with fault := none } t := by
  cases h with
  | mk hsteady _ => exact .mk hsteady (by simp)

/-- Held bytes that are handed out are owed no more. -/
theorem handOut (h : Owes chunks e b t) {own left : Text} (hheld : b.held = own ++ left) :
    ∃ rest, t = own ++ rest ∧ Owes chunks e { b with held := left } rest := by
  cases h with
  | @mk held fault pending hsteady hfault =>
    obtain rfl : held = own ++ left := hheld
    exact ⟨left ++ pending.flatten, List.append_assoc _ _ _, .mk hsteady hfault⟩

/-- The first piece of the held bytes, once no more of it can be had. -/
theorem firstPiece (h : Owes chunks e b t) {first : UInt8} {more : Text}
    (hheld : b.held = first :: more) (hsettled : Text.front b.held ≠ .cut ∨ b.fault ≠ none) :
    let p := Text.piece first more
    let b' : Buffered := { b with held := more.drop p.2 }
    ∃ own rest, t = own ++ rest ∧ Owes chunks e b' rest ∧
      (Answer.char (.char p.1.toChar (p.2 + 1))).Tells own (.buffered b') := by
  intro p b'
  rcases Text.piece_cases first more with ⟨c, hpiece, hbytes⟩ | ⟨hpiece, hnone⟩
  · obtain ⟨rest, ht, howes⟩ := h.handOut (hheld.trans hbytes)
    refine ⟨Text.encodeChar c, rest, ht, howes, ?_, .inl ?_⟩
    · -- The character is as long as what it takes of the held bytes.
      show (Text.encodeChar c).length = (Text.piece first more).2 + 1
      have hle := Text.piece_le first more
      have hlength := congrArg List.length hbytes
      rw [List.length_cons, List.length_append, List.length_drop] at hlength
      omega
    · show Text.encodeChar c = Text.encodeChar p.1.toChar
      rw [show p.1 = .char c from hpiece]
      rfl
  · have hp : p = (.stray first, 0) := hpiece
    obtain ⟨rest, ht, howes⟩ := h.handOut (show b.held = [first] ++ more from hheld)
    simp only [b', hp]
    refine ⟨[first], rest, ht, howes, rfl, .inr ⟨rfl, rfl, hnone, ?_⟩⟩
    intro hfault
    rw [hheld] at hsettled
    exact Text.not_isPrefix_append hnone (hsettled.resolve_right fun hne => hne hfault)

/-- The next character takes its own bytes. -/
theorem nextChar (h : Owes chunks e b t) :
    ∃ own rest, t = own ++ rest ∧ Owes chunks e b.nextChar.2 rest ∧
      (Answer.char b.nextChar.1).Tells own (.buffered b.nextChar.2) ∧
      ∀ f ∈ (Answer.char b.nextChar.1).fault?, Due chunks e f rest := by
  obtain ⟨hsettle, hsettled⟩ := h.settle 4 (by omega)
  cases hheld : (b.settle 4).held with
  | nil =>
    cases hfault : (b.settle 4).fault with
    | none =>
      rw [hheld, hfault] at hsettled
      simp [Text.front] at hsettled
    | some f =>
      rw [nextChar_fault hheld hfault]
      refine ⟨[], t, rfl, hsettle.clear, rfl, ?_⟩
      intro f' hf'
      exact hsettle.due hheld f' (hfault.trans hf')
  | cons first more =>
    rw [nextChar_piece hheld]
    obtain ⟨own, rest, ht, howes, htells⟩ := hsettle.firstPiece hheld hsettled
    exact ⟨own, rest, ht, howes, htells, by simp [Answer.fault?]⟩

/-- A single reading when nothing is held takes the bytes that come next, or gives an error. -/
theorem readFeed {feed : Feed} (h : Owes chunks e ⟨[], none, feed⟩ t) (room : Nat) :
    ∃ rest, t = (feed.read room).1 ++ rest ∧ Owes chunks e ⟨[], none, (feed.read room).2.2⟩ rest ∧
      ∀ f ∈ (feed.read room).2.1, (feed.read room).1 = [] ∧ Due chunks e f rest := by
  cases h with
  | @mk _ _ pending hsteady _ =>
    rcases Feed.read_chunks room pending e with
      ⟨rfl, hread⟩ | ⟨got, pending', hread, hflatten, -, hstays, -⟩
    · rw [hread]
      refine ⟨[], rfl, .mk hsteady (by simp), ?_⟩
      intro f hf
      obtain rfl : e = f := Option.some.inj hf
      exact ⟨rfl, .inl ⟨rfl, rfl⟩⟩
    · rw [hread]
      exact ⟨pending'.flatten, hflatten, .mk (fun h => hstays (hsteady h)) (by simp), by simp⟩

/-- Bytes that are read ahead are owed as well. -/
theorem hold {feed : Feed} (h : Owes chunks e ⟨[], none, feed⟩ t) (ahead : Text) :
    Owes chunks e ⟨ahead, none, feed⟩ (ahead ++ t) := by
  cases h with
  | mk hsteady _ => exact .mk hsteady (by simp)

/-- At most `n` bytes are taken as they are. -/
theorem read (h : Owes chunks e b t) (n : Nat) :
    ∃ rest, t = (b.read n).1 ++ rest ∧ Owes chunks e (b.read n).2.2 rest ∧
      ∀ f ∈ (b.read n).2.1, Due chunks e f rest := by
  obtain ⟨held, fault, feed⟩ := b
  unfold Buffered.read
  by_cases hn : n = 0
  · by_cases hheld : held = []
    · rw [if_pos hn, if_pos (List.isEmpty_iff.2 hheld)]
      exact ⟨t, rfl, h.clear, h.due hheld⟩
    · rw [if_pos hn, if_neg (mt List.isEmpty_iff.1 hheld)]
      exact ⟨t, rfl, h, by simp⟩
  rw [if_neg hn]
  by_cases hheld : held = []
  · subst hheld
    cases fault with
    | some f => exact ⟨t, rfl, h.clear, h.due rfl⟩
    | none =>
      by_cases hlarge : capacity ≤ n
      · obtain ⟨rest, ht, howes, hdue⟩ := h.readFeed n
        rw [if_neg (by simp), if_neg (by simp), if_pos hlarge]
        exact ⟨rest, ht, howes, fun f hf => (hdue f hf).2⟩
      · obtain ⟨rest, ht, howes, hdue⟩ := h.readFeed capacity
        rw [if_neg (by simp), if_neg (by simp), if_neg hlarge]
        by_cases hnone : (feed.read capacity).1 = []
        · rw [if_pos (List.isEmpty_iff.2 hnone)]
          rw [hnone] at ht
          exact ⟨rest, ht, howes, fun f hf => (hdue f hf).2⟩
        · -- What does not fit is held, and there is no error if there are bytes.
          rw [if_neg (mt List.isEmpty_iff.1 hnone)]
          cases hfault : (feed.read capacity).2.1 with
          | some f => exact absurd (hdue f hfault).1 hnone
          | none =>
            refine ⟨(feed.read capacity).1.drop n ++ rest, ?_, howes.hold _, by simp⟩
            rw [← List.append_assoc, List.take_append_drop]
            exact ht
  · obtain ⟨rest, ht, howes⟩ := h.handOut (List.take_append_drop n held).symm
    rw [if_pos (by simp [hheld])]
    exact ⟨rest, ht, howes, by simp⟩

end Owes
end Buffered

/-! ## A series of requests -/

namespace Buffered.Owes

variable {chunks : List Text} {e : ReadError} {b : Buffered} {t : Text}

/-- One request takes the bytes that its answer stands for, and they were the next ones. -/
theorem answer (h : Owes chunks e b t) (c : Request) :
    ∃ own rest b', ((Stream.buffered b).answer c).2 = .buffered b' ∧ t = own ++ rest ∧
      Owes chunks e b' rest ∧ ((Stream.buffered b).answer c).1.Tells own (.buffered b') ∧
      ∀ f ∈ ((Stream.buffered b).answer c).1.fault?, Due chunks e f rest := by
  cases c with
  | char =>
    obtain ⟨own, rest, ht, howes, htells, hdue⟩ := h.nextChar
    exact ⟨own, rest, _, rfl, ht, howes, htells, hdue⟩
  | bytes n =>
    obtain ⟨rest, ht, howes, hdue⟩ := h.read n
    exact ⟨_, rest, _, rfl, ht, howes, rfl, hdue⟩

/-- So does a series of requests. -/
theorem answers (h : Owes chunks e b t) (requests : List Request) :
    ∃ taken : List Text, taken.flatten <+: t ∧
      List.Forall₂ (fun own got => Answer.Tells own got.2 got.1) taken
        ((Stream.buffered b).answers requests) ∧
      ∀ i got, ((Stream.buffered b).answers requests)[i]? = some got → ∀ f ∈ got.1.fault?,
        f = e ∧ (taken.take (i + 1)).flatten = t ∨ f = .noProgress ∧ ¬Steady chunks := by
  induction requests generalizing b t with
  | nil => exact ⟨[], List.nil_prefix, .nil, by simp [Stream.answers]⟩
  | cons c requests ih =>
    obtain ⟨own, rest, b', hafter, rfl, howes, htells, hdue⟩ := h.answer c
    obtain ⟨taken, hinit, htold, hfaults⟩ := ih howes
    rw [Stream.answers, hafter]
    refine ⟨own :: taken, ?_, .cons (hafter ▸ htells) htold, ?_⟩
    · rw [List.flatten_cons]
      exact (List.prefix_append_right_inj own).2 hinit
    · intro i got hgot f hf
      cases i with
      | zero =>
        obtain rfl := Option.some.inj hgot
        rcases hdue f hf with ⟨rfl, rfl⟩ | hstuck
        · exact .inl ⟨rfl, by simp⟩
        · exact .inr hstuck
      | succ i =>
        rcases hfaults i got hgot f hf with ⟨rfl, hall⟩ | hstuck
        · exact .inl ⟨rfl, by rw [List.take_succ_cons, List.flatten_cons, hall]⟩
        · exact .inr hstuck

end Buffered.Owes

/-- Whatever is asked of a source in turn, characters or bytes, the bytes that the answers stand for
are those that the source delivers, from the first one on and in order.  The fault of the source is
only reported once all of them have been handed out; the one other error is that there were too many
empty chunks in a row. -/
theorem Source.reads_lose_nothing {s : Source} {chunks : List Text} {e : ReadError}
    (hs : s.content = .bytes (.chunks chunks e)) (requests : List Request) :
    ∃ taken : List Text, taken.flatten <+: chunks.flatten ∧
      List.Forall₂ (fun own got => Answer.Tells own got.2 got.1) taken
        (s.reader.stream.answers requests) ∧
      ∀ i got, (s.reader.stream.answers requests)[i]? = some got → ∀ f ∈ got.1.fault?,
        f = e ∧ (taken.take (i + 1)).flatten = chunks.flatten ∨
          f = .noProgress ∧ ¬Steady chunks := by
  have hstream : s.reader.stream = .buffered (.ofFeed (.chunks chunks e)) := by
    rw [reader, hs]
    rfl
  have howes : Buffered.Owes chunks e (.ofFeed (.chunks chunks e)) ([] ++ chunks.flatten) :=
    .mk id (by simp)
  rw [hstream]
  exact howes.answers requests

/-- An a, an e with an accent that is cut in two, a byte of no character and a b.  Then comes a
fault. -/
def Source.torn : Source :=
  ⟨"", none, [], false, .bytes (.chunks [[97, 0xC3], [], [0xA9, 0xFF, 98]] (.failed [33]))⟩

/-- The torn source is read by characters and by bytes in turn.  The large reading still gets the b
out of the buffer, and then the fault shows. -/
theorem Source.reads_lose_nothing_torn :
    let requests : List Request := [.char, .bytes 0, .char, .char, .bytes 5000, .bytes 1, .char]
    (torn.reader.stream.answers requests).map Prod.fst =
        [.char (.char 'a' 1), .bytes [] none, .char (.char 'é' 2), .char (.char '�' 1),
          .bytes [98] none, .bytes [] (some (.failed [33])), .char (.fault (.failed [33]))] ∧
      ∃ taken : List Text, taken.flatten <+: [97, 0xC3, 0xA9, 0xFF, 98] ∧
        List.Forall₂ (fun own got => Answer.Tells own got.2 got.1) taken
          (torn.reader.stream.answers requests) ∧
        (taken.take 6).flatten = [97, 0xC3, 0xA9, 0xFF, 98] := by
  intro requests
  refine ⟨rfl, ?_⟩
  obtain ⟨taken, hinit, htold, hfaults⟩ := reads_lose_nothing (s := torn) rfl requests
  refine ⟨taken, hinit, htold, ?_⟩
  -- The sixth answer reports the fault of the source, so nothing is left.
  rcases hfaults 5 _ rfl (.failed [33]) rfl with ⟨-, hall⟩ | ⟨hstuck, -⟩
  · exact hall
  · cases hstuck

end Birdcall
