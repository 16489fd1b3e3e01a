import Birdcall.Proofs.Loading
import Birdcall.Proofs.Words

/-!
# How input arrives

A source delivers its bytes in chunks that may be cut anywhere, also inside a character.  What is
read from it depends on the bytes alone.

* Reading ahead.  `Owes` says that held bytes and a feed together still owe a text, and which errors
  may be pending.  Reading ahead keeps that (`Owes.fill`, `Owes.settle`).  If there never are too many
  empty chunks in a row the next character is that of the text (`Delivers.nextChar_cons`).
* Reading a queue.  A source that ends is read to its end and gives the characters of its bytes, each
  with its place, and reading goes on with the sources behind it (`Input.drain_sources`).
* `Input.scan_of_deliveries` puts both together.
-/

namespace Birdcall

/-- Chunks among which there are never as many empty ones in a row as are taken for no progress. -/
def Steady (pending : List Text) : Prop :=
  ¬List.replicate Buffered.patience ([] : Text) <:+: pending

theorem Steady.of_cons {chunk : Text} {pending : List Text} (h : Steady (chunk :: pending)) :
    Steady pending :=
  fun hinfix => h (List.infix_cons hinfix)

/-- A chunk that is not empty may come before the others. -/
theorem Steady.cons {chunk : Text} {pending : List Text} (hne : chunk ≠ []) (h : Steady pending) :
    Steady (chunk :: pending) := by
  intro hinfix
  rcases List.infix_cons_iff.1 hinfix with hprefix | hinfix
  · exact hne (List.cons_prefix_cons.1 hprefix).1.symm
  · exact h hinfix

theorem steady_of_length {pending : List Text} (h : pending.length < Buffered.patience) :
    Steady pending := by
  intro hinfix
  have hle := hinfix.length_le
  rw [List.length_replicate] at hle
  omega

/-! ## Reading ahead -/

theorem Feed.bytes_chunks (pending : List Text) (e : ReadError) :
    (chunks pending e).bytes = pending.flatten := by
  rw [bytes, chunks, List.flatMap_map, List.flatMap_def, List.map_id']

/-- One reading gives the beginning of what the chunks hold, and gives nothing only if there is an
empty chunk.  Behind the last chunk it gives the fault. -/
theorem Feed.read_chunks (room : Nat) (pending : List Text) (e : ReadError) :
    (pending = [] ∧ read room (.chunks pending e) = ([], some e, .chunks [] e)) ∨
      ∃ got pending', read room (.chunks pending e) = (got, none, .chunks pending' e) ∧
        pending.flatten = got ++ pending'.flatten ∧ got.length ≤ room ∧
        (Steady pending → Steady pending') ∧ (got = [] → 0 < room → pending = [] :: pending') := by
  cases pending with
  | nil => exact .inl ⟨rfl, rfl⟩
  | cons chunk pending =>
    by_cases hfits : chunk.length ≤ room
    · have hread : read room (.chunks (chunk :: pending) e) = (chunk, none, .chunks pending e) :=
        if_pos hfits
      refine .inr ⟨chunk, pending, hread, rfl, hfits, Steady.of_cons, ?_⟩
      rintro rfl -
      rfl
    · have hread : read room (.chunks (chunk :: pending) e) =
          (chunk.take room, none, .chunks (chunk.drop room :: pending) e) :=
        if_neg hfits
      have hdrop : chunk.drop room ≠ [] := by
        rw [Ne, List.drop_eq_nil_iff]
        omega
      refine .inr ⟨_, _, hread, ?_, List.length_take_le _ _, fun h => .cons hdrop h.of_cons, ?_⟩
      · rw [List.flatten_cons, List.flatten_cons, ← List.append_assoc, List.take_append_drop]
      · intro hnone hroom
        rw [List.take_eq_nil_iff, ← List.length_eq_zero_iff] at hnone
        omega

namespace Buffered

/-- Held bytes and a feed that together still owe a text, of a source that delivers chunks and then a
fault.  An error is only pending if it is this fault and no chunk is left, or if there were too many
empty chunks in a row. -/
inductive Owes (chunks : List Text) (e : ReadError) : Buffered → Text → Prop
  | mk {held : Text} {fault : Option ReadError} {pending : List Text}
      (hsteady : Steady chunks → Steady pending)
      (hfault : ∀ f ∈ fault, f = e ∧ pending = [] ∨ f = .noProgress ∧ ¬Steady chunks) :
      Owes chunks e ⟨held, fault, .chunks pending e⟩ (held ++ pending.flatten)

/-- Reading ahead gets some bytes, or there are none left and it meets the fault, or it gives up. -/
theorem fill_cases {e : ReadError} (tries : Nat) {held : Text} (fault : Option ReadError)
    (pending : List Text) (hroom : held.length < capacity) :
    (∃ got pending', got ≠ [] ∧ (Steady pending → Steady pending') ∧
        pending.flatten = got ++ pending'.flatten ∧
        fill tries ⟨held, fault, .chunks pending e⟩ = ⟨held ++ got, fault, .chunks pending' e⟩) ∨
      (pending.flatten = [] ∧
        fill tries ⟨held, fault, .chunks pending e⟩ = ⟨held, some e, .chunks [] e⟩) ∨
      ∃ pending', pending = List.replicate tries [] ++ pending' ∧
        fill tries ⟨held, fault, .chunks pending e⟩ =
          ⟨held, some .noProgress, .chunks pending' e⟩ := by
  induction tries generalizing pending with
  | zero => exact .inr (.inr ⟨pending, rfl, rfl⟩)
  | succ tries ih =>
    have hpos : 0 < capacity - held.length := by omega
    rcases Feed.read_chunks (capacity - held.length) pending e with
      ⟨rfl, hread⟩ | ⟨got, pending', hread, hflatten, -, hsteady, hempty⟩
    · refine .inr (.inl ⟨rfl, ?_⟩)
      simp [fill, hread]
    · by_cases hgot : got = []
      · -- An empty chunk is passed over, and there is one less to be patient about.
        obtain rfl := hempty hgot hpos
        have hfill : fill (tries + 1) ⟨held, fault, .chunks ([] :: pending') e⟩ =
            fill tries ⟨held, fault, .chunks pending' e⟩ := by
          simp [fill, hread, hgot]
        rw [hfill, List.flatten_cons, List.nil_append]
        rcases ih pending' with ⟨got, rest, hne, hsteady', hflatten', hfill⟩ | hended |
            ⟨rest, hrest, hfill⟩
        · exact .inl ⟨got, rest, hne, fun h => hsteady' (hsteady h), hflatten', hfill⟩
        · exact .inr (.inl hended)
        · exact .inr (.inr ⟨rest, by rw [hrest]; rfl, hfill⟩)
      · exact .inl ⟨got, pending', hgot, hsteady, hflatten, by simp [fill, hread, hgot]⟩

namespace Owes

variable {chunks : List Text} {e : ReadError} {b : Buffered} {t : Text}

/-- Reading ahead changes nothing about what is owed, and it gets on. -/
theorem fill (h : Owes chunks e b t) (hfault : b.fault = none) (hroom : b.held.length < capacity) :
    Owes chunks e (b.fill patience) t ∧
      (b.held.length < (b.fill patience).held.length ∨ (b.fill patience).fault ≠ none) := by
  cases h with
  | @mk held fault pending hsteady _ =>
    obtain rfl : fault = none := hfault
    rcases fill_cases (e := e) patience none pending hroom with
      ⟨got, pending', hgot, hsteady', hflatten, hfill⟩ | ⟨hflatten, hfill⟩ | ⟨pending', rfl, hfill⟩
    · rw [hfill, hflatten, ← List.append_assoc]
      refine ⟨.mk (fun h => hsteady' (hsteady h)) (by simp), .inl ?_⟩
      have := List.length_pos_iff.2 hgot
      simp only [List.length_append]
      omega
    · rw [hfill, hflatten]
      exact ⟨.mk (fun _ => steady_of_length (by decide)) (by simp), .inr (by simp)⟩
    · -- So many empty chunks in a row are not steady, and so neither was the source.
      have hstuck : ¬Steady chunks := by
        intro h
        exact hsteady h (List.prefix_append _ pending').isInfix
      rw [hfill, List.flatten_append, List.flatten_replicate_nil, List.nil_append]
      exact ⟨.mk (fun h => absurd h hstuck) (by simp [hstuck]), .inr (by simp)⟩

/-- With enough rounds the held bytes begin with a whole character, or an error is pending. -/
theorem settle (h : Owes chunks e b t) (rounds : Nat) (hrounds : 4 ≤ b.held.length + rounds) :
    Owes chunks e (b.settle rounds) t ∧
      (Text.front (b.settle rounds).held ≠ .cut ∨ (b.settle rounds).fault ≠ none) := by
  induction rounds generalizing b with
  | zero => exact ⟨h, .inl (Text.front_ne_cut hrounds)⟩
  | succ rounds ih =>
    rw [Buffered.settle]
    by_cases hwait : b.held.length < 4 ∧ Text.front b.held = .cut ∧ b.fault = none
    · rw [if_pos hwait]
      have hroom : b.held.length < capacity := Nat.lt_trans hwait.1 (by decide)
      obtain ⟨hfill, hmore | hended⟩ := h.fill hwait.2.2 hroom
      · exact ih hfill (by omega)
      · have hstays : (b.fill patience).settle rounds = b.fill patience := by
          cases rounds with
          | zero => rfl
          | succ rounds => rw [Buffered.settle, if_neg fun hwait => hended hwait.2.2]
        rw [hstays]
        exact ⟨hfill, .inr hended⟩
    · rw [if_neg hwait]
      refine ⟨h, ?_⟩
      by_cases hlong : b.held.length < 4
      · by_cases hfront : Text.front b.held = .cut
        · exact .inr fun hfault => hwait ⟨hlong, hfront, hfault⟩
        · exact .inl hfront
      · exact .inl (Text.front_ne_cut (by omega))

end Owes

/-- Held bytes and a feed that together give a text, and then a fault. -/
def Delivers (e : ReadError) (b : Buffered) (t : Text) : Prop :=
  ∃ chunks, Steady chunks ∧ Owes chunks e b t

namespace Delivers

variable {e : ReadError} {b : Buffered} {t : Text}

/-- Once the held bytes cannot get to begin with a whole character all bytes are held. -/
theorem settle (h : Delivers e b t) :
    ∃ held fault pending, b.settle 4 = ⟨held, fault, .chunks pending e⟩ ∧
      t = held ++ pending.flatten ∧ Steady pending ∧
      (fault = none ∧ Text.front held ≠ .cut ∨ fault = some e ∧ pending = []) := by
  obtain ⟨chunks, hsteady, howes⟩ := h
  obtain ⟨hsettle, hsettled⟩ := howes.settle 4 (by omega)
  generalize hb : b.settle 4 = b' at hsettle hsettled
  cases hsettle with
  | @mk held fault pending hstays hfault =>
    refine ⟨held, fault, pending, rfl, rfl, hstays hsteady, ?_⟩
    cases fault with
    | none => exact .inl ⟨rfl, hsettled.resolve_right fun hne => hne rfl⟩
    | some f =>
      rcases hfault f rfl with ⟨rfl, hpending⟩ | ⟨-, hstuck⟩
      · exact .inr ⟨rfl, hpending⟩
      · exact absurd hsteady hstuck

/-- After the last byte comes the fault. -/
theorem nextChar_nil (h : Delivers e b []) : b.nextChar.1 = .fault e := by
  obtain ⟨held, fault, pending, hb, ht, -, ⟨-, hfront⟩ | ⟨rfl, rfl⟩⟩ := h.settle
  · obtain ⟨rfl, -⟩ := List.append_eq_nil_iff.1 ht.symm
    exact absurd rfl hfront
  · obtain ⟨rfl, -⟩ := List.append_eq_nil_iff.1 ht.symm
    simp only [nextChar, hb]

/-- The next character is the first one of the text, and the rest of the text is still to be
delivered. -/
theorem nextChar_cons {first : UInt8} {rest : Text} (h : Delivers e b (first :: rest)) :
    ∃ b', b.nextChar =
        (.char (Text.piece first rest).1.toChar ((Text.piece first rest).2 + 1), b') ∧
      Delivers e b' (rest.drop (Text.piece first rest).2) := by
  obtain ⟨held, fault, pending, hb, ht, hsteady, ⟨rfl, hfront⟩ | ⟨rfl, rfl⟩⟩ := h.settle
  · cases held with
    | nil => exact absurd rfl hfront
    | cons first' held =>
      rw [List.cons_append] at ht
      obtain ⟨rfl, rfl⟩ := List.cons.inj ht
      -- The character is all held already, so what follows does not matter.
      have hpiece := Text.piece_append hfront pending.flatten
      have hle := Text.piece_le first held
      refine ⟨⟨held.drop (Text.piece first held).2, none, .chunks pending e⟩, ?_, ?_⟩
      · simp only [nextChar, hb, hpiece]
      · rw [hpiece, List.drop_append_of_le_length hle]
        exact ⟨pending, hsteady, .mk id (by simp)⟩
  · rw [List.flatten_nil, List.append_nil] at ht
    subst ht
    have howes := @Owes.mk [] e (rest.drop (Text.piece first rest).2) (some e) [] id (by simp)
    rw [List.flatten_nil, List.append_nil] at howes
    exact ⟨_, by simp only [nextChar, hb], [], hsteady, howes⟩

end Delivers
end Buffered

/-! ## Reading a queue -/

namespace Source

/-- The bytes that a source delivers. -/
def bytes (s : Source) : Text :=
  match s.content with
  | .bytes feed | .chars _ feed => feed.bytes
  | .memory t => t

/-- A source that delivers bytes in chunks, and then gives a fault. -/
def Delivers (s : Source) (e : ReadError) : Prop :=
  ∃ pending, s.content = .bytes (.chunks pending e) ∧ Steady pending

/-- The characters of a source, read by themselves, each with its place in the source. -/
def located (s : Source) : List (Char × Location) :=
  Location.located s.title (Text.decode s.bytes)

theorem Delivers.stream {s : Source} {e : ReadError} (h : s.Delivers e) :
    ∃ b, Stream.ofContent s.content = .buffered b ∧ b.Delivers e s.bytes := by
  obtain ⟨pending, hcontent, hsteady⟩ := h
  refine ⟨.ofFeed (.chunks pending e), by rw [hcontent]; rfl, ?_⟩
  have hbytes : s.bytes = [] ++ pending.flatten := by
    rw [bytes, hcontent]
    exact Feed.bytes_chunks pending e
  rw [hbytes]
  exact ⟨pending, hsteady, .mk id (by simp)⟩

end Source

namespace Input

section Next

variable {latest : Location} {a : Active} {queue : List Source}

theorem nextFrom_char {c : Char} {n : Nat} {stream : Stream}
    (h : a.stream.nextChar = (.char c n, stream)) :
    nextFrom latest a queue =
      ⟨.char c n, ⟨queue, some ⟨a.source, stream, a.next.after c⟩, a.next⟩, []⟩ := by
  cases queue <;> simp [nextFrom, current?, h]

/-- At the end of a source reading goes on as if it had never been there. -/
theorem nextFrom_end (h : a.stream.nextChar.1 = .fault .endOfInput) :
    (nextFrom latest a queue).read = (next ⟨queue, none, latest⟩).read ∧
      (nextFrom latest a queue).input = (next ⟨queue, none, latest⟩).input := by
  cases queue <;> simp [nextFrom, current?, h, next]

theorem nextFrom_fault {e : ReadError} (h : a.stream.nextChar.1 = .fault e)
    (he : e ≠ .endOfInput) : (nextFrom latest a queue).read = .fault e := by
  cases queue <;> cases e <;> simp_all [nextFrom, current?]

end Next

theorem drain_congr {inp inp' : Input} (hread : inp.next.read = inp'.next.read)
    (hinput : inp.next.input = inp'.next.input) :
    inp.drain.chars = inp'.drain.chars ∧ inp.drain.fault = inp'.drain.fault := by
  cases h : inp'.next.read with
  | char c n => rw [drain_char h, drain_char (hread.trans h), hinput]; exact ⟨rfl, rfl⟩
  | nothing => rw [drain_nothing h, drain_nothing (hread.trans h)]; exact ⟨rfl, rfl⟩
  | fault e =>
    by_cases he : e = .endOfInput
    · subst he
      rw [drain_end h, drain_end (hread.trans h)]
      exact ⟨rfl, rfl⟩
    · rw [drain_fault h he, drain_fault (hread.trans h) he]
      exact ⟨rfl, rfl⟩

/-- One character of the text that the active source delivers. -/
theorem drain_step {e : ReadError} {first : UInt8} {rest : Text} {b : Buffered}
    (h : b.Delivers e (first :: rest)) (s : Source) (place latest : Location)
    (queue : List Source) :
    let c := (Text.piece first rest).1.toChar
    ∃ b', b'.Delivers e (rest.drop (Text.piece first rest).2) ∧
      (drain ⟨queue, some ⟨s, .buffered b, place⟩, latest⟩).chars =
          (c, place) :: (drain ⟨queue, some ⟨s, .buffered b', place.after c⟩, place⟩).chars ∧
        (drain ⟨queue, some ⟨s, .buffered b, place⟩, latest⟩).fault =
          (drain ⟨queue, some ⟨s, .buffered b', place.after c⟩, place⟩).fault := by
  intro c
  obtain ⟨b', hnext, hrest⟩ := h.nextChar_cons
  have hstep : next ⟨queue, some ⟨s, .buffered b, place⟩, latest⟩ =
      ⟨.char c ((Text.piece first rest).2 + 1),
        ⟨queue, some ⟨s, .buffered b', place.after c⟩, place⟩, []⟩ :=
    nextFrom_char (congrArg (fun got => (got.1, Stream.buffered got.2)) hnext)
  rw [drain_char (congrArg Reading.read hstep), hstep]
  exact ⟨b', hrest, rfl, rfl⟩

/-- A source that ends is read to its end, character by character, and then reading goes on behind
it. -/
theorem drain_ending (t : Text) {b : Buffered} (h : b.Delivers .endOfInput t) (s : Source)
    (place latest : Location) (queue : List Source) :
    ∃ latest',
      (drain ⟨queue, some ⟨s, .buffered b, place⟩, latest⟩).chars =
          place.locate (Text.decode t) ++ (drain ⟨queue, none, latest'⟩).chars ∧
        (drain ⟨queue, some ⟨s, .buffered b, place⟩, latest⟩).fault =
          (drain ⟨queue, none, latest'⟩).fault := by
  induction t using Text.pieces_induction generalizing b place latest with
  | nil =>
    have hend : (next ⟨queue, some ⟨s, .buffered b, place⟩, latest⟩).read =
          (next ⟨queue, none, latest⟩).read ∧
        (next ⟨queue, some ⟨s, .buffered b, place⟩, latest⟩).input =
          (next ⟨queue, none, latest⟩).input := nextFrom_end h.nextChar_nil
    rw [Text.decode_nil]
    exact ⟨latest, drain_congr hend.1 hend.2⟩
  | cons first rest ih =>
    obtain ⟨b', hrest, hchars, hfault⟩ := drain_step h s place latest queue
    obtain ⟨latest', hmore, hlast⟩ := ih hrest (place.after (Text.piece first rest).1.toChar) place
    rw [hchars, hfault, hmore, hlast, Text.decode_cons]
    exact ⟨latest', rfl, rfl⟩

/-- A source that fails is read to its fault, and nothing behind it is read. -/
theorem drain_failing (t : Text) {e : ReadError} (he : e ≠ .endOfInput) {b : Buffered}
    (h : b.Delivers e t) (s : Source) (place latest : Location) (queue : List Source) :
    (drain ⟨queue, some ⟨s, .buffered b, place⟩, latest⟩).fault = some e := by
  induction t using Text.pieces_induction generalizing b place latest with
  | nil =>
    have hread : (next ⟨queue, some ⟨s, .buffered b, place⟩, latest⟩).read = .fault e :=
      nextFrom_fault h.nextChar_nil he
    rw [drain_fault hread he]
  | cons first rest ih =>
    obtain ⟨b', hrest, -, hfault⟩ := drain_step h s place latest queue
    rw [hfault]
    exact ih hrest _ _

theorem drain_open (latest : Location) (s : Source) (queue : List Source) :
    (drain ⟨s :: queue, none, latest⟩).chars =
        (drain ⟨queue, some (.ofSource s), latest⟩).chars ∧
      (drain ⟨s :: queue, none, latest⟩).fault =
        (drain ⟨queue, some (.ofSource s), latest⟩).fault :=
  drain_congr rfl rfl

/-- The sources at the front of a queue are read one after the other if they all end. -/
theorem drain_sources {sources : List Source} (h : ∀ s ∈ sources, s.Delivers .endOfInput)
    (latest : Location) (queue : List Source) :
    ∃ latest',
      (drain ⟨sources ++ queue, none, latest⟩).chars =
          sources.flatMap Source.located ++ (drain ⟨queue, none, latest'⟩).chars ∧
        (drain ⟨sources ++ queue, none, latest⟩).fault =
          (drain ⟨queue, none, latest'⟩).fault := by
  induction sources generalizing latest with
  | nil => exact ⟨latest, rfl, rfl⟩
  | cons s sources ih =>
    obtain ⟨b, hstream, hdelivers⟩ := (h s List.mem_cons_self).stream
    obtain ⟨hchars, hfault⟩ := drain_open latest s (sources ++ queue)
    rw [Active.ofSource, hstream] at hchars hfault
    obtain ⟨middle, hown, hafter⟩ :=
      drain_ending s.bytes hdelivers s (.start s.title) latest (sources ++ queue)
    obtain ⟨latest', hothers, hlast⟩ := ih (fun s hs => h s (List.mem_cons_of_mem _ hs)) middle
    refine ⟨latest', ?_, ?_⟩
    · rw [List.cons_append, hchars, hown, hothers, List.flatMap_cons, List.append_assoc,
        Location.locate_start]
      rfl
    · rw [List.cons_append, hfault, hafter, hlast]

/-- Sources that all end give the words of their characters. -/
theorem scan_sources {sources : List Source} (h : ∀ s ∈ sources, s.Delivers .endOfInput) :
    (ofSources sources).scan.1 = .ok (Token.ofChars (sources.flatMap Source.located)) := by
  obtain ⟨latest, hchars, hfault⟩ := drain_sources h .zero []
  have hend : (drain ⟨[], none, latest⟩).chars = [] ∧ (drain ⟨[], none, latest⟩).fault = none := by
    rw [drain_end rfl]
    exact ⟨rfl, rfl⟩
  rw [List.append_nil, hend.1, List.append_nil] at hchars
  rw [List.append_nil, hend.2] at hfault
  rw [scan_eq, ofSources, hfault, hchars]

/-- Scanning depends on the names and the bytes of the sources only.

If every source ends, the tokens are the words of their characters, which are read source by source:
a word may go on in the next source, and a character cannot.  Every word stands where its first
character stands in its own source.  If the first source that does not end fails, then its fault is
all there is, whatever was read before and whatever is queued behind it. -/
theorem scan_of_deliveries (sources : List Source) (h : ∀ s ∈ sources, s.Delivers .endOfInput) :
    (∃ words, Parted (fun q => Text.isBlank q.1) (sources.flatMap Source.located) words ∧
        (∀ others, Parted (fun q => Text.isBlank q.1) (sources.flatMap Source.located) others →
          others = words) ∧
        (ofSources sources).scan.1 = .ok (words.map Token.ofWord)) ∧
      ∀ failing e queue, failing.Delivers e → e ≠ .endOfInput →
        (ofSources (sources ++ failing :: queue)).scan.1 = .error e := by
  constructor
  · have hparted := Token.parted_words (sources.flatMap Source.located)
    exact ⟨_, hparted, fun others hothers => hparted.unique hothers, scan_sources h⟩
  · intro failing e queue hfailing he
    obtain ⟨latest, -, hfault⟩ := drain_sources h .zero (failing :: queue)
    obtain ⟨b, hstream, hdelivers⟩ := hfailing.stream
    have hopen := (drain_open latest failing queue).2
    rw [Active.ofSource, hstream, drain_failing _ he hdelivers] at hopen
    rw [hopen] at hfault
    rw [scan_eq, ofSources, hfault]

/-- Two sources: `x` delivers an a, an e with an accent that is cut in two, a line feed and a b, with
an empty chunk between them, and `y` delivers a c and a space. -/
def cutSources : List Source :=
  [⟨"", some [120], [], false, .bytes (.chunks [[97], [], [0xC3], [0xA9, 10, 98]] .endOfInput)⟩,
    ⟨"", some [121], [], true, .bytes (.chunks [[99], [32]] .endOfInput)⟩]

/-- A source that fails inside a character. -/
def brokenSource : Source :=
  ⟨"", some [122], [], false, .bytes (.chunks [[97, 32], [0xF0]] (.failed [33]))⟩

theorem scan_of_deliveries_cut :
    (∀ s ∈ cutSources, s.Delivers .endOfInput) ∧ brokenSource.Delivers (.failed [33]) ∧
      (ofSources cutSources).scan.1 =
        .ok [⟨.identifier, [97, 0xC3, 0xA9], ⟨[120], 1, 1⟩⟩, ⟨.identifier, [98, 99], ⟨[120], 2, 1⟩⟩] ∧
      (ofSources (cutSources ++ [brokenSource])).scan.1 = .error (.failed [33]) := by
  have h : ∀ s ∈ cutSources, s.Delivers .endOfInput := by
    intro s hs
    rcases List.mem_cons.1 hs with rfl | hs
    · exact ⟨_, rfl, steady_of_length (by decide)⟩
    · rcases List.mem_singleton.1 hs with rfl
      exact ⟨_, rfl, steady_of_length (by decide)⟩
  have hbroken : brokenSource.Delivers (.failed [33]) := ⟨_, rfl, steady_of_length (by decide)⟩
  obtain ⟨⟨words, -, hunique, hscan⟩, hfails⟩ := scan_of_deliveries cutSources h
  refine ⟨h, hbroken, ?_, hfails brokenSource _ [] hbroken (by decide)⟩
  -- The words, and that the characters fall apart into them.
  let first : List (Char × Location) := [('a', ⟨[120], 1, 1⟩), ('é', ⟨[120], 1, 2⟩)]
  let second : List (Char × Location) := [('b', ⟨[120], 2, 1⟩), ('c', ⟨[121], 1, 1⟩)]
  have hchars : cutSources.flatMap Source.located =
      first ++ ('\n', ⟨[120], 1, 3⟩) :: (second ++ [(' ', ⟨[121], 1, 2⟩)]) := by
    have hx : Text.decode [97, 0xC3, 0xA9, 10, 98] = ['a', 'é', '\n', 'b'] :=
      Text.decode_encode ['a', 'é', '\n', 'b']
    have hy : Text.decode [99, 32] = ['c', ' '] := Text.decode_encode ['c', ' ']
    simp only [cutSources, Source.located, Source.bytes, Source.title, List.flatMap_cons,
      List.flatMap_nil, Feed.bytes_chunks, List.flatten_cons, List.flatten_nil, List.append_nil,
      List.cons_append, List.nil_append, Option.getD_some, hx, hy]
    rfl
  have hwords : [first, second] = words := by
    apply hunique
    rw [hchars]
    refine .piece (by decide) (by decide) (by decide) (.skip (by decide) ?_)
    exact .piece (by decide) (by decide) (by decide) (.skip (by decide) .nil)
  have hfirst : Text.capitals [97, 0xC3, 0xA9] = [65, 0xC3, 0xA9] :=
    Text.capitals_encode ['a', 'é']
  have hsecond : Text.capitals [98, 99] = [66, 67] :=
    Text.capitals_encode ['b', 'c']
  have hwordA : Token.ofWord first = ⟨.identifier, [97, 0xC3, 0xA9], ⟨[120], 1, 1⟩⟩ := by
    have hencode : Text.encode (first.map (·.1)) = [97, 0xC3, 0xA9] := rfl
    rw [Token.ofWord, hencode, Token.classify, hfirst]
    rfl
  have hwordB : Token.ofWord second = ⟨.identifier, [98, 99], ⟨[120], 2, 1⟩⟩ := by
    have hencode : Text.encode (second.map (·.1)) = [98, 99] := rfl
    rw [Token.ofWord, hencode, Token.classify, hsecond]
    rfl
  rw [hscan, ← hwords, List.map_cons, List.map_cons, List.map_nil, hwordA, hwordB]

end Input

/-! ## Texts in memory -/

/-- A text in memory gives the words of its characters, under any name. -/
theorem Input.scan_ofText (t name : Text) :
    (ofSources [(Source.ofText t).named name]).scan.1 =
      .ok (Token.ofChars (Location.located name (Text.decode t))) := by
  have hdelivers : ((Source.ofText t).named name).Delivers .endOfInput := by
    refine ⟨if t.isEmpty then [] else [t], rfl, steady_of_length ?_⟩
    split <;> simp [Buffered.patience]
  have hbytes : ((Source.ofText t).named name).bytes = t := by
    rw [Source.bytes]
    show (Feed.chunks (if t.isEmpty then [] else [t]) .endOfInput).bytes = t
    rw [Feed.bytes_chunks]
    cases t <;> simp
  rw [scan_sources (List.forall_mem_singleton.2 hdelivers), List.flatMap_singleton, Source.located,
    hbytes]
  rfl

namespace Token

theorem lex_eq (t : Text) :
    lex t = ofChars (Location.located (Text.ofString "input") (Text.decode t)) := by
  rw [lex, Input.scan_ofText]

/-- The tokens of a text, but for their places, are those of the words its characters fall apart
into. -/
theorem map_word_lex {t : Text} {pieces : List (List Char)}
    (h : Parted Text.isBlank (Text.decode t) pieces) :
    (lex t).map word = pieces.map fun cs => (classify (Text.encode cs) .zero).word := by
  rw [lex_eq]
  generalize Text.ofString "input" = name
  have hparted := (parted_words (Location.located name (Text.decode t))).map (p := Text.isBlank)
    (f := Prod.fst) fun _ => rfl
  rw [Location.map_fst_located] at hparted
  rw [← h.unique hparted, ofChars, List.map_map, List.map_map]
  exact List.map_congr_left fun w _ => word_classify _ _ _

end Token
end Birdcall
