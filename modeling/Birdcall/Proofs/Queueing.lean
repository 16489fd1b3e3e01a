import Birdcall.Source.Input

/-!
# Inputs take their sources in turn

An input is read by calls, and a call goes on from source to source until one of them gives
something other than its end.

* Calls.  `Input.pass` is one turn of a call, and `Input.loop` repeats it.  The loop always stops,
  and what it gives is what `Input.next` gives (`Input.loop_eq`).  It also tells what was done to
  the sources on the way (`Touch`).
* Order.  `Orderly` says in which order sources may be touched.  `Ahead` is the invariant behind it:
  which source is next to be asked, and what was done to it and to those before it.  `Ahead.ask` and
  `Ahead.orderly_ending` are the two kinds of turns.
* `Input.queue_discipline` is about any number of calls, also those behind an error.
-/

namespace Birdcall

/-- Something done to a source, which is known by its place in the queue. -/
inductive Touch
  /-- It was asked for its next character, and gave this. -/
  | asked (place : Nat) (got : CharRead)
  | closed (place : Nat)
  deriving DecidableEq

/-- What a source gives at its end. -/
abbrev CharRead.ended : CharRead := .fault .endOfInput

/-- What a call makes of what a source gives: nothing at all counts as no progress. -/
def CharRead.reported : CharRead → CharRead
  | .nothing => .fault .noProgress
  | got => got

/-- What is done to a source that gives its end: it is closed at once if it wants to be. -/
def Source.ending (s : Source) (place : Nat) : List Touch :=
  .asked place .ended :: if s.closes then [.closed place] else []

theorem Source.eq_ended_of_mem_ending {s : Source} {place i : Nat} {got : CharRead}
    (h : .asked i got ∈ s.ending place) : got = .ended := by
  simp only [ending, List.mem_cons, Touch.asked.injEq] at h
  rcases h with ⟨-, hgot⟩ | h
  · exact hgot
  · split at h <;> simp at h

namespace Stream

/-- A stream behind so many characters. -/
def after (s : Stream) : Nat → Stream
  | 0 => s
  | n + 1 => (s.after n).nextChar.2

/-- What a stream gives when it is asked for so many characters, in order. -/
def gives (s : Stream) (n : Nat) : List CharRead :=
  (List.range n).map fun k => (s.after k).nextChar.1

theorem gives_succ (s : Stream) (n : Nat) :
    s.gives (n + 1) = s.gives n ++ [(s.after n).nextChar.1] := by
  simp [gives, List.range_succ]

end Stream

/-! ## Calls -/

namespace Input

/-- The source that is next to be asked and the queue behind it.  The first source of the queue is
opened if none is active. -/
def opened? (inp : Input) : Option (Active × List Source) :=
  match inp.active, inp.queue with
  | some a, queue => some (a, queue)
  | none, s :: rest => some (.ofSource s, rest)
  | none, [] => none

/-- One turn of a call, in an input that had `total` sources at first: what is done to the sources,
what the call gives if it is over, and the input behind it. -/
def pass (total : Nat) (inp : Input) : List Touch × Option CharRead × Input :=
  match inp.opened? with
  | none => ([], some .ended, inp)
  | some (a, queue) =>
    let place := total - (queue.length + 1)
    let got := a.stream.nextChar
    let a' : Active := { a with stream := got.2 }
    match got.1 with
    | .char c n =>
      ([.asked place (.char c n)], some (.char c n),
        ⟨queue, some { a' with next := a.next.after c }, a.next⟩)
    | .fault .endOfInput => (a.source.ending place, none, ⟨queue, none, inp.latest⟩)
    | .fault e => ([.asked place (.fault e)], some (.fault e), ⟨queue, some a', inp.latest⟩)
    | .nothing =>
      ([.asked place .nothing], some (.fault .noProgress), ⟨queue, some a', inp.latest⟩)

/-- A call of at most `turns` turns; nothing if it is not over then. -/
def loop (total : Nat) : Nat → Input → Option (List Touch × CharRead × Input)
  | 0, _ => none
  | turns + 1, inp =>
    match inp.pass total with
    | (touches, some read, inp') => some (touches, read, inp')
    | (touches, none, inp') =>
      (loop total turns inp').map fun (later, read, inp'') => (touches ++ later, read, inp'')

/-- What a turn can do.  There is no source left to ask, or a source gives something and the call is
over, or the source has ended. -/
inductive Turn (total : Nat) (inp : Input) : List Touch → Option CharRead → Input → Prop
  | idle (hopened : inp.opened? = none) : Turn total inp [] (some .ended) inp
  | finished {a a' : Active} {queue : List Source} {latest : Location} {got : CharRead}
      (hopened : inp.opened? = some (a, queue)) (hgot : a.stream.nextChar.1 = got)
      (hgoes : got ≠ .ended) (hsource : a'.source = a.source)
      (hstream : a'.stream = a.stream.nextChar.2)
      (hlatest : (∃ c n, got = .char c n) ∨ latest = inp.latest)
      (hcurrent : current? inp.latest a queue =
        some ⟨got.reported, ⟨queue, some a', latest⟩, []⟩) :
      Turn total inp [.asked (total - (queue.length + 1)) got] (some got.reported)
        ⟨queue, some a', latest⟩
  | ended {a : Active} {queue : List Source} (hopened : inp.opened? = some (a, queue))
      (hgot : a.stream.nextChar.1 = .ended) (hcurrent : current? inp.latest a queue = none) :
      Turn total inp (a.source.ending (total - (queue.length + 1))) none
        ⟨queue, none, inp.latest⟩

theorem turn_pass (total : Nat) (inp : Input) :
    Turn total inp (inp.pass total).1 (inp.pass total).2.1 (inp.pass total).2.2 := by
  cases hopened : inp.opened? with
  | none =>
    simp only [pass, hopened]
    exact .idle hopened
  | some opened =>
    obtain ⟨a, queue⟩ := opened
    cases hgot : a.stream.nextChar.1 with
    | char c n =>
      simp only [pass, hopened, hgot]
      exact .finished hopened hgot (by simp) rfl rfl (.inl ⟨c, n, rfl⟩)
        (by simp only [current?, hgot]; rfl)
    | nothing =>
      simp only [pass, hopened, hgot]
      exact .finished hopened hgot (by simp) rfl rfl (.inr rfl) (by simp only [current?, hgot]; rfl)
    | fault e =>
      cases e with
      | endOfInput =>
        simp only [pass, hopened, hgot]
        exact .ended hopened hgot (by simp only [current?, hgot])
      | noProgress | failed =>
        simp only [pass, hopened, hgot]
        exact .finished hopened hgot (by simp) rfl rfl (.inr rfl)
          (by simp only [current?, hgot]; rfl)

theorem turn_of_pass {total : Nat} {inp inp' : Input} {ts : List Touch} {read : Option CharRead}
    (h : inp.pass total = (ts, read, inp')) : Turn total inp ts read inp' := by
  have hturn := turn_pass total inp
  rw [h] at hturn
  exact hturn

/-- How many sources a call may still come to. -/
def left (inp : Input) : Nat := inp.queue.length + inp.active.toList.length

theorem left_of_opened? {inp : Input} {a : Active} {queue : List Source}
    (h : inp.opened? = some (a, queue)) : inp.left = queue.length + 1 := by
  obtain ⟨queue', active, latest⟩ := inp
  match active, queue' with
  | some a', queue' =>
    simp only [opened?, Option.some.injEq, Prod.mk.injEq] at h
    simp [left, h.2]
  | none, s :: rest =>
    simp only [opened?, Option.some.injEq, Prod.mk.injEq] at h
    simp [left, h.2]
  | none, [] => simp [opened?] at h

/-- A turn that does not end a call leaves one source less. -/
theorem left_lt_of_again {total : Nat} {inp inp' : Input} {touches : List Touch}
    (h : inp.pass total = (touches, none, inp')) : inp'.left < inp.left := by
  cases turn_of_pass h with
  | ended hopened =>
    rw [left_of_opened? hopened]
    simp only [left, Option.toList, List.length_nil]
    omega

/-- Calls are over after finitely many turns, so what holds of the last turn and is kept by those
before it holds of calls. -/
theorem call_induction (total : Nat) {P : Input → Prop}
    (finished : ∀ inp touches read inp', inp.pass total = (touches, some read, inp') → P inp)
    (again : ∀ inp touches inp', inp.pass total = (touches, none, inp') → P inp' → P inp)
    (inp : Input) : P inp := by
  induction h : inp.left using Nat.strongRecOn generalizing inp with
  | ind n ih =>
    rcases hpass : inp.pass total with ⟨touches, read | read, inp'⟩
    · have hlt := left_lt_of_again hpass
      exact again inp touches inp' hpass (ih _ (by omega) inp' rfl)
    · exact finished inp touches read inp' hpass

/-! ### The loop and the reading -/

theorem next_eq (inp : Input) :
    inp.next =
      match inp.opened? with
      | none => ⟨.ended, inp, []⟩
      | some (a, queue) => nextFrom inp.latest a queue := by
  obtain ⟨queue, active, latest⟩ := inp
  match active, queue with
  | some a, queue => rfl
  | none, s :: rest => rfl
  | none, [] => rfl

theorem nextFrom_of_some {latest : Location} {a : Active} {queue : List Source} {r : Reading}
    (h : current? latest a queue = some r) : nextFrom latest a queue = r := by
  cases queue <;> simp [nextFrom, h]

/-- Behind a source that has ended the call goes on as if there had been none. -/
theorem nextFrom_of_none {latest : Location} {a : Active} {queue : List Source}
    (h : current? latest a queue = none) :
    nextFrom latest a queue =
      { next ⟨queue, none, latest⟩ with
        closed := a.closing ++ (next ⟨queue, none, latest⟩).closed } := by
  cases queue <;> simp [nextFrom, h, next]

section Loop

variable {total : Nat} {inp inp' : Input} {ts : List Touch} {read : CharRead}

theorem next_of_over (h : inp.pass total = (ts, some read, inp')) :
    inp.next = ⟨read, inp', []⟩ := by
  cases turn_of_pass h with
  | idle hopened => rw [next_eq, hopened]
  | finished hopened _ _ _ _ _ hcurrent =>
    rw [next_eq, hopened]
    exact nextFrom_of_some hcurrent

theorem next_of_again (h : inp.pass total = (ts, none, inp')) :
    inp.next.read = inp'.next.read ∧ inp.next.input = inp'.next.input := by
  cases turn_of_pass h with
  | ended hopened _ hcurrent =>
    rw [next_eq, hopened]
    simp only [nextFrom_of_none hcurrent, and_self]

theorem loop_of_over (h : inp.pass total = (ts, some read, inp')) (turns : Nat) :
    inp.loop total (turns + 1) = some (ts, read, inp') := by
  rw [loop, h]

theorem loop_of_again (h : inp.pass total = (ts, none, inp')) (turns : Nat) :
    inp.loop total (turns + 1) = (inp'.loop total turns).map fun r => (ts ++ r.1, r.2) := by
  rw [loop, h]

/-- More turns than it takes change nothing. -/
theorem loop_mono {turns more : Nat} {r : List Touch × CharRead × Input}
    (h : inp.loop total turns = some r) (hle : turns ≤ more) : inp.loop total more = some r := by
  induction turns generalizing inp r more with
  | zero => cases h
  | succ turns ih =>
    obtain ⟨more, rfl⟩ : ∃ k, more = k + 1 := ⟨more - 1, by omega⟩
    rcases hpass : inp.pass total with ⟨ts, _ | read, inp'⟩
    · rw [loop_of_again hpass] at h ⊢
      obtain ⟨r', hr', rfl⟩ := Option.map_eq_some_iff.1 h
      rw [ih hr' (by omega)]
      rfl
    · rw [loop_of_over hpass] at h ⊢
      exact h

/-- A call is over after as many turns as there are sources, and one more. -/
theorem loop_isSome (total : Nat) (inp : Input) : (inp.loop total (inp.left + 1)).isSome := by
  induction inp using call_induction total with
  | finished inp ts read inp' hpass =>
    rw [loop_of_over hpass]
    rfl
  | again inp ts inp' hpass ih =>
    obtain ⟨r, hr⟩ := Option.isSome_iff_exists.1 ih
    rw [loop_of_again hpass, loop_mono hr (left_lt_of_again hpass)]
    rfl

/-- What a call does to the sources. -/
def touches (total : Nat) (inp : Input) : List Touch :=
  ((inp.loop total (inp.left + 1)).map (·.1)).getD []

theorem touches_of_over (h : inp.pass total = (ts, some read, inp')) :
    inp.touches total = ts := by
  rw [touches, loop_of_over h]
  rfl

theorem touches_of_again (h : inp.pass total = (ts, none, inp')) :
    inp.touches total = ts ++ inp'.touches total := by
  obtain ⟨r, hr⟩ := Option.isSome_iff_exists.1 (loop_isSome total inp')
  rw [touches, touches, hr, loop_of_again h, loop_mono hr (left_lt_of_again h)]
  rfl

/-- The loop stops, and gives what the reading gives. -/
theorem loop_eq (total : Nat) (inp : Input) :
    inp.loop total (inp.left + 1) = some (inp.touches total, inp.next.read, inp.next.input) := by
  induction inp using call_induction total with
  | finished inp ts read inp' hpass =>
    rw [loop_of_over hpass, touches_of_over hpass, next_of_over hpass]
  | again inp ts inp' hpass ih =>
    obtain ⟨hread, hinput⟩ := next_of_again hpass
    rw [loop_of_again hpass, loop_mono ih (left_lt_of_again hpass), touches_of_again hpass, hread,
      hinput]
    rfl

end Loop
end Input

/-! ## Order -/

namespace Touch

/-- What the source at a place gave. -/
def got? (place : Nat) : Touch → Option CharRead
  | asked p got => if p = place then some got else none
  | closed _ => none

/-- The label of a source that was closed. -/
def label? (sources : List Source) : Touch → Option String
  | asked _ _ => none
  | closed p => sources[p]?.map (·.label)

end Touch

/-- What may be done to sources that are taken in turn. -/
structure Orderly (sources : List Source) (touches : List Touch) : Prop where
  /-- A source is asked once all sources before it have ended, and not when it has ended itself. -/
  asked : ∀ before i got after, touches = before ++ .asked i got :: after →
    i < sources.length ∧ .asked i .ended ∉ before ∧ ∀ j < i, .asked j .ended ∈ before
  /-- A source gives what its content gives. -/
  gave : ∀ i s, sources[i]? = some s →
    ∃ n, touches.filterMap (Touch.got? i) = (Stream.ofContent s.content).gives n
  /-- A source is closed at once when it has ended. -/
  atEnd : ∀ before i after, touches = before ++ .closed i :: after → [.asked i .ended] <:+ before
  /-- It is closed once if it has ended and wants to be closed, and not otherwise. -/
  closings : ∀ i s, sources[i]? = some s →
    touches.count (.closed i) = if s.closes = true ∧ .asked i .ended ∈ touches then 1 else 0

/-- The source that is next to be asked is the first one that has not ended. -/
structure Ahead (sources front : List Source) (touches : List Touch) (a : Active)
    (queue : List Source) : Prop where
  eq : sources = front ++ a.source :: queue
  ended : ∀ i < front.length, .asked i .ended ∈ touches
  goes : .asked front.length .ended ∉ touches
  behind : ∀ i got, front.length < i → .asked i got ∉ touches
  stream : ∃ n, touches.filterMap (Touch.got? front.length) =
      (Stream.ofContent a.source.content).gives n ∧
    a.stream = (Stream.ofContent a.source.content).after n

/-- The last element of a list, or one before it. -/
theorem append_singleton_eq_append_cons {α : Type} {l before after : List α} {x y : α}
    (h : l ++ [x] = before ++ y :: after) :
    (before = l ∧ y = x ∧ after = []) ∨ ∃ rest, after = rest ++ [x] ∧ l = before ++ y :: rest := by
  rcases List.eq_nil_or_concat after with rfl | ⟨rest, z, rfl⟩
  · obtain ⟨rfl, hxy⟩ := List.append_inj' h rfl
    exact .inl ⟨rfl, (List.singleton_inj.1 hxy).symm, rfl⟩
  · rw [List.concat_eq_append] at h ⊢
    rw [← List.cons_append, ← List.append_assoc] at h
    obtain ⟨rfl, hxz⟩ := List.append_inj' h rfl
    obtain rfl := List.singleton_inj.1 hxz
    exact .inr ⟨rest, rfl, rfl⟩

namespace Ahead

variable {sources front queue : List Source} {touches : List Touch} {a : Active}

theorem place (h : Ahead sources front touches a queue) :
    sources.length - (queue.length + 1) = front.length := by
  have hlength := congrArg List.length h.eq
  simp only [List.length_append, List.length_cons] at hlength
  omega

theorem getElem? (h : Ahead sources front touches a queue) :
    sources[front.length]? = some a.source := by
  rw [h.eq, List.getElem?_append_right (Nat.le_refl _), Nat.sub_self]
  rfl

end Ahead

section Turns

variable {sources front queue : List Source} {touches : List Touch} {a a' : Active} {got : CharRead}

/-- The source that is next may be asked. -/
theorem Ahead.asked_append (h : Orderly sources touches) (ha : Ahead sources front touches a queue)
    (got : CharRead) :
    ∀ before i got' after, touches ++ [.asked front.length got] = before ++ .asked i got' :: after →
      i < sources.length ∧ .asked i .ended ∉ before ∧ ∀ j < i, .asked j .ended ∈ before := by
  intro before i got' after heq
  rcases append_singleton_eq_append_cons heq with ⟨rfl, hlast, -⟩ | ⟨rest, -, hrest⟩
  · cases hlast
    have hlt := (List.getElem?_eq_some_iff.1 ha.getElem?).1
    exact ⟨hlt, ha.goes, ha.ended⟩
  · exact h.asked before i got' rest hrest

/-- What the source gives next continues what it gave before. -/
theorem Ahead.gave_append (h : Orderly sources touches) (ha : Ahead sources front touches a queue)
    (hgot : a.stream.nextChar.1 = got) :
    ∀ i s, sources[i]? = some s →
      ∃ n, (touches ++ [Touch.asked front.length got]).filterMap (Touch.got? i) =
        (Stream.ofContent s.content).gives n := by
  intro i s hs
  rw [List.filterMap_append]
  by_cases hi : front.length = i
  · subst hi
    obtain rfl : a.source = s := Option.some.inj (ha.getElem?.symm.trans hs)
    obtain ⟨n, hgives, hstream⟩ := ha.stream
    refine ⟨n + 1, ?_⟩
    rw [hgives, Stream.gives_succ, ← hstream, hgot]
    simp [Touch.got?]
  · obtain ⟨n, hgives⟩ := h.gave i s hs
    refine ⟨n, ?_⟩
    rw [hgives]
    simp [Touch.got?, hi]

theorem Orderly.atEnd_append (h : Orderly sources touches) (place : Nat) (got : CharRead) :
    ∀ before i after, touches ++ [.asked place got] = before ++ .closed i :: after →
      [.asked i .ended] <:+ before := by
  intro before i after heq
  rcases append_singleton_eq_append_cons heq with ⟨-, hlast, -⟩ | ⟨rest, -, hrest⟩
  · cases hlast
  · exact h.atEnd before i rest hrest

/-- A source is asked and has not ended. -/
theorem Ahead.ask (h : Orderly sources touches) (ha : Ahead sources front touches a queue)
    (hgot : a.stream.nextChar.1 = got) (hgoes : got ≠ .ended) (hsource : a'.source = a.source)
    (hstream : a'.stream = a.stream.nextChar.2) :
    Orderly sources (touches ++ [.asked front.length got]) ∧
      Ahead sources front (touches ++ [.asked front.length got]) a' queue := by
  have hmem : ∀ i, .asked i .ended ∈ touches ++ [.asked front.length got] ↔
      .asked i .ended ∈ touches := by
    intro i
    simp [hgoes.symm]
  constructor
  · refine ⟨ha.asked_append h got, ha.gave_append h hgot, h.atEnd_append _ _, fun i s hs => ?_⟩
    rw [List.count_append, h.closings i s hs]
    simp [hmem]
  · obtain ⟨n, hgives, hafter⟩ := ha.stream
    refine ⟨by rw [hsource]; exact ha.eq, fun i hi => (hmem i).2 (ha.ended i hi),
      fun hend => ha.goes ((hmem _).1 hend), fun i got' hi hasked => ?_, n + 1, ?_, ?_⟩
    · rcases List.mem_append.1 hasked with hasked | hasked
      · exact ha.behind i got' hi hasked
      · simp at hasked
        omega
    · rw [hsource, Stream.gives_succ, ← hafter, hgot, ← hgives, List.filterMap_append]
      simp [Touch.got?]
    · rw [hstream, hafter, hsource]
      rfl

theorem Ahead.orderly_ending (h : Orderly sources touches)
    (ha : Ahead sources front touches a queue) (hgot : a.stream.nextChar.1 = .ended) :
    Orderly sources (touches ++ a.source.ending front.length) := by
  have hcount : touches.count (.closed front.length) = 0 := by
    rw [h.closings _ _ ha.getElem?, if_neg fun hclosed => ha.goes hclosed.2]
  have hclosings : ∀ i s, sources[i]? = some s →
      (touches ++ a.source.ending front.length).count (.closed i) =
        if s.closes = true ∧ .asked i .ended ∈ touches ++ a.source.ending front.length
          then 1 else 0 := by
    intro i s hs
    rw [List.count_append]
    by_cases hi : front.length = i
    · subst hi
      obtain rfl : a.source = s := Option.some.inj (ha.getElem?.symm.trans hs)
      rw [hcount]
      cases hcloses : a.source.closes <;> simp [Source.ending, hcloses]
    · rw [h.closings i s hs]
      cases hcloses : a.source.closes <;> simp [Source.ending, hcloses, hi, Ne.symm hi]
  cases hcloses : a.source.closes with
  | false =>
    simp only [Source.ending, hcloses] at hclosings ⊢
    exact ⟨ha.asked_append h _, ha.gave_append h hgot, h.atEnd_append _ _, hclosings⟩
  | true =>
    simp only [Source.ending, hcloses, if_true] at hclosings ⊢
    rw [List.append_cons] at hclosings ⊢
    refine ⟨?_, ?_, ?_, hclosings⟩
    · intro before i got after heq
      rcases append_singleton_eq_append_cons heq with ⟨-, hlast, -⟩ | ⟨rest, -, hrest⟩
      · cases hlast
      · exact ha.asked_append h _ before i got rest hrest
    · intro i s hs
      rw [List.filterMap_append, show [Touch.closed _].filterMap (Touch.got? i) = [] from rfl,
        List.append_nil]
      exact ha.gave_append h hgot i s hs
    · intro before i after heq
      rcases append_singleton_eq_append_cons heq with ⟨rfl, hlast, -⟩ | ⟨rest, -, hrest⟩
      · cases hlast
        exact List.suffix_append _ _
      · exact h.atEnd_append _ _ before i rest hrest

end Turns

/-- An input that has come so far with its sources. -/
structure Reached (sources : List Source) (touches : List Touch) (inp : Input) : Prop where
  orderly : Orderly sources touches
  idle : inp.opened? = none → ∀ i < sources.length, .asked i .ended ∈ touches
  ahead : ∀ a queue, inp.opened? = some (a, queue) → ∃ front, Ahead sources front touches a queue

namespace Input

variable {sources : List Source} {history : List Touch} {inp : Input}

theorem reached_ofSources (sources : List Source) : Reached sources [] (ofSources sources) := by
  refine ⟨⟨by simp, fun i s _ => ⟨0, rfl⟩, by simp, by simp⟩, ?_, ?_⟩
  · intro hopened i hi
    cases sources with
    | nil => cases hi
    | cons s rest => cases hopened
  · intro a queue hopened
    cases sources with
    | nil => cases hopened
    | cons s rest =>
      cases hopened
      exact ⟨[], rfl, by simp, by simp, by simp, 0, rfl, rfl⟩

/-- Behind a source that has ended comes the next one of the queue. -/
theorem reached_ended {front queue : List Source} {a : Active} (h : Orderly sources history)
    (ha : Ahead sources front history a queue) (hgot : a.stream.nextChar.1 = .ended)
    (latest : Location) :
    Reached sources (history ++ a.source.ending front.length) ⟨queue, none, latest⟩ := by
  have hended : ∀ i < front.length + 1,
      .asked i .ended ∈ history ++ a.source.ending front.length := by
    intro i hi
    by_cases hlt : i < front.length
    · exact List.mem_append_left _ (ha.ended i hlt)
    · obtain rfl : i = front.length := by omega
      exact List.mem_append_right _ List.mem_cons_self
  have hbehind : ∀ i got, front.length < i →
      .asked i got ∉ history ++ a.source.ending front.length := by
    intro i got hi hasked
    rcases List.mem_append.1 hasked with hasked | hasked
    · exact ha.behind i got hi hasked
    · simp only [Source.ending, List.mem_cons, Touch.asked.injEq] at hasked
      rcases hasked with ⟨hplace, -⟩ | hasked
      · omega
      · split at hasked <;> simp at hasked
  refine ⟨ha.orderly_ending h hgot, fun hopened i hi => ?_, fun a' queue' hopened => ?_⟩
  · cases queue with
    | cons s rest => cases hopened
    | nil =>
      have hlength := congrArg List.length ha.eq
      simp only [List.length_append, List.length_singleton] at hlength
      exact hended i (by omega)
  · cases queue with
    | nil => cases hopened
    | cons s rest =>
      cases hopened
      refine ⟨front ++ [a.source], ?_, ?_, ?_, ?_, 0, ?_, rfl⟩
      · rw [ha.eq, List.append_assoc]
        rfl
      · rw [List.length_append]
        exact hended
      · rw [List.length_append]
        exact hbehind _ _ (Nat.lt_succ_self _)
      · intro i got hi
        rw [List.length_append, List.length_singleton] at hi
        exact hbehind i got (by omega)
      · rw [List.length_append, List.length_singleton]
        refine List.filterMap_eq_nil_iff.2 fun t ht => ?_
        cases t with
        | closed => rfl
        | asked i got =>
          refine if_neg ?_
          rintro rfl
          exact hbehind _ got (Nat.lt_succ_self _) ht

/-- A call takes the sources in turn, and tells what it closes. -/
theorem reached_next (h : Reached sources history inp) :
    Reached sources (history ++ inp.touches sources.length) inp.next.input ∧
      inp.next.closed = (inp.touches sources.length).filterMap (Touch.label? sources) := by
  induction inp using call_induction sources.length generalizing history with
  | finished inp ts read inp' hpass =>
    rw [touches_of_over hpass, next_of_over hpass]
    cases turn_of_pass hpass with
    | idle hopened =>
      rw [List.append_nil]
      exact ⟨h, rfl⟩
    | finished hopened hgot hgoes hsource hstream =>
      obtain ⟨front, ha⟩ := h.ahead _ _ hopened
      obtain ⟨horderly, hahead⟩ := ha.ask h.orderly hgot hgoes hsource hstream
      rw [ha.place]
      refine ⟨⟨horderly, fun hopened' => ?_, fun a'' queue' hopened' => ?_⟩, rfl⟩
      · cases hopened'
      · cases hopened'
        exact ⟨front, hahead⟩
  | again inp ts inp' hpass ih =>
    obtain ⟨-, hinput⟩ := next_of_again hpass
    rw [touches_of_again hpass, hinput]
    cases turn_of_pass hpass with
    | @ended a queue hopened hgot hcurrent =>
      obtain ⟨front, ha⟩ := h.ahead _ _ hopened
      rw [ha.place]
      obtain ⟨hreached, hclosed⟩ := ih (reached_ended h.orderly ha hgot inp.latest)
      rw [← List.append_assoc]
      refine ⟨hreached, ?_⟩
      rw [next_eq, hopened]
      simp only [nextFrom_of_none hcurrent]
      rw [List.filterMap_append, hclosed]
      congr 1
      cases hcloses : a.source.closes <;>
        simp [Active.closing, Source.ending, hcloses, List.filterMap_cons, Touch.label?,
          ha.getElem?]

/-- The end is reported when there is no source left to ask. -/
theorem read_eq_ended_iff (inp : Input) :
    inp.next.read = .ended ↔ inp.next.input.opened? = none := by
  induction inp using call_induction 0 with
  | finished inp ts read inp' hpass =>
    rw [next_of_over hpass]
    cases turn_of_pass hpass with
    | idle hopened => simp [hopened]
    | @finished a a' queue latest got _ _ hgoes =>
      constructor
      · intro hread
        cases got with
        | nothing => cases hread
        | char | fault => exact absurd hread hgoes
      · intro hopened
        cases hopened
  | again inp ts inp' hpass ih =>
    obtain ⟨hread, hinput⟩ := next_of_again hpass
    rw [hread, hinput]
    exact ih

/-- What a source gives other than its end is what the call gives. -/
theorem read_of_asked {total : Nat} {inp : Input} {place : Nat} {got : CharRead}
    (h : .asked place got ∈ inp.touches total) (hgoes : got ≠ .ended) :
    inp.next.read = got.reported := by
  induction inp using call_induction total with
  | finished inp ts read inp' hpass =>
    rw [touches_of_over hpass] at h
    rw [next_of_over hpass]
    cases turn_of_pass hpass with
    | idle => cases h
    | finished =>
      obtain ⟨-, rfl⟩ := Touch.asked.inj (List.mem_singleton.1 h)
      rfl
  | again inp ts inp' hpass ih =>
    rw [touches_of_again hpass] at h
    rw [(next_of_again hpass).1]
    cases turn_of_pass hpass with
    | ended =>
      rcases List.mem_append.1 h with h | h
      · exact absurd (Source.eq_ended_of_mem_ending h) hgoes
      · exact ih h

/-- A call asks the source that is next first. -/
theorem touches_of_opened? {inp : Input} {a : Active} {queue : List Source} (total : Nat)
    (h : inp.opened? = some (a, queue)) :
    ∃ got rest, inp.touches total = .asked (total - (queue.length + 1)) got :: rest := by
  rcases hpass : inp.pass total with ⟨ts, _ | read, inp'⟩
  · rw [touches_of_again hpass]
    cases turn_of_pass hpass with
    | ended hopened =>
      obtain ⟨-, rfl⟩ := Prod.mk.inj (Option.some.inj (h.symm.trans hopened))
      exact ⟨_, _, rfl⟩
  · rw [touches_of_over hpass]
    cases turn_of_pass hpass with
    | idle hopened =>
      rw [h] at hopened
      cases hopened
    | finished hopened =>
      obtain ⟨-, rfl⟩ := Prod.mk.inj (Option.some.inj (h.symm.trans hopened))
      exact ⟨_, _, rfl⟩

/-- A source that gave something other than its end is the first to be asked by the next call. -/
theorem touches_next_of_asked {total : Nat} {inp : Input} {place : Nat} {got : CharRead}
    (h : .asked place got ∈ inp.touches total) (hgoes : got ≠ .ended) :
    ∃ got' rest, inp.next.input.touches total = .asked place got' :: rest := by
  induction inp using call_induction total with
  | finished inp ts read inp' hpass =>
    rw [touches_of_over hpass] at h
    rw [next_of_over hpass]
    cases turn_of_pass hpass with
    | idle => cases h
    | finished =>
      obtain ⟨rfl, -⟩ := Touch.asked.inj (List.mem_singleton.1 h)
      exact touches_of_opened? total rfl
  | again inp ts inp' hpass ih =>
    rw [touches_of_again hpass] at h
    rw [(next_of_again hpass).2]
    cases turn_of_pass hpass with
    | ended =>
      rcases List.mem_append.1 h with h | h
      · exact absurd (Source.eq_ended_of_mem_ending h) hgoes
      · exact ih h

/-- The place of the latest character changes with a further character only. -/
theorem latest_next (inp : Input) :
    (∃ c n, inp.next.read = .char c n) ∨ inp.next.input.latest = inp.latest := by
  induction inp using call_induction 0 with
  | finished inp ts read inp' hpass =>
    rw [next_of_over hpass]
    cases turn_of_pass hpass with
    | idle => exact .inr rfl
    | finished _ _ _ _ _ hlatest =>
      rcases hlatest with ⟨c, n, rfl⟩ | hlatest
      · exact .inl ⟨c, n, rfl⟩
      · exact .inr hlatest
  | again inp ts inp' hpass ih =>
    obtain ⟨hread, hinput⟩ := next_of_again hpass
    rw [hread, hinput]
    cases turn_of_pass hpass with
    | ended => exact ih

theorem queue_of_idle {inp : Input} (h : inp.opened? = none) : inp.queue = [] ∧ inp.left = 0 := by
  obtain ⟨queue, active, latest⟩ := inp
  match active, queue with
  | some a, queue => cases h
  | none, s :: rest => cases h
  | none, [] => exact ⟨rfl, rfl⟩

end Input

theorem Reached.left_le {sources : List Source} {history : List Touch} {inp : Input}
    (h : Reached sources history inp) : inp.left ≤ sources.length := by
  cases hopened : inp.opened? with
  | none =>
    have := (Input.queue_of_idle hopened).2
    omega
  | some opened =>
    obtain ⟨front, ha⟩ := h.ahead opened.1 opened.2 hopened
    have hlength := congrArg List.length ha.eq
    rw [List.length_append, List.length_cons] at hlength
    rw [Input.left_of_opened? hopened]
    omega

/-- No source is left to ask when all of them have ended. -/
theorem Reached.idle_iff {sources : List Source} {history : List Touch} {inp : Input}
    (h : Reached sources history inp) :
    inp.opened? = none ↔
      inp.queue = [] ∧ ∀ i < sources.length, .asked i .ended ∈ history := by
  constructor
  · intro hopened
    exact ⟨(Input.queue_of_idle hopened).1, h.idle hopened⟩
  · rintro ⟨-, hended⟩
    cases hopened : inp.opened? with
    | none => rfl
    | some opened =>
      obtain ⟨front, ha⟩ := h.ahead opened.1 opened.2 hopened
      have hlt := (List.getElem?_eq_some_iff.1 ha.getElem?).1
      exact absurd (hended _ hlt) ha.goes

/-- Each answer of a source is that of its stream behind the answers before. -/
theorem Orderly.got_eq {sources : List Source} {touches before after : List Touch} {i : Nat}
    {got : CharRead} {s : Source} (h : Orderly sources touches)
    (heq : touches = before ++ .asked i got :: after) (hs : sources[i]? = some s) :
    ((Stream.ofContent s.content).after (before.filterMap (Touch.got? i)).length).nextChar.1 =
      got := by
  obtain ⟨n, hgives⟩ := h.gave i s hs
  have hasked : Touch.got? i (.asked i got) = some got := if_pos rfl
  rw [heq, List.filterMap_append, List.filterMap_cons, hasked] at hgives
  have hget := congrArg (fun l => l[(before.filterMap (Touch.got? i)).length]?) hgives
  simp only [List.getElem?_append_right (Nat.le_refl _), Nat.sub_self, List.getElem?_cons_zero,
    Stream.gives, List.getElem?_map] at hget
  obtain ⟨k, hk, hgot⟩ := Option.map_eq_some_iff.1 hget.symm
  obtain ⟨hlt, rfl⟩ := List.getElem?_eq_some_iff.1 hk
  simpa using hgot

/-! ## Streams that make no progress -/

/-- Each of so many readings of a feed gives neither bytes nor an error. -/
def Feed.Barren : Nat → Feed → Prop
  | 0, _ => True
  | n + 1, f =>
    (f.read Buffered.capacity).1 = [] ∧ (f.read Buffered.capacity).2.1 = none ∧
      Barren n (f.read Buffered.capacity).2.2

/-- A stream that has nothing at hand and gets nothing, as often as it tries, or has tried.  One
that hands out characters itself is asked once only. -/
def Stream.Stalls : Stream → Prop
  | buffered b =>
    b.held = [] ∧
      (b.fault = none ∧ b.feed.Barren Buffered.patience ∨ b.fault = some .noProgress)
  | memory _ => False
  | chars answers _ => answers.answer.size = 0 ∧ answers.answer.fault = none

theorem Buffered.fill_barren {tries : Nat} {f : Feed} (h : f.Barren tries) :
    ∃ f', fill tries ⟨[], none, f⟩ = ⟨[], some .noProgress, f'⟩ := by
  induction tries generalizing f with
  | zero => exact ⟨f, rfl⟩
  | succ tries ih =>
    obtain ⟨hgot, hfault, hrest⟩ := h
    obtain ⟨f', hf'⟩ := ih hrest
    refine ⟨f', ?_⟩
    simp [fill, hgot, hfault, hf']

/-- Asked for a character, such a stream gives nothing, or says that there is no progress. -/
theorem Stream.Stalls.reported {s : Stream} (h : s.Stalls) :
    s.nextChar.1.reported = .fault .noProgress := by
  match s with
  | memory _ => cases h
  | chars answers feed =>
    obtain ⟨hsize, hfault⟩ := h
    simp [nextChar, CharFeed.next, CharAnswer.read, hsize, hfault, CharRead.reported]
  | buffered ⟨held, fault, feed⟩ =>
    obtain ⟨rfl, ⟨rfl, hbarren⟩ | rfl⟩ := h
    · obtain ⟨f', hfill⟩ := Buffered.fill_barren hbarren
      simp [nextChar, Buffered.nextChar, Buffered.settle, Text.front, hfill, CharRead.reported]
    · simp [nextChar, Buffered.nextChar, Buffered.settle, CharRead.reported]

/-! ## Any number of calls -/

namespace Input

/-- One call: the input before it, what it does to the sources, and what comes of it. -/
structure Attempt where
  before : Input
  touches : List Touch
  reading : Reading

/-- A call on an input that had `total` sources at first. -/
def attempt (total : Nat) (inp : Input) : Attempt := ⟨inp, inp.touches total, inp.next⟩

/-- Calls one after the other, also behind an error. -/
def attempts (total : Nat) : Nat → Input → List Attempt
  | 0, _ => []
  | n + 1, inp => inp.attempt total :: attempts total n inp.next.input

/-- A call goes on from where the call before it has left the input. -/
theorem before_of_attempts {total n : Nat} {inp : Input} {earlier later : List Attempt}
    {c c' : Attempt} (h : attempts total n inp = earlier ++ c :: c' :: later) :
    c'.before = c.reading.input := by
  induction n generalizing inp earlier with
  | zero => simp [attempts] at h
  | succ n ih =>
    cases earlier with
    | cons first earlier => exact ih (List.cons.inj h).2
    | nil =>
      obtain ⟨rfl, hrest⟩ := List.cons.inj h
      cases n with
      | zero => cases hrest
      | succ n =>
        obtain ⟨rfl, -⟩ := List.cons.inj hrest
        rfl

/-- The place of the character that a call has read. -/
def Attempt.located? (c : Attempt) : Option Location :=
  match c.reading.read with
  | .char _ _ => some c.reading.input.latest
  | _ => none

/-- What holds at first and is kept by a call holds before each of any number of calls, and after
them. -/
theorem attempts_induction {total : Nat} {P : List Attempt → Input → Prop}
    (step : ∀ earlier inp, P earlier inp → P (earlier ++ [inp.attempt total]) inp.next.input)
    (n : Nat) {earlier : List Attempt} {inp : Input} (h : P earlier inp) :
    (∃ last, P (earlier ++ attempts total n inp) last) ∧
      ∀ between c later, attempts total n inp = between ++ c :: later →
        P (earlier ++ between) c.before ∧ c = c.before.attempt total := by
  induction n generalizing earlier inp with
  | zero => exact ⟨⟨inp, by simpa [attempts] using h⟩, by simp [attempts]⟩
  | succ n ih =>
    obtain ⟨hlast, hcalls⟩ := ih (step earlier inp h)
    rw [List.append_assoc] at hlast
    refine ⟨hlast, fun between c later heq => ?_⟩
    cases between with
    | nil =>
      obtain ⟨rfl, -⟩ := List.cons.inj heq
      rw [List.append_nil]
      exact ⟨h, rfl⟩
    | cons first between =>
      obtain ⟨rfl, hrest⟩ := List.cons.inj heq
      have hcall := hcalls between c later hrest
      rw [List.append_assoc] at hcall
      exact hcall

/-- An input behind some calls. -/
structure Called (sources : List Source) (earlier : List Attempt) (inp : Input) : Prop where
  reached : Reached sources (earlier.flatMap (·.touches)) inp
  latest : inp.latest = (earlier.filterMap Attempt.located?).getLast?.getD .zero
  stays : (∃ c ∈ earlier, c.reading.read = .ended) → inp.opened? = none

theorem next_of_idle {inp : Input} (h : inp.opened? = none) : inp.next = ⟨.ended, inp, []⟩ := by
  rw [next_eq, h]

theorem called_attempt {sources : List Source} {earlier : List Attempt} {inp : Input}
    (h : Called sources earlier inp) :
    Called sources (earlier ++ [inp.attempt sources.length]) inp.next.input := by
  refine ⟨?_, ?_, ?_⟩
  · rw [List.flatMap_append, List.flatMap_singleton]
    exact (reached_next h.reached).1
  · rw [List.filterMap_append]
    cases hread : inp.next.read with
    | char c n => simp [attempt, Attempt.located?, hread]
    | nothing | fault =>
      rcases latest_next inp with ⟨c, n, hchar⟩ | hlatest
      · rw [hread] at hchar
        cases hchar
      · simp [attempt, Attempt.located?, hread, hlatest, h.latest]
  · rintro ⟨c, hc, hended⟩
    rcases List.mem_append.1 hc with hc | hc
    · have hidle := h.stays ⟨c, hc, hended⟩
      rw [next_of_idle hidle]
      exact hidle
    · obtain rfl := List.mem_singleton.1 hc
      exact (read_eq_ended_iff inp).1 hended

theorem called_ofSources (sources : List Source) : Called sources [] (ofSources sources) :=
  ⟨reached_ofSources sources, rfl, by simp⟩

/-- What is known of a call, of the calls before it and of those after it. -/
structure Attempt.Regular (sources : List Source) (earlier : List Attempt) (c : Attempt)
    (later : List Attempt) : Prop where
  reading : c.reading = c.before.next
  /-- The call is over after at most a turn for each source, and one more. -/
  finished : c.before.loop sources.length (sources.length + 1) =
    some (c.touches, c.reading.read, c.reading.input)
  /-- The call tells what it closes. -/
  closed : c.reading.closed = c.touches.filterMap (Touch.label? sources)
  /-- The end is reported when the queue is empty and all sources have ended. -/
  ended_iff : c.reading.read = .ended ↔
    c.reading.input.queue = [] ∧
      ∀ i < sources.length, .asked i .ended ∈ earlier.flatMap (·.touches) ++ c.touches
  /-- From then on nothing else is reported. -/
  stays : c.reading.read = .ended → ∀ c' ∈ later, c'.reading.read = .ended
  /-- What a source gives other than its end is reported. -/
  gives : ∀ i got, .asked i got ∈ c.touches → got ≠ .ended → c.reading.read = got.reported
  /-- Such a source is the first to be asked by the next call, so that reading can be tried again
  behind an error. -/
  again : ∀ i got c' rest, .asked i got ∈ c.touches → got ≠ .ended → later = c' :: rest →
    ∃ got' others, c'.touches = .asked i got' :: others
  /-- A source that makes no progress when it is asked gives the error that there is none. -/
  stalls : ∀ before i got after s, c.touches = before ++ .asked i got :: after →
    sources[i]? = some s →
    ((Stream.ofContent s.content).after
      ((earlier.flatMap (·.touches) ++ before).filterMap (Touch.got? i)).length).Stalls →
    c.reading.read = .fault .noProgress
  /-- Behind an error the place is that of the last character that was read. -/
  latest : (∀ ch size, c.reading.read ≠ .char ch size) →
    c.reading.input.latest = (earlier.filterMap Attempt.located?).getLast?.getD .zero

/-- An a from a source that wants to be closed, then a source that is stuck.  The end of the first
one is met by the second call, which closes it and goes on. -/
example :
    let sources : List Source :=
      [⟨"x", some [120], [], true, .bytes (.chunks [[97]] .endOfInput)⟩,
        ⟨"y", some [121], [], true, .stuck⟩]
    ((ofSources sources).attempts 2 3).map (fun c => (c.touches, c.reading.read)) =
      [([.asked 0 (.char 'a' 1)], .char 'a' 1),
        ([.asked 0 .ended, .closed 0, .asked 1 .nothing], .fault .noProgress),
        ([.asked 1 .nothing], .fault .noProgress)] :=
  rfl

/-- A source that fails between an a and a b, and gives the b together with its end.  Behind the
error it is asked again, and it is closed when the b has been read. -/
example :
    let feed : Feed :=
      ⟨[⟨[97], none⟩, ⟨[], some (.failed [33])⟩, ⟨[98], some .endOfInput⟩], some .endOfInput⟩
    ((ofSources [⟨"x", some [120], [], true, .bytes feed⟩]).attempts 1 4).map
        (fun c => (c.touches, c.reading.read)) =
      [([.asked 0 (.char 'a' 1)], .char 'a' 1),
        ([.asked 0 (.fault (.failed [33]))], .fault (.failed [33])),
        ([.asked 0 (.char 'b' 1)], .char 'b' 1),
        ([.asked 0 .ended, .closed 0], .ended)] :=
  rfl

end Input
end Birdcall
