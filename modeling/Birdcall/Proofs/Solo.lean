import Birdcall.Command.Worker
import Birdcall.Proofs.Devices
import Birdcall.Proofs.Loading
import Birdcall.Proofs.Quiet

/-!
# Programs on their own

What a program prints by itself is what an untiered engine alone in its world gives to a sink that
takes everything.  `Solo.runs` executes a source in this way up to a number of times, and stops
after the first time that fails.  `Solo.output` is the lines of what was printed until then.

A worker prints to memory and to logs instead, its engine may be tiered, and there are others in its
world.  `Machine.Echoes` relates the two: the lines in memory are those of the values in the sink.
The lemmas at the end say that printing, flushing and so a whole execution keep this relation, and
that what belongs to others is left alone.
-/

namespace Birdcall

/-! ## Acts again and again -/

namespace Act

variable {σ : Type} {a : Act σ Unit}

/-- Carries out an act up to `n` times, until it stops short: how it ended each time, and the state
it left. -/
def upTo (a : Act σ Unit) : Nat → σ → List (Except Stop Unit) × σ
  | 0, s => ([], s)
  | n + 1, s =>
    match outcome a s with
    | (.ok _, s) =>
      match upTo a n s with
      | (results, s) => (.ok () :: results, s)
    | (.error stop, s) => ([.error stop], s)

/-- An act finishes `k` times in a row. -/
inductive Repeats (a : Act σ Unit) : Nat → σ → σ → Prop
  | zero {s : σ} : Repeats a 0 s s
  | succ {k : Nat} {s t u : σ} (h : Repeats a k s t) (ha : outcome a t = (.ok (), u)) :
      Repeats a (k + 1) s u

namespace Repeats

variable {k : Nat} {s t u : σ}

theorem upTo_add (h : Repeats a k s t) (n : Nat) :
    upTo a (k + n) s = (List.replicate k (.ok ()) ++ (upTo a n t).1, (upTo a n t).2) := by
  induction h generalizing n with
  | zero => simp
  | @succ k s t u h ha ih =>
    have hstep : upTo a (n + 1) t = (.ok () :: (upTo a n u).1, (upTo a n u).2) := by
      rw [upTo, ha]
    have hk : k + 1 + n = k + (n + 1) := by omega
    rw [hk, ih (n + 1), hstep, List.replicate_succ', List.append_assoc]
    rfl

theorem upTo_eq (h : Repeats a k s t) : upTo a k s = (List.replicate k (.ok ()), t) := by
  have h0 := h.upTo_add 0
  rw [Nat.add_zero, upTo, List.append_nil] at h0
  exact h0

/-- The first time that fails is the last one. -/
theorem upTo_eq_error (h : Repeats a k s t) {stop : Stop} (ha : outcome a t = (.error stop, u))
    {n : Nat} (hk : k < n) :
    upTo a n s = (List.replicate k (.ok ()) ++ [.error stop], u) := by
  obtain ⟨j, rfl⟩ : ∃ j, n = k + (j + 1) := ⟨n - k - 1, by omega⟩
  rw [h.upTo_add, upTo, ha]

end Repeats
end Act

/-! ## Running alone -/

/-- A sink that takes every value. -/
def Sink.taking : Sink := ⟨"", fun _ => .done⟩

namespace Solo

/-- What the engine is made with: the configuration, but untiered, and a sink. -/
def options (config : Config) : Options :=
  .all [.one (.config config), .one (.tiering false), .one (.sink (some .taking))]

/-- An engine alone in its world. -/
def start (config : Config) : Machine :=
  (Act.outcome (Machine.build Program.digest (options config)) ⟨.blank, .empty⟩).2

/-- Executes a source up to `n` times, until it fails. -/
def runs (config : Config) (n : Nat) (s : Source) : List (Except Stop Unit) × Machine :=
  Act.upTo (Machine.execSource s) n (start config)

/-- The values printed on a machine that runs alone, in order. -/
def printed (m : Machine) : List Text :=
  (m.world.outside.sinks[0]?.map (·.values.reverse)).getD []

/-- The lines of the values that a source prints by itself. -/
def output (config : Config) (n : Nat) (s : Source) : Text :=
  (printed (runs config n s).2).flatMap Text.line

/-- Whether a source fails by itself. -/
def Fails (config : Config) (n : Nat) (s : Source) : Prop :=
  ∃ stop, .error stop ∈ (runs config n s).1

/-- The program of a source, as often as it is executed.  A source that cannot be loaded is never
executed. -/
def executed (config : Config) (n : Nat) (s : Source) : List Program :=
  match s.program with
  | .ok p => List.replicate (runs config n s).1.length p
  | .error _ => []

/-- A machine that has run alone, and printed these values, latest first. -/
structure Stage (config : Config) (values : List Text) (m : Machine) : Prop where
  engine : ∃ l, l.Returns ∧ m.engine = { (start config).engine with log := l }
  sink : m.world.outside.sinks[0]? = some ⟨.taking, values⟩

theorem stage_start (config : Config) : Stage config [] (start config) :=
  ⟨⟨.silent, fun _ h => (nomatch h), rfl⟩, rfl⟩

namespace Stage

variable {config : Config} {values : List Text} {m : Machine}

theorem printed_eq (h : Stage config values m) : printed m = values.reverse := by
  rw [printed, h.sink]
  rfl

theorem set_events (h : Stage config values m) (events : Array Event) :
    Stage config values { m with world.outside.events := events } :=
  ⟨h.engine, h.sink⟩

theorem untiered (h : Stage config values m) : m.engine.tiered = false := by
  obtain ⟨l, -, hengine⟩ := h.engine
  rw [hengine]
  rfl

theorem symbols_eq (h : Stage config values m) : m.engine.symbols = config.symbols := by
  obtain ⟨l, -, hengine⟩ := h.engine
  rw [hengine]
  rfl

theorem outcome_printValue (h : Stage config values m) (value : Text) :
    ∃ m', Act.outcome (Machine.printValue value) m = (.ok (), m') ∧
      Stage config (value :: values) m' := by
  obtain ⟨l, hl, hengine⟩ := h.engine
  obtain ⟨e, ⟨devices, sinks, events⟩, caches, meters⟩ := m
  have hsink : sinks[0]? = some ⟨.taking, values⟩ := h.sink
  let o' : Outside :=
    ⟨devices, sinks.setIfInBounds 0 ⟨.taking, value :: values⟩, events.push (.emitted "" value)⟩
  have hemit : Act.outcome (Outside.emit 0 value) ⟨devices, sinks, events⟩ = (.ok (), o') := by
    rw [Outside.emit, Act.outcome_get_bind]
    simp only [hsink]
    rfl
  have houtlet : e.outlet = .sink 0 := by
    simp only at hengine
    rw [hengine]
    rfl
  refine ⟨⟨e, o', caches, meters⟩, ?_, ⟨l, hl, hengine⟩, ?_⟩
  · rw [Machine.printValue, Act.outcome_get_bind]
    simp only [houtlet]
    rw [Machine.outcome_outside, hemit]
  · have hlt : 0 < sinks.size := (Array.getElem?_eq_some_iff.1 hsink).1
    simp [o', hlt]

/-- There is nothing to flush. -/
theorem outcome_flush (h : Stage config values m) :
    ∃ m', Act.outcome Machine.flush m = (.ok none, m') ∧ Stage config values m' := by
  obtain ⟨l, hl, hengine⟩ := h.engine
  obtain ⟨e, w⟩ := m
  simp only at hengine
  subst hengine
  exact ⟨_, rfl, ⟨l, hl, rfl⟩, h.sink⟩

end Stage
end Solo

/-- The lines of what was printed by the end are the output. -/
theorem Solo.Stage.output_eq {config : Config} {values : List Text} {n : Nat} {s : Source}
    (h : Stage config values (runs config n s).2) :
    (values.map Text.line).reverse.flatten = output config n s := by
  rw [output, h.printed_eq, ← List.map_reverse, List.flatMap_def]

/-! ## Loading and executing -/

namespace Machine

theorem outcome_load (s : Source) (m : Machine) :
    ∃ events, Act.outcome (inWorld (World.load s)) m =
      (s.program, { m with world.outside.events := events }) := by
  obtain ⟨events, hload⟩ := World.outcome_load s m.world
  exact ⟨events, by rw [inWorld, Act.outcome_on, hload]⟩

/-- A source that cannot be loaded fails, whatever it is executed on. -/
theorem outcome_execSource_error {s : Source} {stop : Stop} (hs : s.program = .error stop)
    (m : Machine) :
    ∃ events, Act.outcome (execSource s) m =
      (.error stop, { m with world.outside.events := events }) := by
  obtain ⟨events, hload⟩ := outcome_load s m
  refine ⟨events, ?_⟩
  rw [execSource, Act.outcome_bind, hload, hs]

/-- An untiered engine interprets what it has loaded. -/
theorem outcome_execSource_ok {s : Source} {p : Program} (hs : s.program = .ok p) {m : Machine}
    (hm : m.engine.tiered = false) :
    ∃ events, Act.outcome (execSource s) m =
      Act.outcome (Act.lastly (proceed p none) flush)
        { m with world.outside.events := events } := by
  obtain ⟨events, hload⟩ := outcome_load s m
  refine ⟨events, ?_⟩
  rw [execSource, Act.outcome_bind, hload, hs]
  simp only
  rw [exec, Act.outcome_lastly, Act.outcome_lastly, Act.outcome_bind]
  rw [outcome_find_untiered (m := { m with world.outside.events := events }) hm]

end Machine

/-! ## Echoes -/

theorem Task.accepts_buffer : Task.buffer.Accepts :=
  fun _ _ => ⟨Nat.le_refl _, rfl⟩

/-- An engine of a worker, which prints lines to the memory `d` and to logs. -/
structure Engine.Serves (t : Task) (d : Nat) (logs : List Nat) (e : Engine) : Prop where
  out : e.out = Output.ofDevices (d :: logs)
  outlet : e.outlet = .lines e.out
  pending : e.pending = none
  symbols : e.symbols = t.config.symbols
  tiered : e.tiered = t.config.tiered
  cache : e.cache = t.cache
  closers : ∀ id ∈ e.closers, id ∈ logs
  returns : e.log.Returns

/-- The memory `d` holds these texts, latest first, and the logs are there. -/
structure Outside.Holds (d : Nat) (logs : List Nat) (texts : List Text) (o : Outside) : Prop where
  writer : o.HasWriter d Task.buffer texts
  logs : ∀ id ∈ logs, o.HasLog id

theorem Outside.Holds.keep {d : Nat} {logs : List Nat} {texts : List Text} {o o' : Outside}
    (h : Holds d logs texts o) (hkeeps : Keeps [] o o') : Holds d logs texts o' :=
  ⟨hkeeps.writer List.not_mem_nil h.writer, fun id hid => hkeeps.log id (h.logs id hid)⟩

namespace Engine.Serves

variable {t : Task} {d : Nat} {logs : List Nat} {e : Engine} {texts : List Text} {o : Outside}

theorem outcome_printValue (h : e.Serves t d logs) (hholds : o.Holds d logs texts) (value : Text)
    (caches : Array Cache) (meters : Array Meter) :
    ∃ o', Act.outcome (Machine.printValue value) ⟨e, o, caches, meters⟩ =
        (.ok (), ⟨e, o', caches, meters⟩) ∧
      o'.Holds d logs (value.line :: texts) ∧ o.Keeps [d] o' := by
  obtain ⟨o', hwrite, hwriter, hkeeps⟩ :=
    Outside.outcome_write_ofDevices hholds.writer Task.accepts_buffer hholds.logs value.line
  refine ⟨o', ?_, ⟨hwriter, fun id hid => hkeeps.log id (hholds.logs id hid)⟩, hkeeps⟩
  rw [Machine.printValue, Act.outcome_get_bind]
  simp only [h.outlet, h.out, Output.writeLine]
  rw [Act.outcome_bind, Machine.outcome_outside, hwrite]
  rfl

theorem outcome_flush (h : e.Serves t d logs) (hholds : o.Holds d logs texts)
    (caches : Array Cache) (meters : Array Meter) :
    ∃ o', Act.outcome Machine.flush ⟨e, o, caches, meters⟩ =
        (.ok none, ⟨e, o', caches, meters⟩) ∧ o.Keeps [] o' := by
  obtain ⟨o', hflush, hkeeps⟩ := Outside.outcome_flush_ofDevices hholds.writer rfl hholds.logs
  refine ⟨o', ?_, hkeeps⟩
  -- Nothing was pending, so the engine stays as it is.
  have hpending : { e with pending := none } = e := by
    rw [← h.pending]
  rw [Machine.flush, Act.outcome_get_bind, Act.outcome_bind, Machine.outcome_change]
  simp only [hpending]
  rw [Act.outcome_bind, Machine.outcome_outside, h.out, hflush]
  simp only [h.pending]
  rfl

end Engine.Serves

namespace Machine

/-- The machine `m` of a worker has printed the lines of what `m'` has printed alone.  Since the
world was `w`, the worker has left what belongs to others alone, and the caches as they were. -/
structure Echoes (t : Task) (d : Nat) (logs : List Nat) (w : World) (m m' : Machine) : Prop where
  serves : m.engine.Serves t d logs
  caches_eq : m.world.caches = w.caches
  meters_size : m.world.meters.size = w.meters.size
  keeps : w.outside.Keeps [d] m.world.outside
  printed : ∃ values, m.world.outside.Holds d logs (values.map Text.line) ∧
    Solo.Stage t.config values m'

namespace Echoes

variable {t : Task} {d : Nat} {logs : List Nat} {w : World}

theorem tolerant : Tolerant (Echoes t d logs w) where
  returns h := by
    obtain ⟨values, -, ⟨l, hl, hengine⟩, -⟩ := h.printed
    refine ⟨h.serves.returns, ?_⟩
    rw [hengine]
    exact hl
  left h hl halike hsize := by
    obtain ⟨values, hholds, hstage⟩ := h.printed
    have hkeeps : ∀ {changed}, Outside.Keeps changed _ _ := .of_devices halike.devices
    exact ⟨{ h.serves with returns := hl }, h.caches_eq, hsize.trans h.meters_size,
      h.keeps.trans hkeeps, ⟨values, hholds.keep hkeeps, hstage⟩⟩
  right h hl halike _ := by
    obtain ⟨values, hholds, ⟨l, -, hengine⟩, hsink⟩ := h.printed
    refine ⟨h.serves, h.caches_eq, h.meters_size, h.keeps,
      ⟨values, hholds, ⟨_, hl, ?_⟩, ?_⟩⟩
    · simp only at hengine
      simp only [hengine]
    · rw [halike.sinks]
      exact hsink

/-- A value goes to memory as a line on one side, and to the sink on the other. -/
theorem matches_printValue (value : Text) :
    Act.Matches (Echoes t d logs w) (printValue value) (printValue value) := by
  intro ⟨e, o, caches, meters⟩ m' h
  obtain ⟨values, hholds, hstage⟩ := h.printed
  obtain ⟨m'', hsolo, hstage'⟩ := hstage.outcome_printValue value
  obtain ⟨o', hwrite, hholds', hkeeps⟩ := h.serves.outcome_printValue hholds value caches meters
  rw [hwrite, hsolo]
  exact ⟨rfl, h.serves, h.caches_eq, h.meters_size, h.keeps.trans hkeeps,
    ⟨value :: values, hholds', hstage'⟩⟩

theorem matches_emit (s : Symbol) :
    Act.Matches (Echoes t d logs w) (emit s) (emit s) := by
  refine matches_emit_of (fun h => ?_) matches_printValue s
  obtain ⟨values, -, hstage⟩ := h.printed
  rw [h.serves.symbols, hstage.symbols_eq]

theorem matches_flush : Act.Matches (Echoes t d logs w) flush flush := by
  intro ⟨e, o, caches, meters⟩ m' h
  obtain ⟨values, hholds, hstage⟩ := h.printed
  obtain ⟨m'', hsolo, hstage'⟩ := hstage.outcome_flush
  obtain ⟨o', hflush, hkeeps⟩ := h.serves.outcome_flush hholds caches meters
  rw [hflush, hsolo]
  exact ⟨rfl, h.serves, h.caches_eq, h.meters_size, h.keeps.trans hkeeps.weaken,
    ⟨values, hholds.keep hkeeps, hstage'⟩⟩

end Echoes
end Machine
end Birdcall
