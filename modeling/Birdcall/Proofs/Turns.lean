import Birdcall.Proofs.Filing
import Birdcall.Proofs.Solo

/-!
# Turns of a worker

A worker executes one source a number of times, and does a little of this in each turn: it sets up
its engine, looks up its program, executes it, and closes its engine in the end.  Between two of its
turns others take theirs, in the same world.

`Worker.Tracks` says how far a worker has come, compared with its source running alone.  A turn of a
worker that has not ended is a `Worker.Turned` (`Worker.Tracks.turned`): the worker has come
further, has fewer turns left, has touched no memory but its own, and has done to the cache one of
the four things that `Worker.Uses` lists.  By `Worker.Tracks.keep`, what other workers do in between
makes no difference.
-/

namespace Birdcall

/-! ## Setting up -/

namespace Task

/-- The engine that a worker is given, with the memory `d` and the logs next to it. -/
def engine (t : Task) (name : Text) (d : Nat) (logs : List Nat) : Engine where
  log := ⟨if t.trace then some ⟨name, .debug, t.reply⟩ else none, [], 0⟩
  out := .ofDevices (d :: logs)
  pending := none
  outlet := .lines (.ofDevices (d :: logs))
  symbols := t.config.symbols
  tiered := t.config.tiered
  threshold := t.config.threshold
  cache := t.cache
  meter := t.meter
  closers := logs

/-- What is asked of a task: there is a cache if it is tiered, it was not called off, and logging a
line leads to nothing further. -/
structure Proper (t : Task) : Prop where
  tiered : t.config.tiered = t.cache.isSome
  canceled : t.canceled = false
  reply : ∀ line, t.reply line = .done

variable {t : Task}

theorem Proper.serves_engine (ht : t.Proper) (name : Text) (d : Nat) (logs : List Nat) :
    (t.engine name d logs).Serves t d logs := by
  refine ⟨rfl, rfl, rfl, rfl, rfl, rfl, fun _ hid => hid, fun channel hchannel message => ?_⟩
  simp only [engine] at hchannel
  split at hchannel
  · cases hchannel
    exact ht.reply message
  · cases hchannel

theorem Proper.outcome_build (ht : t.Proper) (name : Text) (e : Engine) (o : Outside)
    (caches : Array Cache) (meters : Array Meter) :
    ∃ o' logs, Act.outcome (Machine.build Program.digest (t.options name)) ⟨e, o, caches, meters⟩ =
        (.ok (), ⟨t.engine name o.devices.size logs, o', caches, meters⟩) ∧
      o'.Holds o.devices.size logs [] ∧ o.Keeps [] o' := by
  let o₁ : Outside := { o with devices := o.devices.push (.pipe (.direct Task.buffer)) }
  have hwriter : o₁.HasWriter o.devices.size Task.buffer [] := Outside.hasWriter_push o Task.buffer
  have hkeeps : o.Keeps [] o₁ := Outside.keeps_push o _
  obtain ⟨htiered, -, hreply⟩ := ht
  obtain ⟨⟨threshold, tiered, symbols⟩, cache, meter, rounds, trace, dump, canceled, reply⟩ := t
  simp only at htiered hreply
  subst htiered
  cases trace with
  | false =>
    refine ⟨o₁, [], ?_, ⟨hwriter, fun _ hid => absurd hid List.not_mem_nil⟩, hkeeps⟩
    cases cache with
    | none => rfl
    | some id => rfl
  | true =>
    let l : LineLog := ⟨some ⟨name, .debug, reply⟩, Text.ofString "out: ", []⟩
    have hl : l.Returns := by
      rintro channel ⟨⟩ message
      exact hreply message
    have hkeeps' := Outside.keeps_push o₁ (.lineLog l)
    refine ⟨{ o₁ with devices := o₁.devices.push (.lineLog l) }, [o₁.devices.size], ?_,
      ⟨?_, ?_⟩, ?_⟩
    · cases cache with
      | none => rfl
      | some id => rfl
    · exact hkeeps'.writer List.not_mem_nil hwriter
    · intro id hid
      rw [List.mem_singleton.1 hid]
      exact Outside.hasLog_push o₁ hl
    · exact hkeeps.trans hkeeps'

end Task

namespace Worker

theorem outcome_logListing {c : Channel} (hc : ∀ line, c.reply line = .done) (p : Program)
    (o : Outside) :
    ∃ o', Act.outcome (logListing c p) o = (.ok (), o') ∧ o.Keeps [] o' := by
  let l : LineLog := ⟨some c, [], []⟩
  have hl : l.Returns := by
    rintro channel ⟨⟩ message
    exact hc message
  let o₁ : Outside := { o with devices := o.devices.push (.lineLog l) }
  have hkeeps₁ : o.Keeps [] o₁ := Outside.keeps_push o _
  have hlog : o₁.HasLog o.devices.size := Outside.hasLog_push o hl
  obtain ⟨o₂, hdump, hkeeps₂⟩ :
      ∃ o₂, Act.outcome (p.dump (.device o.devices.size)) o₁ = (.ok (), o₂) ∧ o₁.Keeps [] o₂ :=
    Outside.outcome_writePieces_log hlog p.listingPieces
  obtain ⟨o₃, hclose, hkeeps₃⟩ := Outside.outcome_close_log (hkeeps₂.log _ hlog)
  refine ⟨o₃, ?_, (hkeeps₁.trans hkeeps₂).trans hkeeps₃⟩
  rw [logListing, Act.outcome_bind]
  show Act.outcome (Act.attempt _ >>= _) o₁ = _
  rw [Act.outcome_bind, Act.outcome_attempt, hdump]
  simp only
  rw [Act.outcome_bind, hclose]
  rfl

end Worker

/-! ## Closing -/

namespace Engine.Serves

variable {t : Task} {d : Nat} {logs : List Nat} {e : Engine} {texts : List Text} {o : Outside}

theorem outcome_closeAll (ids : List Nat) (e : Engine) (o : Outside)
    (hids : ∀ id ∈ ids, o.HasLog id) (caches : Array Cache) (meters : Array Meter) :
    ∃ o', Act.outcome (Machine.closeAll ids) ⟨e, o, caches, meters⟩ =
        (.ok none, ⟨e, o', caches, meters⟩) ∧ o.Keeps [] o' := by
  induction ids generalizing o with
  | nil => exact ⟨o, rfl, .refl o⟩
  | cons id ids ih =>
    obtain ⟨o₁, hclose, hkeeps⟩ := Outside.outcome_close_log (hids id List.mem_cons_self)
    obtain ⟨o₂, hrest, hkeeps'⟩ :=
      ih o₁ fun id hid => hkeeps.log id (hids id (List.mem_cons_of_mem _ hid))
    refine ⟨o₂, ?_, hkeeps.trans hkeeps'⟩
    rw [Machine.closeAll, Act.outcome_bind, Machine.outcome_outside, hclose]
    simp only
    rw [Act.outcome_bind, hrest]
    rfl

/-- The engine of a worker is closed without an error. -/
theorem outcome_close (h : e.Serves t d logs) (hholds : o.Holds d logs texts)
    (caches : Array Cache) (meters : Array Meter) :
    ∃ o', Act.outcome Machine.close ⟨e, o, caches, meters⟩ =
        (.ok (), ⟨{ e with closers := [] }, o', caches, meters⟩) ∧ o.Keeps [] o' := by
  obtain ⟨o₁, hflush, hkeeps⟩ := h.outcome_flush hholds caches meters
  obtain ⟨o₂, hclose, hkeeps'⟩ := outcome_closeAll e.closers e o₁
    (fun id hid => hkeeps.log id (hholds.logs id (h.closers id hid))) caches meters
  refine ⟨o₂, ?_, hkeeps.trans hkeeps'⟩
  rw [Machine.close, Act.outcome_bind, hflush]
  simp only
  rw [Act.outcome_get_bind, Act.outcome_bind, hclose]
  rfl

end Engine.Serves

namespace Worker

variable {t : Task} {w : Worker} {world : World}

/-! ## How a turn ends -/

theorem turn_ok {phase : Phase} {m : Machine}
    (h : Act.outcome (w.act t) ⟨w.engine, world⟩ = (.ok phase, m)) :
    w.turn t world = ({ w with engine := m.engine, phase := phase }, m.world) := by
  rw [turn, h]

theorem turn_error {stop : Stop} {m : Machine}
    (h : Act.outcome (w.act t) ⟨w.engine, world⟩ = (.error stop, m)) :
    ∃ error, w.turn t world =
      ({ w with engine := m.engine, phase := .ended (some error) }, m.world) := by
  rw [turn, h]
  cases stop with
  | failed e => exact ⟨e, rfl⟩
  | crashed v => cases v <;> exact ⟨_, rfl⟩
  | exited => exact ⟨_, rfl⟩

theorem turn_trying_ok {k : Nat} {a : Act Machine Phase} {phase : Phase} {m : Machine}
    (hact : w.act t = w.trying k a)
    (h : Act.outcome a ⟨w.engine, world⟩ = (.ok phase, m)) :
    w.turn t world = ({ w with engine := m.engine, phase := phase }, m.world) := by
  refine turn_ok ?_
  rw [hact, trying, Act.outcome_bind, Act.outcome_attempt, h]
  rfl

/-- A worker ends with an error, however its execution stops short. -/
theorem turn_trying_error {k d : Nat} {logs : List Nat} {texts : List Text}
    {a : Act Machine Phase} {stop : Stop} {e : Engine} {o : Outside} {caches : Array Cache}
    {meters : Array Meter} (hact : w.act t = w.trying k a)
    (h : Act.outcome a ⟨w.engine, world⟩ = (.error stop, ⟨e, o, caches, meters⟩))
    (hserves : e.Serves t d logs) (hholds : o.Holds d logs texts) :
    ∃ error e' o', w.turn t world =
        ({ w with engine := e', phase := .ended (some error) }, ⟨o', caches, meters⟩) ∧
      e'.out = e.out ∧ o.Keeps [] o' := by
  cases stop with
  | failed error =>
    obtain ⟨o', hclose, hkeeps⟩ := hserves.outcome_close hholds caches meters
    have hquit : Act.outcome (w.act t) ⟨w.engine, world⟩ =
        (.ok (.ended (some (.during
          (w.name ++ Text.ofString " execution #" ++ Text.ofNat (k + 1)) error))),
          ⟨{ e with closers := [] }, o', caches, meters⟩) := by
      rw [hact, trying, Act.outcome_bind, Act.outcome_attempt, h]
      simp only
      rw [quit, Act.outcome_bind, Act.outcome_attempt, hclose]
      rfl
    exact ⟨_, _, o', turn_ok hquit, rfl, hkeeps⟩
  | crashed v =>
    have hcrash : Act.outcome (w.act t) ⟨w.engine, world⟩ =
        (.error (.crashed v), ⟨e, o, caches, meters⟩) := by
      rw [hact, trying, Act.outcome_bind, Act.outcome_attempt, h]
    obtain ⟨error, hturn⟩ := turn_error hcrash
    exact ⟨error, e, o, hturn, rfl, .refl o⟩
  | exited =>
    have hexit : Act.outcome (w.act t) ⟨w.engine, world⟩ =
        (.error .exited, ⟨e, o, caches, meters⟩) := by
      rw [hact, trying, Act.outcome_bind, Act.outcome_attempt, h]
    obtain ⟨error, hturn⟩ := turn_error hexit
    exact ⟨error, e, o, hturn, rfl, .refl o⟩

/-! ## How far a worker has come -/

/-- The source that a worker executes. -/
def source (w : Worker) : Source := (Source.ofText w.content).named w.name

/-- What comes next for a worker that keeps up with its source running alone: it has executed it `k`
times, as the machine `m` has. -/
structure Abreast (t : Task) (o : Outside) (w : Worker) (k d : Nat) (logs : List Nat)
    (m : Machine) : Prop where
  serves : w.engine.Serves t d logs
  repeats : Act.Repeats (Machine.execSource w.source) k (Solo.start t.config) m
  printed : ∃ values, o.Holds d logs (values.map Text.line) ∧ Solo.Stage t.config values m

/-- The entry that was found is there and is that of the program, or there is no cache. -/
def Located (p : Program) : Option EntryRef → Option Cache → Prop
  | none, none => True
  | some r, some c => ∃ e, c.entryAt? r = some e ∧ e.program = p
  | _, _ => False

/-- How far a worker has come, compared with its source running alone. -/
inductive Tracks (t : Task) (o : Outside) (cache : Option Cache) (w : Worker) : Prop
  | waiting (hphase : w.phase = .waiting) (hengine : w.engine = .blank)
  | ready {k d : Nat} {logs : List Nat} {m : Machine} (hphase : w.phase = .ready k)
      (hk : k ≤ t.rounds) (h : w.Abreast t o k d logs m)
  | found {k d : Nat} {logs : List Nat} {m : Machine} {p : Program} {r : Option EntryRef}
      (hphase : w.phase = .found k p r) (hk : k < t.rounds) (h : w.Abreast t o k d logs m)
      (hprogram : w.source.program = .ok p) (hlocated : Located p r cache)
  | ended {error : Option Error} {d : Nat} {logs : List Nat} {texts : List Text}
      (hphase : w.phase = .ended error) (hout : w.engine.out = .ofDevices (d :: logs))
      (hwriter : o.HasWriter d Task.buffer texts)
      (herror : error.isSome ↔ Solo.Fails t.config t.rounds w.source)
      (houtput : texts.reverse.flatten = Solo.output t.config t.rounds w.source)

/-- How many turns are left to a worker at most. -/
def turnsLeft (t : Task) (w : Worker) : Nat :=
  match w.phase with
  | .waiting => 2 * t.rounds + 2
  | .ready k => 2 * (t.rounds - k) + 1
  | .found k _ _ => 2 * (t.rounds - k)
  | .ended _ => 0

/-- How often a worker has executed its program. -/
def done (t : Task) (w : Worker) : Nat :=
  match w.phase with
  | .waiting => 0
  | .ready k => k
  | .found k _ _ => k
  | .ended _ => (Solo.runs t.config t.rounds w.source).1.length

/-- The program of a worker, as often as it was executed. -/
def executed (t : Task) (w : Worker) : List Program :=
  match w.source.program with
  | .ok p => List.replicate (w.done t) p
  | .error _ => []

/-- The memory that a worker prints to. -/
def device? (w : Worker) : Option Nat := w.engine.out.devices.head?

/-- What a turn does to the cache: nothing, looking up, or entering. -/
inductive Uses (t : Task) (w w' : Worker) : Option Cache → Option Cache → Prop
  | untiered : Uses t w w' none none
  | idle {c : Cache} (hexecuted : w'.executed t = w.executed t)
      (hphase : ∀ k p r, w.phase ≠ .found k p r) : Uses t w w' (some c) (some c)
  | looked {c : Cache} {k : Nat} {p : Program} (hexecuted : w'.executed t = w.executed t)
      (hphase : ∀ k p r, w.phase ≠ .found k p r)
      (hphase' : w'.phase = .found k p (some (c.lookup p).1)) :
      Uses t w w' (some c) (some (c.lookup p).2)
  | entered {c c' : Cache} {k : Nat} {p : Program} {r : EntryRef} {a : Admission}
      (hexecuted : w'.executed t = p :: w.executed t) (hphase : w.phase = .found k p (some r))
      (hlocated : Located p (some r) (some c)) (henter : c.enter r = .ok (a, c')) :
      Uses t w w' (some c) (some c')

end Worker

namespace Task

/-- The cache that all workers share. -/
def shared (t : Task) (caches : Array Cache) : Option Cache := t.cache.bind (caches[·]?)

/-- The cache of a tiered task is there, and sound. -/
def Provided (t : Task) (caches : Array Cache) : Prop :=
  ∀ id, t.cache = some id → ∃ c, caches[id]? = some c ∧ c.Sound

section Shared

variable {t : Task} {id : Nat} {caches : Array Cache} {c : Cache}

theorem shared_none (ht : t.cache = none) (caches : Array Cache) : t.shared caches = none := by
  rw [shared, ht]
  rfl

theorem shared_some (ht : t.cache = some id) (hc : caches[id]? = some c) :
    t.shared caches = some c := by
  rw [shared, ht]
  exact hc

theorem shared_set (ht : t.cache = some id) (hc : caches[id]? = some c) (c' : Cache) :
    t.shared (caches.setIfInBounds id c') = some c' := by
  have hlt : id < caches.size := (Array.getElem?_eq_some_iff.1 hc).1
  exact shared_some ht (by simp [hlt])

end Shared
end Task

namespace Worker

/-- What a turn does. -/
structure Turned (t : Task) (world : World) (w : Worker) (world' : World) (w' : Worker) : Prop where
  source : w'.source = w.source
  tracks : w'.Tracks t world'.outside (t.shared world'.caches)
  fewer : w'.turnsLeft t < w.turnsLeft t
  device : ∃ d, w'.device? = some d ∧ (w.device? = some d ∨ d = world.outside.devices.size) ∧
    world.outside.Keeps [d] world'.outside
  uses : w.Uses t w' (t.shared world.caches) (t.shared world'.caches)
  meters_size : world'.meters.size = world.meters.size

variable {t : Task} {w : Worker} {world : World}

section Endings

variable {o : Outside} {c : Option Cache} {k d : Nat} {logs : List Nat} {m : Machine}

/-- A worker that failed has ended as its source does alone. -/
theorem tracks_failed {error : Error} {stop : Stop} {m' : Machine} {values : List Text}
    (hphase : w.phase = .ended (some error)) (hout : w.engine.out = .ofDevices (d :: logs))
    (hwriter : o.HasWriter d Task.buffer (values.map Text.line)) (hk : k < t.rounds)
    (hrepeats : Act.Repeats (Machine.execSource w.source) k (Solo.start t.config) m)
    (hfails : Act.outcome (Machine.execSource w.source) m = (.error stop, m'))
    (hstage : Solo.Stage t.config values m') :
    w.Tracks t o c ∧ w.done t = k + 1 := by
  have hruns : Solo.runs t.config t.rounds w.source =
      (List.replicate k (.ok ()) ++ [.error stop], m') := hrepeats.upTo_eq_error hfails hk
  refine ⟨.ended hphase hout hwriter ?_ ?_, ?_⟩
  · simp only [Option.isSome_some, Solo.Fails, hruns, true_iff]
    exact ⟨stop, by simp⟩
  · exact Solo.Stage.output_eq (hruns ▸ hstage)
  · simp [done, hphase, hruns]

/-- A worker that is done has ended as its source does alone. -/
theorem tracks_finished {values : List Text} (hphase : w.phase = .ended none)
    (hout : w.engine.out = .ofDevices (d :: logs))
    (hwriter : o.HasWriter d Task.buffer (values.map Text.line))
    (hrepeats : Act.Repeats (Machine.execSource w.source) t.rounds (Solo.start t.config) m)
    (hstage : Solo.Stage t.config values m) : w.Tracks t o c ∧ w.done t = t.rounds := by
  have hruns : Solo.runs t.config t.rounds w.source = (List.replicate t.rounds (.ok ()), m) :=
    hrepeats.upTo_eq
  refine ⟨.ended hphase hout hwriter ?_ ?_, ?_⟩
  · simp [Solo.Fails, hruns]
  · exact Solo.Stage.output_eq (hruns ▸ hstage)
  · simp [done, hphase, hruns]

end Endings

theorem executed_of_ok {p : Program} (h : w.source.program = .ok p) :
    w.executed t = List.replicate (w.done t) p := by
  rw [executed, h]

theorem executed_of_error {stop : Stop} (h : w.source.program = .error stop) :
    w.executed t = [] := by
  rw [executed, h]

theorem executed_of_done {w' : Worker} (hsource : w'.source = w.source)
    (hdone : w'.done t = w.done t) : w'.executed t = w.executed t := by
  rw [executed, executed, hsource, hdone]

theorem device?_of_out {d : Nat} {logs : List Nat} (h : w.engine.out = .ofDevices (d :: logs)) :
    w.device? = some d := by
  rw [device?, h]
  cases logs <;> rfl

/-- A turn that leaves the cache alone. -/
theorem Uses.of_same {w' : Worker} (hexecuted : w'.executed t = w.executed t)
    (hphase : ∀ k p r, w.phase ≠ .found k p r) (cache : Option Cache) :
    w.Uses t w' cache cache := by
  cases cache with
  | none => exact .untiered
  | some c => exact .idle hexecuted hphase

/-! ## Turns -/

section Waiting

variable {o o₁ o' : Outside} {caches : Array Cache} {meters : Array Meter} {logs : List Nat}

theorem turned_ready (hphase : w.phase = .waiting) (ht : t.Proper)
    (hholds : o₁.Holds o.devices.size logs []) (hkeeps : o.Keeps [] o₁) (hkeeps' : o₁.Keeps [] o')
    (houtcome : Act.outcome (w.act t) ⟨w.engine, o, caches, meters⟩ =
      (.ok (.ready 0), ⟨t.engine w.name o.devices.size logs, o', caches, meters⟩)) :
    Turned t ⟨o, caches, meters⟩ w (w.turn t ⟨o, caches, meters⟩).2
      (w.turn t ⟨o, caches, meters⟩).1 := by
  let w' : Worker := { w with engine := t.engine w.name o.devices.size logs, phase := .ready 0 }
  have hexecuted : w'.executed t = w.executed t :=
    executed_of_done rfl (by simp [w', done, hphase])
  rw [turn_ok houtcome]
  refine ⟨rfl, ?_, ?_, ?_, ?_, rfl⟩
  · exact .ready rfl (Nat.zero_le _)
      ⟨ht.serves_engine w.name o.devices.size logs, .zero, [], hholds.keep hkeeps',
        Solo.stage_start t.config⟩
  · simp [turnsLeft, hphase]
  · exact ⟨_, device?_of_out rfl, .inr rfl, (hkeeps.trans hkeeps').weaken⟩
  · exact .of_same hexecuted (by simp [hphase]) _

/-- A source without a listing ends its worker, and fails alone, too. -/
theorem turned_unlisted {e : SyntaxError} (hphase : w.phase = .waiting) (hrounds : 0 < t.rounds)
    (htokens : Program.ofTokens (Token.lex w.content) = .error e)
    (hholds : o₁.Holds o.devices.size logs []) (hkeeps : o.Keeps [] o₁)
    (houtcome : Act.outcome (w.act t) ⟨w.engine, o, caches, meters⟩ =
      (.ok (.ended (some (.during w.name (.spelling e)))),
        ⟨t.engine w.name o.devices.size logs, o₁, caches, meters⟩)) :
    Turned t ⟨o, caches, meters⟩ w (w.turn t ⟨o, caches, meters⟩).2
      (w.turn t ⟨o, caches, meters⟩).1 := by
  obtain ⟨stop, hprogram⟩ := Source.program_of_lex htokens w.name
  obtain ⟨events, hexec⟩ := Machine.outcome_execSource_error hprogram (Solo.start t.config)
  let w' : Worker :=
    { w with
      engine := t.engine w.name o.devices.size logs
      phase := .ended (some (.during w.name (.spelling e))) }
  have htracks : w'.Tracks t o₁ (t.shared caches) :=
    (tracks_failed (w := w') rfl rfl hholds.writer hrounds .zero hexec
      ((Solo.stage_start t.config).set_events events)).1
  rw [turn_ok houtcome]
  refine ⟨rfl, htracks, ?_, ?_, ?_, rfl⟩
  · simp [turnsLeft, hphase]
  · exact ⟨_, device?_of_out rfl, .inr rfl, hkeeps.weaken⟩
  · refine .of_same ?_ (by simp [hphase]) _
    rw [executed_of_error (w := w') hprogram, executed_of_error (w := w) hprogram]

end Waiting

/-- Setting up succeeds, unless the listing is asked for and there is none. -/
theorem turned_waiting (ht : t.Proper) (hrounds : 0 < t.rounds) (hphase : w.phase = .waiting) :
    Turned t world w (w.turn t world).2 (w.turn t world).1 := by
  obtain ⟨o, caches, meters⟩ := world
  obtain ⟨o₁, logs, hbuild, hholds, hkeeps⟩ := ht.outcome_build w.name w.engine o caches meters
  have hact : w.act t = w.prepare t := by rw [act, hphase]
  by_cases hdump : t.dump = true
  · cases htokens : Program.ofTokens (Token.lex w.content) with
    | ok p =>
      obtain ⟨o₂, hlisting, hkeeps₂⟩ :=
        outcome_logListing (c := ⟨w.name, .info, t.reply⟩) ht.reply p o₁
      refine turned_ready hphase ht hholds hkeeps hkeeps₂ ?_
      rw [hact, prepare, Act.outcome_bind, hbuild]
      simp only [hdump, if_true, htokens]
      rw [Act.outcome_bind, Machine.outcome_outside, hlisting]
      rfl
    | error e =>
      refine turned_unlisted hphase hrounds htokens hholds hkeeps ?_
      rw [hact, prepare, Act.outcome_bind, hbuild]
      simp only [hdump, if_true, htokens]
      rfl
  · refine turned_ready hphase ht hholds hkeeps (.refl o₁) ?_
    rw [hact, prepare, Act.outcome_bind, hbuild]
    simp only [hdump]
    rfl

section Abreast

variable {k d : Nat} {logs : List Nat} {m : Machine}

/-- A worker that has executed its source often enough closes its engine. -/
theorem turned_close (hphase : w.phase = .ready t.rounds)
    (h : w.Abreast t world.outside t.rounds d logs m) :
    Turned t world w (w.turn t world).2 (w.turn t world).1 := by
  obtain ⟨o, caches, meters⟩ := world
  obtain ⟨values, hholds, hstage⟩ := h.printed
  obtain ⟨o', hclose, hkeeps⟩ := h.serves.outcome_close hholds caches meters
  have hended : Act.outcome (w.act t) ⟨w.engine, o, caches, meters⟩ =
      (.ok (.ended none), ⟨{ w.engine with closers := [] }, o', caches, meters⟩) := by
    rw [act, hphase]
    simp only [Nat.le_refl, if_true]
    rw [Act.outcome_bind, hclose]
    rfl
  let w' : Worker := { w with engine := { w.engine with closers := [] }, phase := .ended none }
  have hout : w'.engine.out = .ofDevices (d :: logs) := h.serves.out
  obtain ⟨htracks, hdone⟩ := tracks_finished (w := w') (c := t.shared caches) rfl hout
    (hkeeps.writer List.not_mem_nil hholds.writer) h.repeats hstage
  have hexecuted : w'.executed t = w.executed t :=
    executed_of_done rfl (by rw [hdone, done, hphase])
  rw [turn_ok hended]
  refine ⟨rfl, htracks, ?_, ?_, ?_, rfl⟩
  · simp [turnsLeft, hphase]
  · exact ⟨d, device?_of_out hout, .inl (device?_of_out h.serves.out), hkeeps.weaken⟩
  · exact .of_same hexecuted (by simp [hphase]) _

/-- A worker whose execution fails ends, as its source does alone. -/
theorem turned_failed {a : Act Machine Phase} {stop stop' : Stop} {e : Engine} {world' : World}
    {values : List Text} {m' : Machine} (hact : w.act t = w.trying k a)
    (houtcome : Act.outcome a ⟨w.engine, world⟩ = (.error stop, ⟨e, world'⟩))
    (hserves : e.Serves t d logs) (hholds : world'.outside.Holds d logs (values.map Text.line))
    (hkeeps : world.outside.Keeps [d] world'.outside)
    (hmeters : world'.meters.size = world.meters.size) (hk : k < t.rounds)
    (hleft : 0 < w.turnsLeft t) (h : w.Abreast t world.outside k d logs m)
    (hfails : Act.outcome (Machine.execSource w.source) m = (.error stop', m'))
    (hstage : Solo.Stage t.config values m')
    (huses : ∀ w' : Worker, w'.source = w.source → w'.done t = k + 1 →
      w.Uses t w' (t.shared world.caches) (t.shared world'.caches)) :
    Turned t world w (w.turn t world).2 (w.turn t world).1 := by
  obtain ⟨o', caches', meters'⟩ := world'
  obtain ⟨error, e', o'', hturn, hout, hkeeps'⟩ :=
    turn_trying_error hact houtcome hserves hholds
  let w' : Worker := { w with engine := e', phase := .ended (some error) }
  have hout' : w'.engine.out = .ofDevices (d :: logs) := hout.trans hserves.out
  obtain ⟨htracks, hdone⟩ := tracks_failed (w := w') (c := t.shared caches') rfl hout'
    (hkeeps'.writer List.not_mem_nil hholds.writer) hk h.repeats hfails hstage
  rw [hturn]
  refine ⟨rfl, htracks, hleft, ?_, huses w' rfl hdone, hmeters⟩
  exact ⟨d, device?_of_out hout', .inl (device?_of_out h.serves.out), hkeeps.trans hkeeps'.weaken⟩

/-- A worker that finds its program stays abreast, since nothing is executed. -/
theorem turned_found {a : Act Machine Phase} {o o' : Outside} {caches caches' : Array Cache}
    {meters : Array Meter} {p : Program} {r : Option EntryRef} (hact : w.act t = w.trying k a)
    (houtcome : Act.outcome a ⟨w.engine, o, caches, meters⟩ =
      (.ok (.found k p r), ⟨w.engine, o', caches', meters⟩))
    (hphase : w.phase = .ready k) (hk : k < t.rounds) (h : w.Abreast t o k d logs m)
    (hdevices : o'.devices = o.devices) (hprogram : w.source.program = .ok p)
    (hlocated : Located p r (t.shared caches'))
    (huses : ∀ w' : Worker, w'.phase = .found k p r → w'.executed t = w.executed t →
      w.Uses t w' (t.shared caches) (t.shared caches')) :
    Turned t ⟨o, caches, meters⟩ w (w.turn t ⟨o, caches, meters⟩).2
      (w.turn t ⟨o, caches, meters⟩).1 := by
  obtain ⟨values, hholds, hstage⟩ := h.printed
  have hdevice := device?_of_out h.serves.out
  let w' : Worker := { w with phase := .found k p r }
  have hexecuted : w'.executed t = w.executed t :=
    executed_of_done rfl (by simp [w', done, hphase])
  rw [turn_trying_ok hact houtcome]
  refine ⟨rfl, ?_, ?_, ?_, huses w' rfl hexecuted, rfl⟩
  · exact .found (w := w') rfl hk
      ⟨h.serves, h.repeats, values, hholds.keep (.of_devices hdevices), hstage⟩ hprogram hlocated
  · simp [turnsLeft, hphase]
  · exact ⟨d, hdevice, .inl hdevice, .of_devices hdevices⟩

/-- A worker looks up its program.  If there is none, its source fails alone, too. -/
theorem turned_find (ht : t.Proper) (hcache : t.Provided world.caches) (hphase : w.phase = .ready k)
    (hk : k < t.rounds) (h : w.Abreast t world.outside k d logs m) :
    Turned t world w (w.turn t world).2 (w.turn t world).1 := by
  obtain ⟨o, caches, meters⟩ := world
  let find : Act Machine Phase := do
    let p ← Machine.inWorld (World.load w.source)
    return .found k p (← Machine.find p)
  have hact : w.act t = w.trying k find := by
    rw [act, hphase]
    simp only [Nat.not_le.2 hk, if_false, ht.canceled]
    rfl
  have hnever : ∀ k p r, w.phase ≠ .found k p r := by simp [hphase]
  obtain ⟨events, hload⟩ := Machine.outcome_load w.source ⟨w.engine, o, caches, meters⟩
  let o₁ : Outside := { o with events := events }
  have hkeeps₁ : ∀ {changed}, o.Keeps changed o₁ := .of_devices rfl
  cases hprogram : w.source.program with
  | error stop =>
    obtain ⟨values, hholds, hstage⟩ := h.printed
    have hstop : Act.outcome find ⟨w.engine, o, caches, meters⟩ =
        (.error stop, ⟨w.engine, o₁, caches, meters⟩) := by
      rw [Act.outcome_bind, hload, hprogram]
    obtain ⟨events', hexec⟩ := Machine.outcome_execSource_error hprogram m
    refine turned_failed hact hstop h.serves (hholds.keep hkeeps₁) hkeeps₁ rfl hk ?_ h hexec
      (hstage.set_events events') fun w' hsource _ => .of_same ?_ hnever _
    · simp [turnsLeft, hphase]
    · rw [executed_of_error (w := w') (hsource ▸ hprogram), executed_of_error hprogram]
  | ok p =>
    have hok : ∀ {r caches'}, Act.outcome (Machine.find p) ⟨w.engine, o₁, caches, meters⟩ =
          (.ok r, ⟨w.engine, o₁, caches', meters⟩) →
        Act.outcome find ⟨w.engine, o, caches, meters⟩ =
          (.ok (.found k p r), ⟨w.engine, o₁, caches', meters⟩) := by
      intro r caches' hfind
      rw [Act.outcome_bind, hload, hprogram]
      simp only
      rw [Act.outcome_bind, hfind]
      rfl
    cases hid : t.cache with
    | none =>
      have htiered : w.engine.tiered = false := by rw [h.serves.tiered, ht.tiered, hid]; rfl
      refine turned_found hact (hok (Machine.outcome_find_untiered htiered p)) hphase hk h rfl
        hprogram ?_ fun w' _ _ => ?_
      · rw [Task.shared_none hid]
        trivial
      · rw [Task.shared_none hid]
        exact .untiered
    | some id =>
      obtain ⟨c, hc, -⟩ := hcache id hid
      have htiered : w.engine.tiered = true := by rw [h.serves.tiered, ht.tiered, hid]; rfl
      have hfind := Machine.outcome_find (m := ⟨w.engine, o₁, caches, meters⟩) htiered
        (h.serves.cache.trans hid) hc p
      refine turned_found hact (hok hfind) hphase hk h rfl hprogram ?_
        fun w' hphase' hexecuted => ?_
      · rw [Task.shared_set hid hc]
        exact c.lookup_spec p
      · rw [Task.shared_some hid hc, Task.shared_set hid hc]
        exact .looked hexecuted hnever hphase'

/-- An execution does what its source does alone. -/
theorem Abreast.exec {o : Outside} {caches : Array Cache} {p : Program} {r : Option EntryRef}
    (h : w.Abreast t o k d logs m) (hcache : t.Provided caches)
    (hprogram : w.source.program = .ok p) (hlocated : Located p r (t.shared caches))
    (meters : Array Meter) :
    ∃ caches',
      (Act.outcome (Act.lastly (Machine.proceed p r) Machine.flush)
        ⟨w.engine, o, caches, meters⟩).1 = (Act.outcome (Machine.execSource w.source) m).1 ∧
      Machine.Echoes t d logs ⟨o, caches', meters⟩
        (Act.outcome (Act.lastly (Machine.proceed p r) Machine.flush)
          ⟨w.engine, o, caches, meters⟩).2 (Act.outcome (Machine.execSource w.source) m).2 ∧
      (t.shared caches = none ∧ t.shared caches' = none ∨
        ∃ c c' ref a, t.shared caches = some c ∧ r = some ref ∧ c.enter ref = .ok (a, c') ∧
          t.shared caches' = some c') := by
  obtain ⟨values, hholds, hstage⟩ := h.printed
  obtain ⟨events, hexec⟩ := Machine.outcome_execSource_ok hprogram hstage.untiered
  have hstage₁ := hstage.set_events events
  rw [hexec]
  cases hid : t.cache with
  | none =>
    rw [Task.shared_none hid] at hlocated
    cases r with
    | some ref => exact hlocated.elim
    | none =>
      obtain ⟨hend, hechoes⟩ := (Machine.matches_proceed Machine.Echoes.tolerant
        Machine.Echoes.matches_emit p).lastly Machine.Echoes.matches_flush
        ⟨w.engine, o, caches, meters⟩ _ ⟨h.serves, rfl, rfl, .refl o, values, hholds, hstage₁⟩
      exact ⟨caches, hend, hechoes, .inl ⟨Task.shared_none hid _, Task.shared_none hid _⟩⟩
  | some id =>
    obtain ⟨c, hc, hsound⟩ := hcache id hid
    rw [Task.shared_some hid hc] at hlocated
    cases r with
    | none => exact hlocated.elim
    | some ref =>
      obtain ⟨e, he, rfl⟩ := hlocated
      obtain ⟨a, c', henter, -, hartifact⟩ := hsound.enter he
      obtain ⟨hend, hechoes⟩ := (Machine.matches_perform Machine.Echoes.tolerant
        Machine.Echoes.matches_emit hartifact).lastly Machine.Echoes.matches_flush
        ⟨w.engine, o, caches.setIfInBounds id c', meters⟩ _
        ⟨h.serves, rfl, rfl, .refl o, values, hholds, hstage₁⟩
      have hproceed : Act.outcome (Machine.proceed e.program (some ref))
            ⟨w.engine, o, caches, meters⟩ =
          Act.outcome (Machine.perform e.program a)
            ⟨w.engine, o, caches.setIfInBounds id c', meters⟩ :=
        Machine.outcome_proceed (h.serves.cache.trans hid) hc henter e.program
      rw [Act.outcome_lastly, hproceed, ← Act.outcome_lastly]
      exact ⟨_, hend, hechoes, .inr ⟨c, c', ref, a, Task.shared_some hid hc, rfl, henter,
        Task.shared_set hid hc c'⟩⟩

/-- A worker executes its program, and ends if that fails. -/
theorem turned_execute {p : Program} {r : Option EntryRef} (hcache : t.Provided world.caches)
    (hphase : w.phase = .found k p r) (hk : k < t.rounds)
    (h : w.Abreast t world.outside k d logs m) (hprogram : w.source.program = .ok p)
    (hlocated : Located p r (t.shared world.caches)) :
    Turned t world w (w.turn t world).2 (w.turn t world).1 := by
  obtain ⟨o, caches, meters⟩ := world
  have hact : w.act t = w.trying k do
      Act.lastly (Machine.proceed p r) Machine.flush
      return .ready (k + 1) := by
    rw [act, hphase]
  have hdevice := device?_of_out h.serves.out
  obtain ⟨caches', hend, hechoes, hentered⟩ := h.exec hcache hprogram hlocated meters
  have huses : ∀ w' : Worker, w'.source = w.source → w'.done t = k + 1 →
      w.Uses t w' (t.shared caches) (t.shared caches') := by
    intro w' hsource hdone
    have hexecuted : w'.executed t = p :: w.executed t := by
      rw [executed_of_ok (hsource ▸ hprogram), executed_of_ok hprogram, hdone, done, hphase,
        List.replicate_succ]
    obtain ⟨hnone, hnone'⟩ | ⟨c, c', ref, a, hc, rfl, henter, hc'⟩ := hentered
    · rw [hnone, hnone']
      exact .untiered
    · rw [hc] at hlocated
      rw [hc, hc']
      exact .entered hexecuted hphase hlocated henter
  rcases hmine : Act.outcome (Act.lastly (Machine.proceed p r) Machine.flush)
    ⟨w.engine, o, caches, meters⟩ with ⟨result, e', o', caches'', meters'⟩
  rcases halone : Act.outcome (Machine.execSource w.source) m with ⟨result', m'⟩
  rw [hmine, halone] at hend hechoes
  simp only at hend
  subst hend
  obtain ⟨hserves, rfl, hmeters, hkeeps, values, hholds, hstage⟩ := hechoes
  cases result with
  | ok _ =>
    have hok : Act.outcome (do
        Act.lastly (Machine.proceed p r) Machine.flush
        return Phase.ready (k + 1)) ⟨w.engine, o, caches, meters⟩ =
          (.ok (.ready (k + 1)), ⟨e', o', caches'', meters'⟩) := by
      rw [Act.outcome_bind, hmine]
      rfl
    let w' : Worker := { w with engine := e', phase := .ready (k + 1) }
    rw [turn_trying_ok hact hok]
    refine ⟨rfl, ?_, ?_, ?_, huses w' rfl rfl, hmeters⟩
    · exact .ready (w := w') rfl hk ⟨hserves, h.repeats.succ halone, values, hholds, hstage⟩
    · simp only [turnsLeft, hphase]
      omega
    · exact ⟨d, device?_of_out hserves.out, .inl hdevice, hkeeps⟩
  | error stop =>
    have hstop : Act.outcome (do
        Act.lastly (Machine.proceed p r) Machine.flush
        return Phase.ready (k + 1)) ⟨w.engine, o, caches, meters⟩ =
          (.error stop, ⟨e', o', caches'', meters'⟩) := by
      rw [Act.outcome_bind, hmine]
    refine turned_failed hact hstop hserves hholds hkeeps hmeters hk ?_ h halone hstage huses
    simp only [turnsLeft, hphase]
    omega

end Abreast

/-- What a turn of a worker does that has not ended. -/
theorem Tracks.turned (h : w.Tracks t world.outside (t.shared world.caches)) (ht : t.Proper)
    (hrounds : 0 < t.rounds) (hcache : t.Provided world.caches) (hended : w.hasEnded = false) :
    Turned t world w (w.turn t world).2 (w.turn t world).1 := by
  cases h with
  | waiting hphase _ => exact turned_waiting ht hrounds hphase
  | @ready k _ _ _ hphase hk h =>
    by_cases hlast : k = t.rounds
    · subst hlast
      exact turned_close hphase h
    · exact turned_find ht hcache hphase (by omega) h
  | found hphase hk h hprogram hlocated =>
    exact turned_execute hcache hphase hk h hprogram hlocated
  | ended hphase _ _ _ _ => simp [hasEnded, hphase] at hended

/-- A worker does not notice what others do. -/
theorem Tracks.keep {o o' : Outside} {cache cache' : Option Cache} {d' : Nat}
    (h : w.Tracks t o cache) (hkeeps : o.Keeps [d'] o') (hdevice : w.device? ≠ some d')
    (hcache : ∀ p r, Located p r cache → Located p r cache') : w.Tracks t o' cache' := by
  have hother : ∀ {d logs}, w.engine.out = .ofDevices (d :: logs) → d ∉ [d'] := by
    intro d logs hout
    rw [device?_of_out hout] at hdevice
    simpa using hdevice
  have habreast : ∀ {k d logs m}, w.Abreast t o k d logs m → w.Abreast t o' k d logs m := by
    rintro k d logs m ⟨hserves, hrepeats, values, hholds, hstage⟩
    exact ⟨hserves, hrepeats, values, ⟨hkeeps.writer (hother hserves.out) hholds.writer,
      fun id hid => hkeeps.log id (hholds.logs id hid)⟩, hstage⟩
  cases h with
  | waiting hphase hengine => exact .waiting hphase hengine
  | ready hphase hk h => exact .ready hphase hk (habreast h)
  | found hphase hk h hprogram hlocated =>
    exact .found hphase hk (habreast h) hprogram (hcache _ _ hlocated)
  | ended hphase hout hwriter herror houtput =>
    exact .ended hphase hout (hkeeps.writer (hother hout) hwriter) herror houtput

/-- The memory of a worker is there. -/
theorem Tracks.device_lt {o : Outside} {cache : Option Cache} {d : Nat} (h : w.Tracks t o cache)
    (hd : w.device? = some d) : d < o.devices.size := by
  have habreast : ∀ {k d' logs m}, w.Abreast t o k d' logs m → d < o.devices.size := by
    rintro k d' logs m ⟨hserves, -, values, hholds, -⟩
    rw [device?_of_out hserves.out] at hd
    exact Option.some.inj hd ▸ hholds.writer.lt
  cases h with
  | waiting _ hengine =>
    rw [device?, hengine] at hd
    cases hd
  | ready _ _ h => exact habreast h
  | found _ _ h _ _ => exact habreast h
  | ended _ hout hwriter _ _ =>
    rw [device?_of_out hout] at hd
    exact Option.some.inj hd ▸ hwriter.lt

/-! ## The end -/

theorem Tracks.ended_of_turnsLeft {o : Outside} {cache : Option Cache} (h : w.Tracks t o cache)
    (hleft : w.turnsLeft t = 0) : w.hasEnded = true := by
  cases h with
  | waiting hphase _ => simp [turnsLeft, hphase] at hleft
  | ready hphase _ _ => simp [turnsLeft, hphase] at hleft
  | found hphase hk _ _ _ =>
    simp only [turnsLeft, hphase] at hleft
    omega
  | ended hphase _ _ _ _ => simp [hasEnded, hphase]

/-- A worker that has ended has done what its source does alone. -/
theorem Tracks.alone {cache : Option Cache} (h : w.Tracks t world.outside cache)
    (hended : w.hasEnded = true) :
    w.output world = Solo.output t.config t.rounds w.source ∧
      (w.error?.isSome ↔ Solo.Fails t.config t.rounds w.source) ∧
      w.executed t = Solo.executed t.config t.rounds w.source := by
  cases h with
  | waiting hphase _ => simp [hasEnded, hphase] at hended
  | ready hphase _ _ => simp [hasEnded, hphase] at hended
  | found hphase _ _ _ _ => simp [hasEnded, hphase] at hended
  | @ended error d logs texts hphase hout hwriter herror houtput =>
    refine ⟨?_, ?_, ?_⟩
    · have hdevice : w.engine.out.devices.head? = some d := device?_of_out hout
      have hoffered : world.outside.offered d = texts.reverse.flatten := by
        rw [Outside.offered, show world.outside.devices[d]? = _ from hwriter]
      rw [output, hdevice, ← houtput, ← hoffered]
      rfl
    · rw [error?, hphase]
      exact herror
    · rw [executed, done, hphase]
      rfl

end Worker
end Birdcall
