import Birdcall.Command.Run
import Birdcall.Proofs.Crew

/-!
# Running commands in any order

The workers of a command take turns as they happen to.  This module proves that no one can tell:
what a command writes, whether it fails and the statistics of its cache are the same for all orders.

A run is cut in two.  `Command.outcome_run` takes the workers to their end, where `Crew.Orderly.run`
says what they have done.  `Command.outcome_wrapUp` is about the rest: writing out what was printed,
logging the statistics, and writing the file with the numbers on show.
-/

namespace Birdcall

/-- Surroundings in which nothing interferes: the run is not called off, logging a line leads to
nothing further, and the standard output takes everything. -/
structure Surroundings.Favourable (s : Surroundings) (out : Writer) : Prop where
  canceled : s.canceled = false
  reply : ∀ line, s.reply line = .done
  output : s.output = .writer out
  accepts : out.Accepts

theorem World.outcome_doing {α : Type} (a : Act Outside α) (o : Outside) (caches : Array Cache)
    (meters : Array Meter) :
    Act.outcome (doing a) ⟨o, caches, meters⟩ =
      ((Act.outcome a o).1, ⟨(Act.outcome a o).2, caches, meters⟩) := by
  rw [doing, Act.outcome_on]

namespace Command

/-! ## Two parts of a run -/

/-- What the workers of a command have in common. -/
def task (c : Command) (s : Surroundings) (config : Config) : Task where
  config := config
  cache := if config.tiered then some 0 else none
  meter := if c.metricsFile.isEmpty then none else some 0
  rounds := c.rounds.toNat
  trace := c.trace
  dump := c.dump
  canceled := s.canceled
  reply := s.reply

/-- The world that the workers of a command begin in. -/
def start (c : Command) (config : Config) : World where
  outside := .empty
  caches := if config.tiered then #[.new Program.digest config.threshold] else #[]
  meters :=
    if c.metricsFile.isEmpty then #[]
    else #[{ Meter.new true with watched := if config.tiered then some (some 0) else none }]

/-- What is left to do once all workers have ended. -/
def wrapUp (c : Command) (s : Surroundings) (t : Task) (crew : Crew) : Act World Unit := do
  let undelivered ← World.doing do
    deliver (← Output.straight s.output) (crew.workers.map (·.output crew.world))
  let world ← get
  if c.stats then
    match t.cache.bind (world.caches[·]?) with
    | some found => World.doing (logStats s.reply found)
    | none => pure ()
  let unstored ←
    match t.meter.bind (world.meters[·]?) with
    | some m => World.doing (store s c.metricsFile (world.families m))
    | none => pure none
  Act.check (crew.error.or (undelivered.or unstored))

variable {c : Command} {s : Surroundings} {config : Config} {workers : List Worker} {out : Writer}

theorem outcome_run (hconfig : c.settle s.fetch = .ok config)
    (hsources : readSources s.fetch s.input c.sources = .ok workers) :
    let t := c.task s config
    let crew := Crew.run t s.turns ⟨workers, c.start config, none⟩
    Act.outcome (c.run s) .empty = Act.outcome (c.wrapUp s t crew) crew.world := by
  rw [run, hconfig, hsources]
  -- What is set up depends on two fields only, whatever the workers do with it.
  clear hconfig hsources
  generalize Crew.run = work
  obtain ⟨_, _, _, _, _, _, _, _, metricsFile, _⟩ := c
  obtain ⟨_, tiered, _⟩ := config
  cases tiered <;> cases metricsFile <;> rfl

/-! ## The end of a run -/

/-- An output that takes everything gets the texts in order. -/
theorem outcome_deliver {o : Outside} {id : Nat} {offers : List Text} (texts : List Text)
    (h : o.HasWriter id out offers) (hout : out.Accepts) :
    ∃ o' offers', Act.outcome (deliver (some (.device id)) texts) o = (.ok none, o') ∧
      o'.HasWriter id out offers' ∧ o'.devices.size = o.devices.size ∧
      offers'.reverse.flatten = offers.reverse.flatten ++ texts.flatten := by
  induction texts generalizing o offers with
  | nil => exact ⟨o, offers, rfl, h, rfl, by simp⟩
  | cons t texts ih =>
    cases t with
    | nil =>
      obtain ⟨o', offers', hdeliver, hwriter, hsize, hoffers⟩ := ih h
      exact ⟨o', offers', hdeliver, hwriter, hsize, by simpa using hoffers⟩
    | cons b t =>
      obtain ⟨o₁, hwrite, hwriter₁, -, hsize₁⟩ := Outside.outcome_write_accepts h hout (b :: t)
      obtain ⟨o₂, offers', hdeliver, hwriter, hsize, hoffers⟩ := ih hwriter₁
      refine ⟨o₂, offers', ?_, hwriter, hsize.trans hsize₁, by simpa using hoffers⟩
      have hwrite' : Act.outcome ((Output.device id).write (b :: t)) o =
          (.ok ((b :: t).length, none), o₁) := hwrite
      rw [deliver, Act.outcome_bind, Output.present, Act.outcome_pure]
      · simp only
        rw [Act.outcome_bind, hwrite']
        simp only [Nat.lt_irrefl, if_false]
        rw [Act.outcome_bind, hdeliver]
        rfl
      · simp

/-- Logs the statistics of a cache, if there is one and that is asked for. -/
def report (c : Command) (s : Surroundings) : Option Cache → Act Outside Unit
  | some cache => if c.stats then logStats s.reply cache else pure ()
  | none => pure ()

/-- Writes the file with the numbers on show, if there are any. -/
def publish (s : Surroundings) (name : Text) : Option (List Family) → Act Outside (Option Error)
  | some families => store s name families
  | none => pure none

theorem outcome_report (hs : s.Favourable out) (found : Option Cache) (o : Outside) :
    ∃ events, Act.outcome (c.report s found) o = (.ok (), { o with events := events }) := by
  cases found with
  | none => exact ⟨o.events, rfl⟩
  | some cache =>
    rw [report]
    split
    · refine ⟨o.events.push (.reported cache.stats), ?_⟩
      rw [logStats, hs.reply]
      rfl
    · exact ⟨o.events, rfl⟩

theorem outcome_publish (s : Surroundings) (name : Text) (found : Option (List Family))
    (o : Outside) :
    ∃ error events,
      Act.outcome (publish s name found) o = (.ok error, { o with events := events }) ∧
      (error = none ↔ found = none ∨ s.canWrite name = true) := by
  cases found with
  | none => exact ⟨none, o.events, rfl, by simp⟩
  | some families =>
    rw [publish, store]
    split
    · rename_i hwrite
      exact ⟨none, o.events.push (.stored name (families.flatMap Family.text)), rfl,
        by simp [hwrite]⟩
    · rename_i hwrite
      exact ⟨some _, o.events, rfl, by simp [hwrite]⟩

theorem wrapUp_eq (c : Command) (s : Surroundings) (t : Task) (crew : Crew) :
    c.wrapUp s t crew = (do
      let undelivered ← World.doing do
        deliver (← Output.straight s.output) (crew.workers.map (·.output crew.world))
      let world ← get
      World.doing (c.report s (t.shared world.caches))
      let unstored ← World.doing
        (publish s c.metricsFile ((t.meter.bind (world.meters[·]?)).map world.families))
      Act.check (crew.error.or (undelivered.or unstored))) := by
  rw [wrapUp]
  refine bind_congr fun undelivered => bind_congr fun world => ?_
  rw [Task.shared]
  cases t.cache.bind (world.caches[·]?) <;> cases t.meter.bind (world.meters[·]?) <;>
    cases hstats : c.stats <;> simp only [report, publish, hstats] <;> rfl

/-- The rest of a run writes out what the workers have printed, and fails if one of them has failed
or the numbers cannot be written. -/
theorem outcome_wrapUp (hs : s.Favourable out) (t : Task) (crew : Crew)
    (hmetered : ∀ id, t.meter = some id → id < crew.world.meters.size) :
    ∃ result o offers,
      Act.outcome (c.wrapUp s t crew) crew.world =
        (result, ⟨o, crew.world.caches, crew.world.meters⟩) ∧
      o.devices.back? = some (.pipe ⟨out, .direct, offers⟩) ∧
      offers.reverse.flatten = (crew.workers.map (·.output crew.world)).flatten ∧
      (result = .ok () ↔
        crew.error = none ∧ (t.meter = none ∨ s.canWrite c.metricsFile = true)) := by
  obtain ⟨workers, ⟨o, caches, meters⟩, error⟩ := crew
  simp only at hmetered ⊢
  obtain ⟨o₂, offers, hdeliver, hwriter, hsize, hoffers⟩ := outcome_deliver
    (workers.map (·.output ⟨o, caches, meters⟩)) (Outside.hasWriter_push o out) hs.accepts
  have hdeliver' : Act.outcome
      (do deliver (← Output.straight s.output) (workers.map (·.output ⟨o, caches, meters⟩))) o =
        (.ok none, o₂) := by
    rw [hs.output]
    exact hdeliver
  obtain ⟨events, hreport⟩ := outcome_report (c := c) hs (t.shared caches) o₂
  obtain ⟨unstored, events', hpublish, hunstored⟩ := outcome_publish s c.metricsFile
    ((t.meter.bind (meters[·]?)).map (World.families ⟨o₂, caches, meters⟩))
    { o₂ with events := events }
  have hfound : (t.meter.bind (meters[·]?)).map (World.families ⟨o₂, caches, meters⟩) = none ↔
      t.meter = none := by
    cases hmeter : t.meter with
    | none => simp
    | some id => simp [hmetered id hmeter]
  rw [hfound] at hunstored
  refine ⟨(error.or unstored).elim (.ok ()) (.error <| .failed ·), { o₂ with events := events' },
    offers, ?_, ?_, by simpa using hoffers, ?_⟩
  · rw [wrapUp_eq, Act.outcome_bind, World.outcome_doing, hdeliver']
    simp only
    rw [Act.outcome_get_bind, Act.outcome_bind, World.outcome_doing, hreport]
    simp only
    rw [Act.outcome_bind, World.outcome_doing, hpublish]
    simp only [Option.none_or]
    rw [Act.outcome_check]
  · have hlast : o₂.devices[o.devices.size]? = some (.pipe ⟨out, .direct, offers⟩) := hwriter
    rw [Array.back?_eq_getElem?, hsize]
    simpa using hlast
  · rw [← hunstored]
    cases error <;> cases unstored <;> simp

/-! ## The beginning of a run -/

theorem waiting_of_readSources {fetch : Text → Except Error Text} {input : Content}
    {names : List Text} (h : readSources fetch input names = .ok workers) :
    ∀ w ∈ workers, w.phase = .waiting ∧ w.engine = .blank := by
  induction names generalizing input workers with
  | nil =>
    cases h
    exact fun w hw => absurd hw List.not_mem_nil
  | cons name names ih =>
    have hcons : ∀ {name' content : Text} {input' : Content},
        (do return .new name' content :: (← readSources fetch input' names)) = Except.ok workers →
        ∀ w ∈ workers, w.phase = .waiting ∧ w.engine = .blank := by
      intro name' content input' hrest
      cases hread : readSources fetch input' names with
      | error e =>
        rw [hread] at hrest
        cases hrest
      | ok rest =>
        rw [hread] at hrest
        cases hrest
        intro w hw
        rcases List.mem_cons.1 hw with rfl | hw
        · exact ⟨rfl, rfl⟩
        · exact ih hread w hw
    rw [readSources] at h
    split at h
    · cases hread : doing (Text.ofString "failed to read stdin")
        (input.readAll.mapError Error.reading) with
      | error e =>
        rw [hread] at h
        cases h
      | ok read =>
        rw [hread] at h
        exact hcons h
    · cases hread : doing (Text.ofString "failed to read " ++ name) (fetch name) with
      | error e =>
        rw [hread] at h
        cases h
      | ok content =>
        rw [hread] at h
        exact hcons h

theorem proper_task (hs : s.Favourable out) : (c.task s config).Proper := by
  refine ⟨?_, hs.canceled, hs.reply⟩
  show config.tiered = (if config.tiered then some 0 else none : Option Nat).isSome
  cases config.tiered <;> rfl

/-- Before their first turns, workers are in order. -/
theorem orderly_start (hworkers : ∀ w ∈ workers, w.phase = .waiting ∧ w.engine = .blank) :
    (Crew.mk workers (c.start config) none).Orderly (c.task s config) config.threshold.toNat
      (workers.map (·.source)) := by
  have hexecuted : (c.task s config).executed workers = [] := by
    refine List.flatMap_eq_nil_iff.2 fun w hw => ?_
    rw [Worker.executed, Worker.done, (hworkers w hw).1]
    cases w.source.program <;> rfl
  refine ⟨rfl, ?_, ?_, ?_, ?_, ?_, ?_⟩
  · exact fun w hw => .waiting (hworkers w hw).1 (hworkers w hw).2
  · refine List.pairwise_of_forall_mem_list fun w hw w' _ d hd => ?_
    rw [Worker.device?, (hworkers w hw).2] at hd
    cases hd
  · have hnone : ¬ ∃ w ∈ workers, w.error?.isSome := by
      rintro ⟨w, hw, herror⟩
      rw [Worker.error?, (hworkers w hw).1] at herror
      cases herror
    simpa using hnone
  · intro hcache
    obtain ⟨threshold, tiered, symbols⟩ := config
    cases tiered with
    | false => cases hcache
    | true => rfl
  · intro cache hcache
    obtain ⟨threshold, tiered, symbols⟩ := config
    cases tiered with
    | false => cases hcache
    | true =>
      cases hcache
      refine ⟨Cache.sound_new _ _, Cache.filed_new _ _, Cache.tallied_new _ _, ?_, ?_, ?_⟩
      · rw [hexecuted]
        exact fun p hp => absurd hp List.not_mem_nil
      · exact fun e he => absurd he List.not_mem_nil
      · exact fun e he => absurd he List.not_mem_nil
  · intro id hid
    rw [task] at hid
    rw [start]
    simp only at hid ⊢
    split at hid
    · cases hid
    · rename_i hmetrics
      cases hid
      simp [hmetrics]

/-! ## All of a run -/

/-- Runs do not depend on the order in which workers take turns.

The standard output gets what each source prints by itself, in the order of the sources; so a source
that fails changes nothing for the others.  The run succeeds if and only if no source fails by
itself and the file with the numbers on show, if one is asked for, can be written.  The statistics
of the cache follow from how often each program is executed. -/
theorem schedule_independent (hconfig : c.settle s.fetch = .ok config)
    (hsources : readSources s.fetch s.input c.sources = .ok workers) (hrounds : 1 ≤ c.rounds)
    (hs : s.Favourable out) :
    let n := c.rounds.toNat
    let sources := workers.map (·.source)
    let run := Act.outcome (c.run s) .empty
    (∃ offers, run.2.outside.devices.back? = some (.pipe ⟨out, .direct, offers⟩) ∧
      offers.reverse.flatten = sources.flatMap (Solo.output config n)) ∧
    (run.1 = .ok () ↔ (∀ source ∈ sources, ¬ Solo.Fails config n source) ∧
      (c.metricsFile = [] ∨ s.canWrite c.metricsFile = true)) ∧
    (config.tiered = true → ∃ cache, run.2.caches[0]? = some cache ∧
      cache.stats =
        .ofExecutions config.threshold.toNat (sources.flatMap (Solo.executed config n))) := by
  intro n sources run
  have ht : (c.task s config).Proper := proper_task hs
  have hn : 0 < (c.task s config).rounds := by
    show 0 < c.rounds.toNat
    omega
  obtain ⟨horderly, hended⟩ :=
    (orderly_start (c := c) (s := s) (waiting_of_readSources hsources)).run ht hn s.turns
  have hrun : run = _ := outcome_run hconfig hsources
  rw [hrun]
  revert horderly hended
  generalize Crew.run (c.task s config) s.turns ⟨workers, c.start config, none⟩ = crew
  intro horderly hended
  obtain ⟨result, o, offers, houtcome, hback, hoffers, hresult⟩ :=
    outcome_wrapUp (c := c) hs (c.task s config) crew horderly.metered
  rw [houtcome]
  refine ⟨⟨offers, hback, ?_⟩, ?_, ?_⟩
  · rw [hoffers, horderly.outputs_eq hended, List.flatMap_def]
    rfl
  · have hnone : crew.error = none ↔ ∀ source ∈ sources, ¬ Solo.Fails config n source := by
      rw [← Option.not_isSome_iff_eq_none, horderly.fails_iff hended]
      simp only [not_exists, not_and]
      rfl
    have hmeter : (c.task s config).meter = none ↔ c.metricsFile = [] := by
      simp [task]
    rw [hresult, hnone, hmeter]
  · intro htiered
    have hid : (c.task s config).cache = some 0 := if_pos htiered
    obtain ⟨cache, hcache, -⟩ := horderly.provided 0 hid
    exact ⟨cache, hcache, horderly.stats_eq hended (Task.shared_some hid hcache)⟩

/-- A program that fails after it has printed something, and two texts of one program, are executed
twice each, while their workers take turns.  The first execution of a program promotes it. -/
theorem schedule_independent_mixed :
    let fetch : Text → Except Error Text := fun name =>
      .ok (Text.ofString (if name = Text.ofString "p" then "c run f" else "a b"))
    let out : Writer := ⟨"out", .plain, none, Writer.limited none false⟩
    let c : Command :=
      { blank with
        threshold := 0
        thresholdGiven := true
        rounds := 2
        files := [Text.ofString "p", Text.ofString "q", inputArgument] }
    let s : Surroundings :=
      ⟨fetch, fun _ => true, .memory (Text.ofString "A B"), .writer out, false, fun _ => .done,
        [2, 0, 1, 1, 2, 0, 2, 0, 1]⟩
    let config : Config := ⟨0, true, .default⟩
    let workers : List Worker :=
      [.new (Text.ofString "p") (Text.ofString "c run f"),
        .new (Text.ofString "q") (Text.ofString "a b"), .new inputName (Text.ofString "A B")]
    (c.settle s.fetch = .ok config ∧ readSources s.fetch s.input c.sources = .ok workers ∧
      1 ≤ c.rounds ∧ s.Favourable out) ∧
    (∃ offers, (Act.outcome (c.run s) .empty).2.outside.devices.back? =
        some (.pipe ⟨out, .direct, offers⟩) ∧
      offers.reverse.flatten = Text.ofString
        "swan\nduck\ngoose\nduck\ngoose\nduck\ngoose\nduck\ngoose\n") ∧
    (Act.outcome (c.run s) .empty).1 ≠ .ok () ∧
    ∃ cache, (Act.outcome (c.run s) .empty).2.caches[0]? = some cache ∧
      cache.stats = ⟨0, 2, 2, 3, 2⟩ := by
  intro fetch out c s config workers
  have hconfig : c.settle s.fetch = .ok config := rfl
  have hsources : readSources s.fetch s.input c.sources = .ok workers := rfl
  have hrounds : 1 ≤ c.rounds := by decide
  have hs : s.Favourable out := ⟨rfl, fun _ => rfl, rfl, fun _ _ => ⟨Nat.le_refl _, rfl⟩⟩
  obtain ⟨⟨offers, hback, hoffers⟩, hresult, hstats⟩ :=
    schedule_independent hconfig hsources hrounds hs
  have houtput : (workers.map (·.source)).flatMap (Solo.output config c.rounds.toNat) =
      Text.ofString "swan\nduck\ngoose\nduck\ngoose\nduck\ngoose\nduck\ngoose\n" := by decide +kernel
  have hexecuted : Stats.ofExecutions config.threshold.toNat
      ((workers.map (·.source)).flatMap (Solo.executed config c.rounds.toNat)) =
      ⟨0, 2, 2, 3, 2⟩ := by decide +kernel
  have hfails : (Solo.runs config c.rounds.toNat
      (Worker.new (Text.ofString "p") (Text.ofString "c run f")).source).1 =
      [.error (.failed (.running (.undefinedFunction (Text.ofString "f") 1)))] := by decide +kernel
  refine ⟨⟨hconfig, hsources, hrounds, hs⟩, ⟨offers, hback, hoffers.trans houtput⟩, ?_, ?_⟩
  · rw [Ne, hresult]
    rintro ⟨hnone, -⟩
    exact hnone _ List.mem_cons_self ⟨_, hfails ▸ List.mem_singleton_self _⟩
  · obtain ⟨cache, hcache, hcounted⟩ := hstats rfl
    exact ⟨cache, hcache, hcounted.trans hexecuted⟩

/-- Without a failing source a run can still fail: the file with the numbers on show cannot be
written. -/
theorem fails_without_failing_source :
    let out : Writer := ⟨"out", .plain, none, Writer.limited none false⟩
    let c : Command :=
      { blank with metricsFile := Text.ofString "m", files := [Text.ofString "p"] }
    let s : Surroundings :=
      ⟨fun _ => .ok (Text.ofString "a"), fun _ => false, .memory [], .writer out, false,
        fun _ => .done, []⟩
    let workers : List Worker := [.new (Text.ofString "p") (Text.ofString "a")]
    (c.settle s.fetch = .ok .default ∧ readSources s.fetch s.input c.sources = .ok workers ∧
      1 ≤ c.rounds ∧ s.Favourable out) ∧
    ¬ ((Act.outcome (c.run s) .empty).1 = .ok () ↔
      ∀ source ∈ workers.map (·.source), ¬ Solo.Fails .default c.rounds.toNat source) := by
  intro out c s workers
  have hconfig : c.settle s.fetch = .ok .default := rfl
  have hsources : readSources s.fetch s.input c.sources = .ok workers := rfl
  have hs : s.Favourable out := ⟨rfl, fun _ => rfl, rfl, fun _ _ => ⟨Nat.le_refl _, rfl⟩⟩
  refine ⟨⟨hconfig, hsources, by decide, hs⟩, ?_⟩
  have hruns : (Solo.runs .default c.rounds.toNat
      (Worker.new (Text.ofString "p") (Text.ofString "a")).source).1 = [.ok ()] := by decide +kernel
  have hrun : (Act.outcome (c.run s) .empty).1 =
      .error (.failed (.during (Text.ofString "failed to write metrics to m")
        (.unwritable (Text.ofString "m")))) := by decide +kernel
  have hnone : ∀ source ∈ workers.map (·.source),
      ¬ Solo.Fails .default c.rounds.toNat source := by
    rintro source hsource ⟨stop, hstop⟩
    rw [List.mem_singleton.1 hsource, hruns] at hstop
    cases List.mem_singleton.1 hstop
  intro hiff
  have hok := hiff.2 hnone
  rw [hrun] at hok
  cases hok

end Command
end Birdcall
