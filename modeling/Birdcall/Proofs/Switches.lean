import Birdcall.Proofs.Overlay
import Birdcall.Proofs.Renaming
import Birdcall.Proofs.Schedule

/-!
# Switches that change no results

A command can be told to log what it does, to list programs, to log statistics, and whether and when
to promote programs.  None of this changes what it writes or whether it fails.

* Running alone.  A configuration matters to a program on its own only by its symbols
  (`Solo.output_eq`, `Solo.fails_iff`).
* Settling.  The switches leave the symbols of a configuration alone, and do not make a
  configuration bad (`Command.settle_of_natural`).
* Running.  What a run writes is told by the sources and the symbols (`Command.delivered_run`), so
  two runs that differ in switches write the same (`Command.Alike.agree`).
-/

namespace Birdcall

/-! ## Running alone -/

/-- Acts that match one by one match until they stop short. -/
theorem Act.Matches.upTo {σ τ : Type} {R : σ → τ → Prop} {a : Act σ Unit} {b : Act τ Unit}
    (h : Matches R a b) (n : Nat) {s : σ} {t : τ} (hst : R s t) :
    (upTo a n s).1 = (upTo b n t).1 ∧ R (upTo a n s).2 (upTo b n t).2 := by
  induction n generalizing s t with
  | zero => exact ⟨rfl, hst⟩
  | succ n ih =>
    obtain ⟨hend, hstate⟩ := h s t hst
    rw [Act.upTo, Act.upTo]
    rcases ha : outcome a s with ⟨stop | x, s'⟩ <;> rcases hb : outcome b t with ⟨stop' | y, t'⟩ <;>
      rw [ha, hb] at hend hstate
    · cases hend
      exact ⟨rfl, hstate⟩
    · cases hend
    · cases hend
    · obtain ⟨hends, hstates⟩ := ih hstate
      exact ⟨congrArg (Except.ok () :: ·) hends, hstates⟩

namespace Solo

variable {config config' : Config}

/-- Two machines that have run alone and have printed the same. -/
def Peers (config config' : Config) (m m' : Machine) : Prop :=
  ∃ values, Stage config values m ∧ Stage config' values m'

theorem Stage.set_log {values : List Text} {e : Engine} {o o' : Outside} {caches : Array Cache}
    {meters meters' : Array Meter} (h : Stage config values ⟨e, o, caches, meters⟩) {l : Log}
    (hl : l.Returns) (halike : o'.Alike o) :
    Stage config values ⟨{ e with log := l }, o', caches, meters'⟩ := by
  obtain ⟨⟨_, -, hengine⟩, hsink⟩ := h
  simp only at hengine
  exact ⟨⟨l, hl, by simp only [hengine]⟩, by rw [halike.sinks]; exact hsink⟩

theorem Stage.returns {values : List Text} {m : Machine} (h : Stage config values m) :
    m.engine.log.Returns := by
  obtain ⟨⟨l, hl, hengine⟩, -⟩ := h
  rw [hengine]
  exact hl

theorem tolerant_peers : Machine.Tolerant (Peers config config') where
  returns h := by
    obtain ⟨values, hstage, hstage'⟩ := h
    exact ⟨hstage.returns, hstage'.returns⟩
  left h hl halike _ := by
    obtain ⟨values, hstage, hstage'⟩ := h
    exact ⟨values, hstage.set_log hl halike, hstage'⟩
  right h hl halike _ := by
    obtain ⟨values, hstage, hstage'⟩ := h
    exact ⟨values, hstage, hstage'.set_log hl halike⟩

theorem matches_printValue (value : Text) :
    Act.Matches (Peers config config') (Machine.printValue value) (Machine.printValue value) := by
  rintro m m' ⟨values, hstage, hstage'⟩
  obtain ⟨_, hprint, hnext⟩ := hstage.outcome_printValue value
  obtain ⟨_, hprint', hnext'⟩ := hstage'.outcome_printValue value
  rw [hprint, hprint']
  exact ⟨rfl, _, hnext, hnext'⟩

theorem matches_emit (hsymbols : config.symbols = config'.symbols) (s : Symbol) :
    Act.Matches (Peers config config') (Machine.emit s) (Machine.emit s) := by
  refine Machine.matches_emit_of (fun h => ?_) matches_printValue s
  obtain ⟨values, hstage, hstage'⟩ := h
  rw [hstage.symbols_eq, hstage'.symbols_eq, hsymbols]

theorem matches_flush : Act.Matches (Peers config config') Machine.flush Machine.flush := by
  rintro m m' ⟨values, hstage, hstage'⟩
  obtain ⟨_, hflush, hnext⟩ := hstage.outcome_flush
  obtain ⟨_, hflush', hnext'⟩ := hstage'.outcome_flush
  rw [hflush, hflush']
  exact ⟨rfl, _, hnext, hnext'⟩

theorem matches_execSource (hsymbols : config.symbols = config'.symbols) (s : Source) :
    Act.Matches (Peers config config') (Machine.execSource s) (Machine.execSource s) := by
  rintro m m' ⟨values, hstage, hstage'⟩
  cases hs : s.program with
  | error stop =>
    obtain ⟨events, hexec⟩ := Machine.outcome_execSource_error hs m
    obtain ⟨events', hexec'⟩ := Machine.outcome_execSource_error hs m'
    rw [hexec, hexec']
    exact ⟨rfl, values, hstage.set_events _, hstage'.set_events _⟩
  | ok p =>
    obtain ⟨events, hexec⟩ := Machine.outcome_execSource_ok hs hstage.untiered
    obtain ⟨events', hexec'⟩ := Machine.outcome_execSource_ok hs hstage'.untiered
    rw [hexec, hexec']
    have hproceed := Machine.matches_proceed tolerant_peers (matches_emit hsymbols) p
    exact hproceed.lastly matches_flush _ _ ⟨values, hstage.set_events _, hstage'.set_events _⟩

/-- Programs on their own end in the same way and print the same under the same symbols. -/
theorem runs_eq (hsymbols : config.symbols = config'.symbols) (n : Nat) (s : Source) :
    (runs config n s).1 = (runs config' n s).1 ∧
      Peers config config' (runs config n s).2 (runs config' n s).2 :=
  (matches_execSource hsymbols s).upTo n ⟨[], stage_start config, stage_start config'⟩

theorem output_eq (hsymbols : config.symbols = config'.symbols) (n : Nat) (s : Source) :
    output config n s = output config' n s := by
  obtain ⟨-, values, hstage, hstage'⟩ := runs_eq hsymbols n s
  rw [← hstage.output_eq, hstage'.output_eq]

theorem fails_iff (hsymbols : config.symbols = config'.symbols) (n : Nat) (s : Source) :
    Fails config n s ↔ Fails config' n s := by
  rw [Fails, Fails, (runs_eq hsymbols n s).1]

end Solo

/-! ## Settling -/

/-- A configuration that was loaded has passed the check. -/
theorem Config.threshold_of_load {fetch : Text → Except Error Text} {name : Text} {config : Config}
    (h : load fetch name = .ok config) : 0 ≤ config.threshold := by
  rw [load] at h
  cases hfetch : fetch name with
  | error e =>
    rw [hfetch] at h
    cases h
  | ok t =>
    rw [hfetch] at h
    dsimp only at h
    cases hparse : parse t with
    | error stop =>
      rw [hparse] at h
      cases h
    | ok config' =>
      rw [hparse] at h
      cases h
      exact (threshold_of_parse hparse).1

namespace Command

/-- The configuration of the file alone. -/
def fileConfig (c : Command) (fetch : Text → Except Error Text) : Except Stop Config :=
  if c.configFile.isEmpty then .ok .default else Config.load fetch c.configFile

/-- A configuration with what the command line says above it. -/
def overlay (c : Command) (config : Config) : Config where
  threshold := if c.thresholdGiven then c.threshold else config.threshold
  tiered := !c.noTier && config.tiered
  symbols := config.symbols

/-- A threshold that is given is not negative. -/
def Natural (c : Command) : Prop := c.thresholdGiven = true → 0 ≤ c.threshold

variable {c : Command} {s : Surroundings} {out : Writer}

theorem settle_eq (c : Command) (fetch : Text → Except Error Text) :
    c.settle fetch =
      match c.fileConfig fetch with
      | .error stop => .error stop
      | .ok config =>
        match (c.overlay config).validate with
        | .ok _ => .ok (c.overlay config)
        | .error e => .error (.failed (.config e)) := by
  have hoverlay : ∀ config : Config,
      (let config := if c.thresholdGiven then { config with threshold := c.threshold } else config
        if c.noTier then { config with tiered := false } else config) = c.overlay config := by
    intro config
    rw [overlay]
    cases c.thresholdGiven <;> cases c.noTier <;> rfl
  rw [settle, fileConfig]
  simp only [← hoverlay]
  cases c.configFile.isEmpty with
  | true => rfl
  | false =>
    cases Config.load fetch c.configFile with
    | error stop => rfl
    | ok config => rfl

/-- A good configuration stays good, with the same symbols. -/
theorem settle_of_natural {fetch : Text → Except Error Text} {base : Config} (hc : c.Natural)
    (h : c.fileConfig fetch = .ok base) : c.settle fetch = .ok (c.overlay base) := by
  have hbase : 0 ≤ base.threshold := by
    rw [fileConfig] at h
    split at h
    · cases h
      decide
    · exact Config.threshold_of_load h
  have hthreshold : ¬ (c.overlay base).threshold < 0 := by
    simp only [overlay]
    split
    · next hgiven =>
      have := hc hgiven
      omega
    · omega
  rw [settle_eq, h]
  simp only [Config.validate, hthreshold, if_false]

/-! ## Running -/

/-- A run has written a text to the standard output, which is the last device that it makes.  A run
that stops before makes no device and has written nothing. -/
def Delivered (out : Writer) (w : World) (t : Text) : Prop :=
  (w.outside.devices = #[] ∧ t = []) ∨
    ∃ offers, w.outside.devices.back? = some (.pipe ⟨out, .direct, offers⟩) ∧
      offers.reverse.flatten = t

/-- A run that finds its configuration and its sources writes what each source prints by itself, and
fails if one of them does or if the numbers on show cannot be written. -/
theorem delivered_run {config : Config} {workers : List Worker}
    (hconfig : c.settle s.fetch = .ok config)
    (hsources : readSources s.fetch s.input c.sources = .ok workers) (hrounds : 1 ≤ c.rounds)
    (hs : s.Favourable out) :
    Delivered out (Act.outcome (c.run s) .empty).2
        (workers.flatMap fun w => Solo.output config c.rounds.toNat w.source) ∧
      ((Act.outcome (c.run s) .empty).1 = .ok () ↔
        (∀ w ∈ workers, ¬ Solo.Fails config c.rounds.toNat w.source) ∧
          (c.metricsFile = [] ∨ s.canWrite c.metricsFile = true)) := by
  have hn : 0 < (c.task s config).rounds := by
    show 0 < c.rounds.toNat
    omega
  obtain ⟨horderly, hended⟩ := (orderly_start (c := c) (s := s)
    (waiting_of_readSources hsources)).run (proper_task hs) hn s.turns
  rw [outcome_run hconfig hsources]
  revert horderly hended
  generalize Crew.run (c.task s config) s.turns ⟨workers, c.start config, none⟩ = crew
  intro horderly hended
  obtain ⟨result, o, offers, houtcome, hback, hoffers, hresult⟩ :=
    outcome_wrapUp (c := c) hs (c.task s config) crew horderly.metered
  rw [houtcome]
  constructor
  · refine .inr ⟨offers, hback, ?_⟩
    rw [hoffers, horderly.outputs_eq hended, List.map_map, List.flatMap_def]
    rfl
  · have hnone : crew.error = none ↔
        ∀ w ∈ workers, ¬ Solo.Fails config c.rounds.toNat w.source := by
      rw [← Option.not_isSome_iff_eq_none, horderly.fails_iff hended]
      simp only [not_exists, not_and, List.forall_mem_map]
      rfl
    have hmeter : (c.task s config).meter = none ↔ c.metricsFile = [] := by
      simp [task]
    rw [hresult, hnone, hmeter]

theorem outcome_run_unsettled {stop : Stop} (h : c.settle s.fetch = .error stop) :
    Act.outcome (c.run s) .empty = (.error stop, .empty) := by
  rw [run, h]
  rfl

theorem outcome_run_unread {config : Config} {e : Error} (hconfig : c.settle s.fetch = .ok config)
    (h : readSources s.fetch s.input c.sources = .error e) :
    Act.outcome (c.run s) .empty = (.error (.failed e), .empty) := by
  rw [run, hconfig, h]
  rfl

/-- Two runs that write the same, and of which both fail or none does. -/
def Agree (out : Writer) (r r' : Except Stop Unit × World) : Prop :=
  (∃ t, Delivered out r.2 t ∧ Delivered out r'.2 t) ∧ (r.1 = .ok () ↔ r'.1 = .ok ())

/-- Runs that do not come to their sources agree. -/
theorem agree_stopped (stop stop' : Stop) :
    Agree out (.error stop, .empty) (.error stop', .empty) :=
  ⟨⟨[], .inl ⟨rfl, rfl⟩, .inl ⟨rfl, rfl⟩⟩, by simp⟩

/-- Two commands that differ in switches only. -/
structure Alike (c c' : Command) : Prop where
  configFile : c.configFile = c'.configFile
  rounds : c.rounds = c'.rounds
  metricsFile : c.metricsFile = c'.metricsFile
  files : c.files = c'.files

/-- Runs of commands that differ in switches agree, whoever takes which turn. -/
theorem Alike.agree {c' : Command} (h : c.Alike c') (hc : c.Natural) (hc' : c'.Natural)
    (hrounds : 1 ≤ c.rounds) (hs : s.Favourable out) (turns : List Nat) :
    Agree out (Act.outcome (c.run s) .empty)
      (Act.outcome (c'.run { s with turns := turns }) .empty) := by
  have hs' : Surroundings.Favourable { s with turns := turns } out :=
    ⟨hs.canceled, hs.reply, hs.output, hs.accepts⟩
  have hfile : c'.fileConfig s.fetch = c.fileConfig s.fetch := by
    rw [fileConfig, fileConfig, h.configFile]
  have hsame : c'.sources = c.sources := by
    rw [sources, sources, h.files]
  cases hbase : c.fileConfig s.fetch with
  | error stop =>
    have hsettle : ∀ {d : Command}, d.fileConfig s.fetch = .error stop →
        d.settle s.fetch = .error stop := by
      intro d hd
      rw [settle_eq, hd]
    rw [outcome_run_unsettled (hsettle hbase),
      outcome_run_unsettled (s := { s with turns := turns }) (hsettle (hfile.trans hbase))]
    exact agree_stopped stop stop
  | ok base =>
    have hconfig := settle_of_natural hc hbase
    have hconfig' := settle_of_natural hc' (hfile.trans hbase)
    cases hread : readSources s.fetch s.input c.sources with
    | error e =>
      rw [outcome_run_unread hconfig hread,
        outcome_run_unread (s := { s with turns := turns }) hconfig' (hsame ▸ hread)]
      exact agree_stopped _ _
    | ok workers =>
      obtain ⟨hwritten, hok⟩ := delivered_run hconfig hread hrounds hs
      obtain ⟨hwritten', hok'⟩ := delivered_run (s := { s with turns := turns }) hconfig'
        (hsame ▸ hread) (h.rounds ▸ hrounds) hs'
      -- The two configurations differ in the threshold and the tiering, but not in the symbols.
      have hsymbols : (c.overlay base).symbols = (c'.overlay base).symbols := rfl
      refine ⟨⟨_, hwritten, ?_⟩, ?_⟩
      · simp only [Solo.output_eq hsymbols, h.rounds]
        exact hwritten'
      · rw [hok, hok', ← h.rounds, ← h.metricsFile]
        simp only [Solo.fails_iff hsymbols]

/-- What a command writes, and whether it fails, is the same for every setting of its switches and
for every threshold.  A text that cannot be listed cannot be loaded either, under any name, and it
is the same error, in the same line and column; a text that can be listed is loaded as the program
that is listed. -/
theorem switches_unseen (hc : c.Natural) (hrounds : 1 ≤ c.rounds) (hs : s.Favourable out)
    (trace dump stats noTier given : Bool) (threshold : Int)
    (hgiven : given = true → 0 ≤ threshold) (turns : List Nat) :
    let c' : Command :=
      { c with
        trace := trace, dump := dump, stats := stats, noTier := noTier, threshold := threshold,
        thresholdGiven := given }
    Agree out (Act.outcome (c.run s) .empty)
        (Act.outcome (c'.run { s with turns := turns }) .empty) ∧
      ∀ content name : Text,
        let source := (Source.ofText content).named name
        (∀ e, Program.ofTokens (Token.lex content) = .error e → ∀ m,
          (Act.outcome (Machine.execSource source) m).1 =
            .error (.failed (.spelling (e.under name)))) ∧
        ∀ p, Program.ofTokens (Token.lex content) = .ok p → source.program = .ok p := by
  intro c'
  have halike : c.Alike c' := ⟨rfl, rfl, rfl, rfl⟩
  refine ⟨halike.agree hc hgiven hrounds hs turns, fun content name => ?_⟩
  intro source
  have hprogram := Source.program_named content name
  constructor
  · intro e he m
    rw [he] at hprogram
    obtain ⟨events, hexec⟩ := Machine.outcome_execSource_error hprogram m
    rw [hexec]
  · intro p hp
    rw [hp] at hprogram
    exact hprogram

/-- Of three sources, one fails after it has printed something and one has no program.  Logging
everything, listing every program and interpreting all of them neither hides the failures nor
changes the output. -/
theorem switches_unseen_failing :
    let fetch : Text → Except Error Text := fun name =>
      .ok (Text.ofString (if name = Text.ofString "p" then "c run f" else "a b"))
    let out : Writer := ⟨"out", .plain, none, Writer.limited none false⟩
    let c : Command :=
      { blank with
        rounds := 2
        files := [Text.ofString "p", Text.ofString "q", inputArgument] }
    let s : Surroundings :=
      ⟨fetch, fun _ => true, .memory (Text.ofString "a\nend"), .writer out, false, fun _ => .done,
        []⟩
    let c' : Command :=
      { c with
        trace := true, dump := true, stats := true, noTier := true, threshold := 0,
        thresholdGiven := true }
    let turns := [2, 0, 1, 1, 2, 0]
    let stray : Token := ⟨.closer, Text.ofString "END", ⟨Text.ofString "input", 2, 1⟩⟩
    (c.Natural ∧ 1 ≤ c.rounds ∧ s.Favourable out) ∧
    Agree out (Act.outcome (c.run s) .empty)
      (Act.outcome (c'.run { s with turns := turns }) .empty) ∧
    (Act.outcome (c'.run { s with turns := turns }) .empty).1 ≠ .ok () ∧
    Program.ofTokens (Token.lex (Text.ofString "a\nend")) = .error (.strayEnd stray) ∧
    (Act.outcome (Machine.execSource ((Source.ofText (Text.ofString "a\nend")).named inputName))
      ⟨.blank, .empty⟩).1 = .error (.failed (.spelling (.strayEnd (stray.under inputName)))) := by
  intro fetch out c s c' turns stray
  have hc : c.Natural := fun hgiven => absurd hgiven Bool.false_ne_true
  have hrounds : 1 ≤ c.rounds := by decide
  have hs : s.Favourable out := ⟨rfl, fun _ => rfl, rfl, fun _ _ => ⟨Nat.le_refl _, rfl⟩⟩
  have hlisted : Program.ofTokens (Token.lex (Text.ofString "a\nend")) =
      .error (.strayEnd stray) := by decide +kernel
  obtain ⟨hagree, hsame⟩ :=
    switches_unseen hc hrounds hs true true true true true 0 (fun _ => by decide) turns
  have hfails : (Act.outcome (c.run s) .empty).1 ≠ .ok () := by
    have hrun : (Act.outcome (c.run s) .empty).1 =
        .error (.failed (.during (Text.ofString "p execution #1")
          (.running (.undefinedFunction (Text.ofString "f") 1)))) := by decide +kernel
    simp [hrun]
  exact ⟨⟨hc, hrounds, hs⟩, hagree, fun hok => hfails (hagree.2.2 hok), hlisted,
    (hsame _ inputName).1 _ hlisted _⟩

end Command
end Birdcall
