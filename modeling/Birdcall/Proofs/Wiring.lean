import Birdcall.Proofs.Cache
import Birdcall.Proofs.Printing

/-!
# Engines and their writers

A `Wiring` says which writers an engine prints to, each through a pipe of its own, and by which
table of symbols.  All that the engine does keeps to it (`Wiring.Feeds`).

* Printing.  While a program runs, every pipe is up to what was printed (`Wiring.Printed`).  Once
  printing has stopped, every pipe is within what was tried (`Wiring.Stopped`).  Each way to run a
  program follows the run that notes its symbols from the first to the second.
* Executing.  The flush at the end makes the writers level (`Wiring.Level`): they have accepted the
  same text.  `Wiring.Level.ensures_exec` is about one execution, and `Wiring.Level.series` about
  any number of them.
-/

namespace Birdcall

/-- The values of symbols. -/
def SymbolTable.values (t : SymbolTable) (l : List Symbol) : List Text := l.filterMap t.get?

theorem SymbolTable.values_append_singleton {t : SymbolTable} {s : Symbol} {value : Text}
    (hs : t.get? s = some value) (l : List Symbol) :
    t.values (l ++ [s]) = t.values l ++ [value] := by
  simp [values, hs]

/-- Where an engine prints to and by which table, in an outside that it otherwise leaves alone. -/
structure Wiring where
  lanes : List Lane
  table : SymbolTable
  base : Outside
  distinct : (lanes.map (·.device)).Nodup
  reports : ∀ l ∈ lanes, l.writer.Reports

namespace Wiring

/-- The engine prints to the lanes by the table, and all other pipes are as they were. -/
structure Feeds (w : Wiring) (m : Machine) : Prop where
  out : m.engine.out = .ofDevices (w.lanes.map (·.device))
  outlet : m.engine.outlet = .lines (.ofDevices (w.lanes.map (·.device)))
  symbols : m.engine.symbols = w.table
  sound : ∀ c ∈ m.world.caches, c.Sound
  keeps : Outside.Keeps (w.lanes.map (·.device)) w.base m.world.outside

/-- From `start` on, the symbols `l` have been printed, after everything up to `total`. -/
structure Printed (w : Wiring) (start : Machine) (total : Text) (m : Machine) (l : List Symbol) :
    Prop where
  feeds : w.Feeds m
  upTo : m.world.outside.Carries
    (Pipe.UpTo (total ++ (w.table.values l).flatMap Text.line)) w.lanes
  tries : ∀ more, start.tries (l ++ more) = w.table.values l ++ m.tries more

/-- From `start` on, printing has stopped somewhere on the way through the symbols `l`. -/
structure Stopped (w : Wiring) (start : Machine) (total : Text) (m : Machine) (l : List Symbol) :
    Prop where
  feeds : w.Feeds m
  within : m.world.outside.Carries
    (Pipe.Within (total ++ (start.tries l).flatMap Text.line)) w.lanes

variable {w : Wiring} {start m : Machine} {total : Text} {l : List Symbol}

theorem Printed.tries_eq (h : w.Printed start total m l) : start.tries l = w.table.values l := by
  have htries := h.tries []
  rwa [List.append_nil, Machine.tries, List.append_nil] at htries

theorem Printed.stopped (h : w.Printed start total m l) : w.Stopped start total m l := by
  refine ⟨h.feeds, ?_⟩
  rw [h.tries_eq]
  exact h.upTo.imp fun hp => hp.within

theorem Stopped.mono {l' : List Symbol} (hle : l <+: l') (h : w.Stopped start total m l) :
    w.Stopped start total m l' := by
  refine ⟨h.feeds, h.within.imp fun hp => hp.weaken ?_⟩
  obtain ⟨more, rfl⟩ := hle
  obtain ⟨later, hlater⟩ := start.tries_append_isPrefix l more
  rw [← hlater, List.flatMap_append, List.prefix_append_right_inj]
  exact List.prefix_append _ _

/-! ## Acts that only log and count -/

section Aside

variable {e : Engine} {o o' : Outside} {caches : Array Cache} {meters meters' : Array Meter}
  {log : Log}

theorem Feeds.aside (h : w.Feeds ⟨e, o, caches, meters⟩) (halike : o'.Alike o) :
    w.Feeds ⟨{ e with log := log }, o', caches, meters'⟩ :=
  ⟨h.out, h.outlet, h.symbols, h.sound, h.keeps.trans (.of_devices halike.devices)⟩

theorem Printed.aside (h : w.Printed start total ⟨e, o, caches, meters⟩ l)
    (halike : o'.Alike o) :
    w.Printed start total ⟨{ e with log := log }, o', caches, meters'⟩ l := by
  have hsame : Machine.Alike ⟨e, o, caches, meters⟩ ⟨{ e with log := log }, o', caches, meters'⟩ :=
    ⟨rfl, rfl, halike.symm⟩
  refine ⟨h.feeds.aside halike, ?_, fun more => ?_⟩
  · rw [Outside.Carries, halike.devices]
    exact h.upTo
  · rw [h.tries more, hsame.tries_eq]

theorem Stopped.aside (h : w.Stopped start total ⟨e, o, caches, meters⟩ l)
    (halike : o'.Alike o) :
    w.Stopped start total ⟨{ e with log := log }, o', caches, meters'⟩ l := by
  refine ⟨h.feeds.aside halike, ?_⟩
  rw [Outside.Carries, halike.devices]
  exact h.within

end Aside

open Machine (Aside)

/-- An act prints as another one notes symbols. -/
abbrev Follows (w : Wiring) (start : Machine) (total : Text) :
    Act Machine Unit → Act (List Symbol) Unit → Prop :=
  Act.Follows (w.Printed start total) (w.Stopped start total)

/-- What logs and counts keeps what `Printed` and `Stopped` say. -/
theorem follows_aside {a : Act Machine Unit} (ha : Aside a) :
    w.Follows start total a (pure ()) := by
  rintro l ⟨e, o, caches, meters⟩ h
  obtain ⟨log, o', meters', halike, hstate⟩ := ha e o caches meters
  rcases hend : Act.outcome a ⟨e, o, caches, meters⟩ with ⟨stop | ⟨⟩, m⟩
  · rw [hend] at hstate
    cases hstate
    exact h.stopped.aside halike
  · rw [hend] at hstate
    cases hstate
    exact ⟨rfl, h.aside halike⟩

/-- Moving log lines to the right and back goes unnoticed. -/
theorem follows_within {a : Act Machine Unit} {b : Act (List Symbol) Unit}
    (h : w.Follows start total a b) : w.Follows start total (Machine.within a) b := by
  intro l
  refine .bind (.modify fun m hprinted => hprinted.aside (.refl m.world.outside)) fun _ =>
    .lastly (h l) ?_ ?_
  · rintro m ⟨hend, hprinted⟩
    exact ⟨fun _ => ⟨hend, hprinted.aside (.refl m.world.outside)⟩, fun hne => absurd rfl hne⟩
  · intro m hstopped
    exact hstopped.aside (.refl m.world.outside)

/-! ## Printing a symbol -/

/-- A value that is printed goes to all lanes. -/
theorem outcome_printValue (hfeeds : w.Feeds m)
    (h : m.world.outside.Carries (Pipe.UpTo total) w.lanes) (value : Text) :
    ∃ result m', Act.outcome (Machine.printValue value) m = (result, m') ∧ w.Feeds m' ∧
      (result = .ok () → m'.world.outside.Carries (Pipe.UpTo (total ++ value.line)) w.lanes) ∧
      m'.world.outside.Carries (Pipe.Within (total ++ value.line)) w.lanes := by
  obtain ⟨e, o, caches, meters⟩ := m
  obtain ⟨⟨n, error⟩, o', hwrite, hkeeps, hupTo, hwithin⟩ :=
    Outside.outcome_write_lanes w.distinct w.reports h value.line
  have hfeeds' : w.Feeds ⟨e, o', caches, meters⟩ :=
    ⟨hfeeds.out, hfeeds.outlet, hfeeds.symbols, hfeeds.sound, hfeeds.keeps.trans hkeeps⟩
  have houtlet : e.outlet = _ := hfeeds.outlet
  have hprint : Act.outcome (Machine.printValue value) ⟨e, o, caches, meters⟩ =
      Act.outcome (Act.check error) ⟨e, o', caches, meters⟩ := by
    rw [Machine.printValue, Act.outcome_get_bind]
    simp only [houtlet]
    rw [Act.outcome_bind, Machine.outcome_outside, Output.writeLine, hwrite]
  cases error with
  | none => exact ⟨_, _, hprint, hfeeds', fun _ => hupTo rfl, hwithin⟩
  | some err =>
    refine ⟨_, _, hprint, hfeeds', fun hok => ?_, hwithin⟩
    cases hok

theorem follows_emit (s : Symbol) :
    w.Follows start total (Machine.emit s) (Program.note s) := by
  intro l
  refine .get_bind fun m h => ?_
  rw [h.feeds.symbols]
  cases hs : w.table.get? s with
  | none => exact .throw fun m h => h.stopped.mono (List.prefix_append _ _)
  | some value =>
    intro m h
    have hs' : m.engine.symbols.get? s = some value := h.feeds.symbols ▸ hs
    have hvalues := SymbolTable.values_append_singleton hs l
    obtain ⟨result, m', hprint, hfeeds, hupTo, hwithin⟩ := outcome_printValue h.feeds h.upTo value
    rw [hprint]
    rcases result with stop | ⟨⟩
    · refine ⟨hfeeds, ?_⟩
      show Outside.Carries (Pipe.Within (total ++ (start.tries (l ++ [s])).flatMap Text.line)) _ _
      rw [h.tries [s], Machine.tries_error hs' hprint, List.flatMap_append, ← List.append_assoc]
      simpa using hwithin
    · refine ⟨rfl, hfeeds, ?_, fun more => ?_⟩
      · show Outside.Carries
          (Pipe.UpTo (total ++ (w.table.values (l ++ [s])).flatMap Text.line)) _ _
        rw [hvalues, List.flatMap_append, ← List.append_assoc]
        simpa using hupTo rfl
      · show start.tries (l ++ [s] ++ more) = w.table.values (l ++ [s]) ++ m'.tries more
        rw [List.append_assoc, List.singleton_append, h.tries (s :: more),
          Machine.tries_ok hs' hprint, hvalues, List.append_assoc, List.singleton_append]

/-! ## Executing a program -/

/-- The run that notes what a program prints. -/
abbrev noted (p : Program) : Act (List Symbol) Unit := p.interpret (.printing Program.note)

theorem follows_interpret (p : Program) :
    w.Follows start total (Machine.interpret p) (noted p) :=
  Program.follows_walk (R := w.Printed start total) (fun _ _ h => h.stopped)
    (fun hle h => h.mono hle) follows_emit (fun _ _ => follows_aside (Machine.aside_log _ _ _))
    follows_within _ _ _ _ _

theorem follows_invoke (p : Program) :
    w.Follows start total (p.compile.invoke Machine.emit) (noted p) := by
  rw [Program.invoke_compile]
  exact Program.follows_walk (R := w.Printed start total) (E := w.Stopped start total)
    (fun _ _ h => h.stopped) (fun hle h => h.mono hle) follows_emit (fun _ _ => .pure)
    (fun h => h) _ _ _ _ _

theorem follows_aside_bind {a c : Act Machine Unit} {p : Program} (ha : Aside a)
    (h : w.Follows start total c (noted p)) : w.Follows start total (do a; c) (noted p) :=
  (follows_aside ha).bind h fun hstopped => hstopped.mono (Program.isPrefix_walk_note ..)

theorem follows_proceed (p : Program) :
    w.Follows start total (Machine.proceed p none) (noted p) :=
  .get_bind fun _ => follows_aside_bind (Machine.aside_count _ _) (follows_interpret p)

theorem follows_perform {p : Program} {a : Admission}
    (ha : a.tier = .compiled → a.artifact = some p.compile) :
    w.Follows start total (Machine.perform p a) (noted p) := by
  refine .get_bind fun _ => follows_aside_bind (Machine.aside_count _ _) ?_
  cases htier : a.tier with
  | cold => exact follows_aside_bind (Machine.aside_log _ _ _) (follows_interpret p)
  | warm =>
    exact follows_aside_bind (Machine.aside_count _ _)
      (follows_aside_bind (Machine.aside_log _ _ _) (follows_interpret p))
  | compiled =>
    rw [ha htier]
    exact follows_aside_bind (Machine.aside_log _ _ _) (follows_invoke p)

end Wiring

/-- Replacing a cache by a sound one leaves sound caches. -/
theorem Cache.sound_setIfInBounds {caches : Array Cache} (h : ∀ c ∈ caches, c.Sound) (id : Nat)
    {c : Cache} (hc : c.Sound) : ∀ d ∈ caches.setIfInBounds id c, d.Sound := by
  intro d hd
  rcases Array.mem_or_eq_of_mem_setIfInBounds hd with hd | rfl
  · exact h d hd
  · exact hc

/-- What the run of a program comes to: it is interpreted, or a cache decides how it is done, or
there is no cache to ask. -/
theorem Machine.outcome_run_cases {m : Machine} (hsound : ∀ c ∈ m.world.caches, c.Sound)
    (p : Program) :
    (Act.outcome (do proceed p (← find p)) m = Act.outcome (proceed p none) m) ∨
    (∃ a caches, (∀ c ∈ caches, c.Sound) ∧
      (a.tier = .compiled → a.artifact = some p.compile) ∧
      Act.outcome (do proceed p (← find p)) m =
        Act.outcome (perform p a) ⟨m.engine, { m.world with caches := caches }⟩) ∨
    ∃ stop, Act.outcome (do proceed p (← find p)) m = (.error stop, m) := by
  rw [Act.outcome_bind]
  cases htiered : m.engine.tiered with
  | false =>
    left
    rw [outcome_find_untiered htiered]
  | true =>
    cases hid : m.engine.cache with
    | none =>
      refine .inr (.inr ⟨.crashed .nothing, ?_⟩)
      rw [find, Act.outcome_get_bind]
      simp only [htiered, hid, if_true]
      rfl
    | some id =>
      cases hc : m.world.caches[id]? with
      | none =>
        refine .inr (.inr ⟨.crashed .nothing, ?_⟩)
        rw [find, Act.outcome_get_bind]
        simp only [htiered, hid, if_true]
        rw [Act.outcome_bind, inWorld, Act.outcome_on, World.find, World.withCache,
          Act.outcome_get_bind]
        simp only [hc]
        rfl
      | some c =>
        have hlookup := (hsound c (Array.mem_of_getElem? hc)).lookup p
        obtain ⟨e, he, hprogram⟩ := c.lookup_spec p
        obtain ⟨a, c', henter, hsound', hartifact⟩ := hlookup.enter he
        rw [hprogram] at hartifact
        refine .inr (.inl ⟨a, _, Cache.sound_setIfInBounds
          (Cache.sound_setIfInBounds hsound id hlookup) id hsound', hartifact, ?_⟩)
        rw [outcome_find htiered hid hc]
        simp only
        rw [outcome_proceed (m := m.setCache id _) hid (setCache_getElem? hc _) henter]
        rfl

namespace Wiring

variable {w : Wiring} {start m : Machine} {total : Text} {l : List Symbol}

theorem outcome_flush (hfeeds : w.Feeds m)
    (h : m.world.outside.Carries (Pipe.Within total) w.lanes) :
    ∃ error m', Act.outcome Machine.flush m = (.ok error, m') ∧ w.Feeds m' ∧
      m'.world.outside.Carries (Pipe.Within total) w.lanes ∧
      (error = none → m.world.outside.Carries (Pipe.UpTo total) w.lanes →
        m'.world.outside.Carries (Pipe.Flushed total) w.lanes) := by
  obtain ⟨e, o, caches, meters⟩ := m
  obtain ⟨error, o', hflush, hkeeps, hwithin, hflushed⟩ := Outside.outcome_flush_lanes w.distinct h
  have hout : e.out = _ := hfeeds.out
  refine ⟨e.pending.or error, ⟨{ e with pending := none }, o', caches, meters⟩, ?_,
    ⟨hfeeds.out, hfeeds.outlet, hfeeds.symbols, hfeeds.sound, hfeeds.keeps.trans hkeeps⟩, hwithin,
    fun hnone => hflushed (Option.or_eq_none_iff.1 hnone).2⟩
  rw [Machine.flush, Act.outcome_get_bind, Act.outcome_bind, Machine.outcome_change]
  simp only
  rw [Act.outcome_bind, Machine.outcome_outside, hout, hflush]
  rfl

/-- All lanes have accepted the same total. -/
structure Level (w : Wiring) (total : Text) (m : Machine) : Prop where
  feeds : w.Feeds m
  flushed : m.world.outside.Carries (Pipe.Flushed total) w.lanes

/-- Before a program is run, none of its symbols is printed. -/
theorem Level.printed (h : w.Level total start) {caches : Array Cache}
    (hsound : ∀ c ∈ caches, c.Sound) :
    w.Printed start total ⟨start.engine, { start.world with caches := caches }⟩ [] := by
  have hsame : start.Alike ⟨start.engine, { start.world with caches := caches }⟩ :=
    ⟨rfl, rfl, .refl _⟩
  refine ⟨⟨h.feeds.out, h.feeds.outlet, h.feeds.symbols, hsound, h.feeds.keeps⟩, ?_, fun more => ?_⟩
  · show Outside.Carries (Pipe.UpTo (total ++ [])) w.lanes start.world.outside
    rw [List.append_nil]
    exact h.flushed.imp fun hp => hp.upTo
  · exact hsame.tries_eq more

theorem Level.ensures_run (h : w.Level total start) (p : Program) :
    Act.Ensures (· = start) (do Machine.proceed p (← Machine.find p))
      (fun _ m => w.Printed start total m p.prints)
      (fun m => w.Stopped start total m p.prints) := by
  rintro m rfl
  have hprinted := h.printed h.feeds.sound
  rcases Machine.outcome_run_cases h.feeds.sound p with
    hrun | ⟨a, caches, hsound, ha, hrun⟩ | ⟨stop, hrun⟩
  · rw [hrun]
    exact (follows_proceed p).ensures [] m hprinted
  · rw [hrun]
    exact (follows_perform ha).ensures [] _ (h.printed hsound)
  · rw [hrun]
    exact hprinted.stopped.mono List.nil_prefix

/-- An execution that finishes has delivered all that its program prints, and one that stops short
has delivered a part of what was tried. -/
theorem Level.ensures_exec (h : w.Level total start) (p : Program) :
    Act.Ensures (· = start) (Machine.exec p)
      (fun _ m => w.Level (total ++ (w.table.values p.prints).flatMap Text.line) m ∧
        start.tries p.prints = w.table.values p.prints)
      (fun m => w.Feeds m ∧ m.world.outside.Carries
        (Pipe.Within (total ++ (start.tries p.prints).flatMap Text.line)) w.lanes) := by
  refine .lastly (h.ensures_run p) ?_ ?_
  · intro m hprinted
    obtain ⟨error, m', hflush, hfeeds, hwithin, hflushed⟩ :=
      outcome_flush hprinted.feeds hprinted.stopped.within
    rw [hprinted.tries_eq] at hwithin hflushed ⊢
    rw [hflush]
    exact ⟨fun hnone => ⟨⟨hfeeds, hflushed hnone hprinted.upTo⟩, rfl⟩, fun _ => ⟨hfeeds, hwithin⟩⟩
  · intro m hstopped
    obtain ⟨error, m', hflush, hfeeds, hwithin, -⟩ := outcome_flush hstopped.feeds hstopped.within
    rw [hflush]
    exact ⟨hfeeds, hwithin⟩

/-- However an execution ends, the lanes are within what was tried. -/
theorem Level.outcome_exec (h : w.Level total start) (p : Program) :
    w.Feeds (Act.outcome (Machine.exec p) start).2 ∧
      (Act.outcome (Machine.exec p) start).2.world.outside.Carries
        (Pipe.Within (total ++ (start.tries p.prints).flatMap Text.line)) w.lanes := by
  have hexec := h.ensures_exec p start rfl
  rcases hend : Act.outcome (Machine.exec p) start with ⟨stop | ⟨⟩, m⟩
  · rw [hend] at hexec
    exact hexec
  · rw [hend] at hexec
    obtain ⟨hlevel, htries⟩ := hexec
    rw [htries]
    exact ⟨hlevel.feeds, hlevel.flushed.imp fun hp => hp.upTo.within⟩

/-- Executions that all finish deliver what their programs print, in order. -/
theorem Level.series (h : w.Level total m) (calls : List Program)
    (hok : ∀ r ∈ (Act.series Machine.exec calls m).1, r = .ok ()) :
    w.Level (total ++ (w.table.values (calls.flatMap Program.prints)).flatMap Text.line)
      (Act.series Machine.exec calls m).2 := by
  induction calls generalizing m total with
  | nil => simpa [SymbolTable.values, Act.series] using h
  | cons p calls ih =>
    have hexec := h.ensures_exec p m rfl
    rcases hend : Act.outcome (Machine.exec p) m with ⟨stop | ⟨⟩, m'⟩
    · simp only [Act.series, hend] at hok
      cases hok _ List.mem_cons_self
    · rw [hend] at hexec
      simp only [Act.series, hend] at hok ⊢
      have hrest := ih hexec.1 fun r hr => hok r (List.mem_cons_of_mem _ hr)
      simpa [SymbolTable.values] using hrest

end Wiring
end Birdcall
