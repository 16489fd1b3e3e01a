import Birdcall.Proofs.Lifetime
import Birdcall.Proofs.Splitting
import Birdcall.Proofs.Utf8
import Mathlib.Data.List.Basic

/-!
# Tracing a run

An engine with a log tells of every instruction it interprets.  The line of an instruction is
indented by the calls that it lies in, which is done with headings: one is pushed when a body is
entered, and dropped however the body ends.

* Headings are templates, but the ones that are pushed hold no places, and so a line is put together
  as it should be (`Template.fill_marked`, `Log.line_visit`).
* What a run visits is noted by a `Tour` that goes along with it.
* `Machine.Shows` follows a run with a log along the tour of the same run without one.  The record of
  the one is the record of the other with the lines of the visits in between (`Outside.Tells`).
* `Machine.LogsUnder` says where the log goes, under which headings.  It holds again at the end of a
  run, and so of every engine between two calls.
-/

namespace Birdcall

open Text

/-! ## Headings are plain -/

namespace Template

/-- A place without anything to it shows the next text as it stands. -/
theorem fillFrom_place {args : List Text} {before rest t : Text} (hbefore : byte '%' ∉ before)
    {next : Nat} (ht : args[next]? = some t) (fuel : Nat) (sound numbered : Bool) :
    fillFrom args (fuel + 1)
        ⟨before ++ byte '%' :: byte 'v' :: rest, next, false, sound, numbered⟩ =
      before ++ t ++ fillFrom args fuel ⟨rest, next + 1, false, true, false⟩ := by
  let r : Reading := ⟨byte 'v' :: rest, next, false, true, false⟩
  have hplace : place args {} r 'v' = (t, next + 1) := by
    simp [place, r, ht, Place.show?, Place.pad, Place.filling, Place.cut]
  have hstep : fillFrom args (fuel + 1)
        ⟨before ++ byte '%' :: byte 'v' :: rest, next, false, sound, numbered⟩ =
      before ++ [] ++ [] ++ ((place args {} r 'v').1 ++
        fillFrom args fuel ⟨rest, (place args {} r 'v').2, false, true, false⟩) := by
    rw [fillFrom, splitAt_append_cons hbefore]
    rfl
  rw [hstep, hplace]
  simp only [List.append_nil, List.append_assoc]

/-- A heading without places in it stands in front of the mark and the message. -/
theorem fill_marked {heading : Text} (h : byte '%' ∉ heading) (mark message : Text) :
    fill (heading ++ ofString "%v %v") [mark, message] =
      heading ++ mark ++ ofString " " ++ message := by
  have htemplate : ofString "%v %v" =
      byte '%' :: byte 'v' :: ([byte ' '] ++ byte '%' :: byte 'v' :: []) := rfl
  have hblank : byte '%' ∉ [byte ' '] := by decide
  have hfuel : (heading ++ ofString "%v %v").length + 1 = heading.length + 3 + 1 + 1 + 1 := by
    rw [List.length_append]
    rfl
  have hend : ∀ fuel, fillFrom [mark, message] (fuel + 1) ⟨[], 2, false, true, false⟩ = [] :=
    fun _ => rfl
  rw [fill, hfuel, htemplate, fillFrom_place h rfl, fillFrom_place hblank rfl, hend,
    List.append_nil, List.append_assoc (heading ++ mark)]
  rfl

end Template

/-! ## Visits -/

/-- A visit of an instruction, and in how many calls it lies. -/
structure Visit where
  depth : Nat
  index : Nat
  instruction : Instruction

namespace Visit

/-- The log line of a visit. -/
def line (v : Visit) : Text :=
  blanks (2 * v.depth) ++ ofString "> @" ++ ofNat v.index ++ ofString " " ++ v.instruction.text

/-- What the record shows of a visit that is logged. -/
def event (v : Visit) (c : Channel) : Event := .logged c.name c.level v.line

end Visit

/-- A state, and what was visited on the way to it. -/
structure Tour (σ : Type) where
  depth : Nat
  visits : List Visit
  state : σ

namespace Tour

variable {σ : Type}

/-- The state of a tour, and the tour with another one. -/
def part (t : Tour σ) : σ × (σ → Tour σ) := (t.state, fun s => { t with state := s })

/-- Prints, and notes every visit. -/
def hooks (emit : Symbol → Act σ Unit) : Hooks (Tour σ) where
  emit s := Act.on part (emit s)
  visit index i := modify fun t => { t with visits := t.visits ++ [⟨t.depth, index, i⟩] }
  within a := do
    modify fun t => { t with depth := t.depth + 1 }
    Act.lastly a do
      modify fun t => { t with depth := t.depth - 1 }
      pure none

end Tour

/-- What a run of a program visits, in order. -/
def Program.visits {σ : Type} (emit : Symbol → Act σ Unit) (p : Program) (s : σ) : List Visit :=
  (Act.outcome (p.interpret (Tour.hooks emit)) ⟨0, [], s⟩).2.visits

/-- Calls move the line of a visit to the right, and nothing else does. -/
theorem Log.line_visit {l : Log} {depth : Nat}
    (hheadings : l.headings = List.replicate depth (blanks 2)) (hwidth : l.width ≤ 1) (index : Nat)
    (i : Instruction) :
    l.line (ofString ">") (message (ofString "@%v %v") [ofNat index, i.text]) =
      Visit.line ⟨depth, index, i⟩ := by
  have hat : byte '%' ∉ ofString "@" := by decide
  have hmessage : message (ofString "@%v %v") [ofNat index, i.text] =
      ofString "@" ++ ofNat index ++ ofString " " ++ i.text :=
    Template.fill_marked hat (ofNat index) i.text
  have hheading : l.headings.reverse.flatten = blanks (2 * depth) := by
    rw [hheadings, List.reverse_replicate, blanks, List.flatten_replicate_replicate, Nat.mul_comm,
      ← blanks]
  have hplain : byte '%' ∉ blanks (2 * depth) := by
    intro hmem
    cases List.eq_of_mem_replicate hmem
  have hmark : widen l.width (ofString ">") = ofString ">" := by
    have hdecode : decode (ofString ">") = ['>'] := decode_encode ['>']
    have hmissing : l.width - (ofString ">").length = 0 := Nat.sub_eq_zero_of_le hwidth
    rw [widen, hdecode]
    simp only [hmissing]
    rfl
  rw [hmessage, line, hheading, hmark, Template.fill_marked hplain, Visit.line]
  simp only [List.append_assoc]
  rfl

/-! ## What the record tells -/

namespace Outside

/-- Two outsides that differ in their records only: from `base` on one shows visits too, each as some
events, among those that both of them show. -/
structure Tells (shown : Visit → List Event) (base : List Event) (visits : List Visit)
    (o o' : Outside) : Prop where
  devices : o.devices = o'.devices
  sinks : o.sinks = o'.sinks
  story : ∃ story : List (Visit ⊕ Event),
    o.events.toList = base ++ story.flatMap (Sum.elim shown ([·])) ∧
    o'.events.toList = base ++ story.filterMap Sum.getRight? ∧
    visits = story.filterMap Sum.getLeft?

variable {shown : Visit → List Event} {base : List Event} {visits : List Visit} {o o' : Outside}

theorem unseen_tells : Unseen (Tells shown base visits) where
  devices h := h.devices
  sinks h := h.sinks
  change h _ _ := ⟨rfl, rfl, h.story⟩
  record h e := by
    obtain ⟨story, htold, hplain, hvisits⟩ := h.story
    refine ⟨h.devices, h.sinks, story ++ [.inr e], ?_, ?_, ?_⟩
    · simp [htold]
    · simp [hplain]
    · simp [hvisits]

/-- A visit shows on one side only. -/
theorem Tells.visit (h : Tells shown base visits o o') (v : Visit) {events : Array Event}
    (hevents : events.toList = o.events.toList ++ shown v) :
    Tells shown base (visits ++ [v]) { o with events } o' := by
  obtain ⟨story, htold, hplain, hvisits⟩ := h.story
  refine ⟨h.devices, h.sinks, story ++ [.inl v], ?_, ?_, ?_⟩
  · simp [hevents, htold]
  · simp [hplain]
  · simp [hvisits]

end Outside

/-! ## Following a run -/

theorem Act.Matches.on_right {σ τ ρ α : Type} {R : σ → τ → Prop} {part : τ → ρ × (ρ → τ)}
    {a : Act σ α} {b : Act ρ α} (hpart : ∀ t, (part t).2 (part t).1 = t)
    (h : ∀ t, Matches (fun s r => R s ((part t).2 r)) a b) : Matches R a (on part b) := by
  intro s t hst
  rw [outcome_on]
  refine h t s (part t).1 ?_
  show R s ((part t).2 (part t).1)
  rwa [hpart]

namespace Machine

/-- How a visit shows in the record if the log goes to a channel. -/
def shown (channel : Option Channel) (v : Visit) : List Event := (channel.map v.event).toList

/-- A machine that logs the visits of a tour, next to the same machine without a log. -/
structure Shows (channel : Option Channel) (base : List Event) (m : Machine) (t : Tour Machine) :
    Prop where
  engine : ∃ width ≤ 1, m.engine =
    { t.state.engine with log := ⟨channel, List.replicate t.depth (blanks 2), width⟩ }
  outside : m.world.outside.Tells (shown channel) base t.visits t.state.world.outside
  caches : m.world.caches = t.state.world.caches
  meters : m.world.meters = t.state.world.meters

theorem outcome_log_some {e : Engine} {c : Channel} (hc : e.log.channel = some c)
    {mark template : Text} {args : List Text}
    (hreply : c.reply (e.log.line mark (Log.message template args)) = .done) (o : Outside)
    (caches : Array Cache) (meters : Array Meter) :
    let line := e.log.line mark (Log.message template args)
    Act.outcome (log mark template args) ⟨e, o, caches, meters⟩ =
      (.ok (), ⟨{ e with log := e.log.widened mark },
        { o with events := o.events.push (.logged c.name c.level line) }, caches, meters⟩) := by
  simp only [log, Act.outcome_get_bind, Log.write, hc]
  rw [Act.outcome_bind, outcome_change]
  simp only [outcome_outside, Outside.log, hreply]
  rfl

namespace Shows

variable {channel : Option Channel} {base : List Event}

theorem matches_emit (s : Symbol) :
    Act.Matches (Shows channel base) (emit s) ((Tour.hooks emit).emit s) := by
  show Act.Matches _ (emit s) (Act.on Tour.part (emit s))
  refine .on_right (fun _ => rfl) fun t => ?_
  have houtside : ∀ {α : Type} {a : Act Outside α},
      Act.Matches (Outside.Tells (shown channel) base t.visits) a a →
      Act.Matches (fun m m' => Shows channel base m (t.part.2 m')) (Machine.outside a)
        (Machine.outside a) := by
    intro α a ha ⟨e, o, caches, meters⟩ ⟨e', o', caches', meters'⟩ h
    obtain ⟨hend, htells⟩ := ha o o' h.outside
    rw [outcome_outside, outcome_outside]
    exact ⟨hend, h.engine, htells, h.caches, h.meters⟩
  refine matches_emit_of (fun h => ?_)
    (matches_printValue_of Outside.unseen_tells (fun h => ?_) houtside) s
  · obtain ⟨width, -, hengine⟩ := h.engine
    rw [hengine]
    rfl
  · obtain ⟨width, -, hengine⟩ := h.engine
    rw [hengine]
    rfl

/-- A visit is logged, or does nothing if there is no channel. -/
theorem matches_visit (hreturns : ∀ c ∈ channel, ∀ message, c.reply message = .done) (index : Nat)
    (i : Instruction) :
    Act.Matches (Shows channel base) (visit index i) ((Tour.hooks emit).visit index i) := by
  intro ⟨e, o, caches, meters⟩ t h
  obtain ⟨width, hwidth, hengine⟩ := h.engine
  have hengine : e = _ := hengine
  have hline := Log.line_visit (l := e.log) (by rw [hengine]) (by rw [hengine]; exact hwidth) index i
  cases channel with
  | none =>
    have houtcome : Act.outcome (visit index i) ⟨e, o, caches, meters⟩ =
        (.ok (), ⟨e, o, caches, meters⟩) := by
      rw [visit, log, Act.outcome_get_bind, hengine]
      rfl
    have hevents : o.events.toList = o.events.toList ++ shown none ⟨t.depth, index, i⟩ :=
      (List.append_nil _).symm
    rw [houtcome]
    exact ⟨rfl, h.engine, h.outside.visit _ hevents, h.caches, h.meters⟩
  | some c =>
    have hchannel : e.log.channel = some c := by rw [hengine]
    have hevents : (o.events.push (.logged c.name c.level (Visit.line ⟨t.depth, index, i⟩))).toList =
        o.events.toList ++ shown (some c) ⟨t.depth, index, i⟩ := Array.toList_push
    rw [visit, outcome_log_some hchannel (hreturns c rfl _), hline]
    refine ⟨rfl, ⟨max width 1, by omega, ?_⟩, h.outside.visit _ hevents, h.caches, h.meters⟩
    rw [hengine]
    rfl

theorem matches_within {a : Act Machine Unit} {b : Act (Tour Machine) Unit}
    (h : Act.Matches (Shows channel base) a b) :
    Act.Matches (Shows channel base) (within a) ((Tour.hooks emit).within b) := by
  refine .bind (.modify fun m t h => ?_) fun _ =>
    .lastly h (.bind (.modify fun m t h => ?_) fun _ => .pure none)
  · obtain ⟨width, hwidth, hengine⟩ := h.engine
    exact ⟨⟨width, hwidth, by rw [hengine]; rfl⟩, h.outside, h.caches, h.meters⟩
  · obtain ⟨width, hwidth, hengine⟩ := h.engine
    refine ⟨⟨width, hwidth, ?_⟩, h.outside, h.caches, h.meters⟩
    simp only [hengine, Log.pop, List.tail_replicate]

theorem matches_interpret (hreturns : ∀ c ∈ channel, ∀ message, c.reply message = .done)
    (p : Program) :
    Act.Matches (Shows channel base) (interpret p) (p.interpret (Tour.hooks emit)) :=
  Program.matches_walk matches_emit (matches_visit hreturns) matches_within _ _ _ _ _

end Shows

end Machine

/-! ## The log stays in place -/

/-- A line changes nothing about where lines go, and marks get no wider than its own. -/
theorem Log.write_keeps (l : Log) (mark template : Text) (args : List Text) :
    (l.write mark template args).2.channel = l.channel ∧
      (l.write mark template args).2.headings = l.headings ∧
      (l.write mark template args).2.width ≤ max l.width mark.length := by
  unfold Log.write
  split
  · exact ⟨rfl, rfl, Nat.le_max_left _ _⟩
  · exact ⟨rfl, rfl, Nat.le_refl _⟩

namespace Machine

/-- The log goes where it went at the start, under some headings, and marks have stayed narrow. -/
structure LogsUnder (start : Log) (headings : List Text) (m : Machine) : Prop where
  channel : m.engine.log.channel = start.channel
  headings : m.engine.log.headings = headings
  width : start.width ≤ 1 → m.engine.log.width ≤ 1

namespace LogsUnder

variable {start : Log} {headings : List Text}

theorem refl (m : Machine) : LogsUnder m.engine.log m.engine.log.headings m :=
  ⟨rfl, rfl, id⟩

theorem leads_inWorld {α : Type} (a : Act World α) :
    Act.Leads (LogsUnder start headings) (inWorld a) (LogsUnder start headings) := by
  refine Act.leads_of_outcome fun m h => ?_
  rw [inWorld, Act.outcome_on]
  exact ⟨h.channel, h.headings, h.width⟩

theorem leads_log {mark : Text} (template : Text) (args : List Text) (hmark : mark.length = 1) :
    Act.Leads (LogsUnder start headings) (log mark template args) (LogsUnder start headings) := by
  refine .get_bind fun m hm => .bind (R := fun _ => LogsUnder start headings)
    (.modify fun m' _ => ?_) fun _ => ?_
  · obtain ⟨hchannel, hheadings, hwidth⟩ := Log.write_keeps m.engine.log mark template args
    refine ⟨hchannel.trans hm.channel, hheadings.trans hm.headings, fun hstart => ?_⟩
    have hstart := hm.width hstart
    exact Nat.le_trans hwidth (by omega)
  · split
    · exact Act.Leads.pure _
    · exact leads_inWorld _

theorem leads_emit (s : Symbol) :
    Act.Leads (LogsUnder start headings) (emit s) (LogsUnder start headings) :=
  leads_emit_of (fun _ _ => leads_inWorld _) (fun _ _ => leads_inWorld _) s

/-- Inside a body there is one more heading, and behind it the heading is gone. -/
theorem leads_within {a : Act Machine Unit}
    (h : ∀ headings, Act.Leads (LogsUnder start headings) a (LogsUnder start headings)) :
    Act.Leads (LogsUnder start headings) (within a) (LogsUnder start headings) := by
  refine .bind (R := LogsUnder start (blanks 2 :: headings)) (.modify fun m hm => ?_) fun _ =>
    .lastly (h _) (.bind (R := LogsUnder start headings) (.modify fun m hm => ?_)
      fun _ => Act.Leads.pure _)
  · exact ⟨hm.channel, congrArg _ hm.headings, hm.width⟩
  · exact ⟨hm.channel, congrArg List.tail hm.headings, hm.width⟩

theorem leads_interpret (p : Program) :
    Act.Leads (LogsUnder start headings) (interpret p) (LogsUnder start headings) :=
  Program.ensures_walk_each (I := LogsUnder start) (E := LogsUnder start) (fun _ _ h => h)
    (fun _ => leads_emit) (fun _ _ _ => leads_log _ _ rfl) (fun h _ => leads_within h)
    _ _ _ _ _ headings

theorem leads_run (p : Program) :
    Act.Leads (LogsUnder start headings) (run p) (LogsUnder start headings) :=
  leads_run_of leads_emit leads_log (leads_interpret p) (fun _ _ => leads_inWorld _)
    fun _ _ => leads_inWorld _

/-- Whatever is asked of an engine leaves its log in place. -/
theorem of_met {d : Demand} {m m' : Machine} {result : Except Stop Unit} (h : d.Met m result m') :
    LogsUnder m.engine.log m.engine.log.headings m' := by
  induction h with
  | @executed m m₁ p _ _ _ hrun _ _ =>
    have hlog := (leads_run p).outcome (refl m)
    rw [hrun] at hlog
    exact ⟨hlog.channel, hlog.headings, hlog.width⟩
  | loaded _ _ _ ih => exact ih
  | refused | closed | stuck | jammed => exact ⟨rfl, rfl, id⟩

theorem series {m : Machine} (h : LogsUnder start headings m) (demands : List Demand) :
    LogsUnder start headings (Act.series Demand.act demands m).2 := by
  induction demands generalizing m with
  | nil => exact h
  | cons d demands ih =>
    have hmet := of_met (d.met m)
    refine ih ⟨hmet.channel.trans h.channel, hmet.headings.trans h.headings, fun hstart => ?_⟩
    exact hmet.width (h.width hstart)

end LogsUnder

/-- A machine whose log goes nowhere. -/
def silenced (m : Machine) : Machine := { m with engine.log := { m.engine.log with channel := none } }

/-- An engine that was made has a log without headings. -/
theorem log_of_build {digest : Program → UInt64} {o : Options} {start built : Machine}
    (h : Act.outcome (build digest o) start = (.ok (), built)) :
    ∃ channel, built.engine.log = ⟨channel, [], 0⟩ := by
  have hbuilt := ensures_assemble digest start.world o.settings start rfl
  rw [← build_eq, h] at hbuilt
  exact ⟨_, hbuilt.1.log⟩

/-- A run starts without headings, next to the same run without a log. -/
theorem Shows.start {m : Machine} {channel : Option Channel} {width : Nat}
    (hlog : m.engine.log = ⟨channel, [], width⟩) (hwidth : width ≤ 1) :
    Shows channel m.world.outside.events.toList m ⟨0, [], m.silenced⟩ := by
  refine ⟨⟨width, hwidth, ?_⟩, ⟨rfl, rfl, [], ?_, ?_, rfl⟩, rfl, rfl⟩
  · obtain ⟨e, w⟩ := m
    show e = { e with log := ⟨channel, [], width⟩ }
    rw [← hlog]
  · exact (List.append_nil _).symm
  · exact (List.append_nil _).symm

/-- Machines on the same tour, of which one has a log, differ in nothing but that and what was
logged. -/
theorem Shows.compare {c : Channel} {base : List Event} {m m' : Machine} {t : Tour Machine}
    (h : Shows (some c) base m t) (h' : Shows none base m' t) :
    m' = { m with
      engine.log := m'.engine.log
      world.outside.events := m'.world.outside.events } ∧
    ∃ story : List (Visit ⊕ Event),
      m.world.outside.events.toList = base ++ story.map (Sum.elim (Visit.event · c) id) ∧
      m'.world.outside.events.toList = base ++ story.filterMap Sum.getRight? ∧
      t.visits = story.filterMap Sum.getLeft? := by
  constructor
  · obtain ⟨e, ⟨devices, sinks, events⟩, caches, meters⟩ := m
    obtain ⟨e', ⟨devices', sinks', events'⟩, caches', meters'⟩ := m'
    obtain ⟨width, -, hengine⟩ := h.engine
    obtain ⟨width', -, hengine'⟩ := h'.engine
    have hdevices := h.outside.devices.trans h'.outside.devices.symm
    have hsinks := h.outside.sinks.trans h'.outside.sinks.symm
    have hcaches := h.caches.trans h'.caches.symm
    have hmeters := h.meters.trans h'.meters.symm
    simp only at hengine hengine' hdevices hsinks hcaches hmeters
    simp only [hengine, hengine', hdevices, hsinks, hcaches, hmeters]
  · obtain ⟨story, htold, hsilent, hvisits⟩ := h.outside.story
    obtain ⟨story', htold', hsilent', -⟩ := h'.outside.story
    have hmap : Sum.elim (shown (some c)) ([·]) = fun x => [Sum.elim (Visit.event · c) id x] := by
      funext x
      cases x <;> rfl
    have hnone : Sum.elim (shown none) ([·]) = fun x => (Sum.getRight? x).toList := by
      funext x
      cases x <;> rfl
    refine ⟨story, ?_, ?_, hvisits⟩
    · rw [htold, hmap, ← List.map_eq_flatMap]
    · rw [htold', hnone, ← List.filterMap_eq_flatMap_toList, ← hsilent', hsilent]

/-- Interpreting with a log does the same as interpreting without one, whatever the engine prints to
and however that responds.  It logs one line for each instruction it visits, in order and indented
by the calls the instruction lies in, and nothing else.  However it ends, and even if logging does
not return, the log is left as it was. -/
theorem interpret_traced (p : Program) :
    (∀ {digest : Program → UInt64} {options : Options} {start built : Machine} {c : Channel},
      Act.outcome (build digest options) start = (.ok (), built) →
      built.engine.log.channel = some c → (∀ message, c.reply message = .done) →
      ∀ demands : List Demand,
        let m := (Act.series Demand.act demands built).2
        let traced := Act.outcome (interpret p) m
        let plain := Act.outcome (interpret p) m.silenced
        traced.1 = plain.1 ∧
        plain.2 = { traced.2 with
          engine.log := plain.2.engine.log
          world.outside.events := plain.2.world.outside.events } ∧
        ∃ story : List (Visit ⊕ Event),
          traced.2.world.outside.events.toList =
            m.world.outside.events.toList ++ story.map (Sum.elim (Visit.event · c) id) ∧
          plain.2.world.outside.events.toList =
            m.world.outside.events.toList ++ story.filterMap Sum.getRight? ∧
          p.visits emit m.silenced = story.filterMap Sum.getLeft?) ∧
    ∀ m : Machine,
      let ended := (Act.outcome (interpret p) m).2
      ended.engine.log.channel = m.engine.log.channel ∧
        ended.engine.log.headings = m.engine.log.headings := by
  refine ⟨?_, fun m => ?_⟩
  · intro digest options start built c hbuilt hc hreturns demands m traced plain
    obtain ⟨channel, hlog⟩ := log_of_build hbuilt
    have hm : LogsUnder built.engine.log [] m := by
      have hstart := LogsUnder.refl built
      rw [hlog] at hstart
      rw [hlog]
      exact hstart.series demands
    have hwidth : m.engine.log.width ≤ 1 := hm.width (by rw [hlog]; exact Nat.zero_le 1)
    have hmlog : m.engine.log = ⟨some c, [], m.engine.log.width⟩ := by
      rw [← hc, ← hm.channel, ← hm.headings]
    have hsilenced : m.silenced.engine.log = ⟨none, [], m.engine.log.width⟩ := by
      show (⟨none, m.engine.log.headings, m.engine.log.width⟩ : Log) = _
      rw [hm.headings]
    have hsome : ∀ c' ∈ some c, ∀ message, c'.reply message = .done := by simpa using hreturns
    have hnone : ∀ c' ∈ (none : Option Channel), ∀ message, c'.reply message = .done := by simp
    -- Both runs follow the same tour, from the same state.
    obtain ⟨hend, hshows⟩ := Shows.matches_interpret hsome p _ _ (.start hmlog hwidth)
    obtain ⟨hend', hshows'⟩ := Shows.matches_interpret hnone p _ _ (.start hsilenced hwidth)
    exact ⟨hend.trans hend'.symm, hshows.compare hshows'⟩
  · have hend := (LogsUnder.leads_interpret p).outcome (.refl m)
    exact ⟨hend.channel, hend.headings⟩

/-- A call of a function whose name looks like a place in a template. -/
def percent : Program :=
  [.define (ofString "%d") 1, .print ⟨0⟩, .run (ofString "%d")]

/-- What makes an engine with a log that prints to a sink which crashes. -/
def fragile : Options :=
  .all [.one (.log (some ⟨[], .debug, fun _ => .done⟩)),
    .one (.sink (some ⟨"sink", fun _ => .crash .nothing⟩))]

/-- The crash comes from inside the call, and the log is not indented any more afterwards. -/
theorem interpret_traced_percent :
    let built := Act.outcome (build (fun _ => 0) fragile) ⟨.blank, .empty⟩
    let traced := Act.outcome (interpret percent) built.2
    let plain := Act.outcome (interpret percent) built.2.silenced
    (built.1 = .ok () ∧ ∃ c, built.2.engine.log.channel = some c ∧
      ∀ message, c.reply message = .done) ∧
    (traced.1 = .error (.crashed .nothing) ∧ plain.1 = .error (.crashed .nothing)) ∧
    traced.2.world.outside.events.toList =
      [.logged [] .debug (ofString "> @0 fun %d ..@1"), .logged [] .debug (ofString "> @2 run %d"),
        .logged [] .debug (ofString "  > @1 print a"), .emitted "sink" (ofString "duck")] ∧
    plain.2.world.outside.events.toList = [.emitted "sink" (ofString "duck")] ∧
    traced.2.engine.log.headings = [] := by
  have hbuilt : Act.outcome (build (fun _ => 0) fragile) ⟨.blank, .empty⟩ =
      (.ok (), (Act.outcome (build (fun _ => 0) fragile) ⟨.blank, .empty⟩).2) := rfl
  have hcrash : (Act.outcome (interpret percent)
      (Act.outcome (build (fun _ => 0) fragile) ⟨.blank, .empty⟩).2.silenced).1 =
      .error (.crashed .nothing) := by decide +kernel
  obtain ⟨htraced, hkept⟩ := interpret_traced percent
  have hsame := (htraced hbuilt rfl (fun _ => rfl) []).1
  exact ⟨⟨rfl, _, rfl, fun _ => rfl⟩, ⟨hsame.trans hcrash, hcrash⟩, by decide +kernel, by decide +kernel, (hkept _).2⟩

end Machine
end Birdcall
