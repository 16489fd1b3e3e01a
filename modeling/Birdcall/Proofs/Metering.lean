import Birdcall.Proofs.Ensures
import Birdcall.Proofs.Promotion
import Birdcall.Proofs.Solo
import Birdcall.Proofs.Tiering

/-!
# Meters and caches agree

An execution is counted twice: by the cache that decides how it is done, and on the meter of the
engine that does it.  Engines that share a cache and a meter see the same numbers on both, whatever
they execute and however it ends.

* Executions.  Once it is decided how a program is executed, caches, meters and the engine stay as
  they are but for the log and the pending error (`Machine.Settled`).  So all counting is done at
  the beginning: `Machine.leads_exec_untiered` and `Machine.leads_exec_tiered` say what it is.
* Calls.  A program may also come from a source, and a source that cannot be loaded is not executed
  (`Machine.leads_call_some`, `Machine.leads_call_none`).
* Fleets.  `Fleet.Counts` is the invariant.  `Fleet.Counts.step` is one call, and
  `Fleet.Counts.run` is any number of them.
-/

namespace Birdcall

/-! ## Executions -/

namespace Machine

/-- A machine whose engine is `e` but for the log and the pending error, with these caches and
meters. -/
structure Settled (e : Engine) (caches : Array Cache) (meters : Array Meter) (m : Machine) :
    Prop where
  engine : ∃ l pending, m.engine = { e with log := l, pending := pending }
  caches : m.world.caches = caches
  meters : m.world.meters = meters

section Settled

variable {e : Engine} {caches : Array Cache} {meters : Array Meter}

theorem Settled.tiered_eq {m : Machine} (h : Settled e caches meters m) :
    m.engine.tiered = e.tiered := by
  obtain ⟨l, pending, hengine⟩ := h.engine
  rw [hengine]

theorem Settled.cache_eq {m : Machine} (h : Settled e caches meters m) :
    m.engine.cache = e.cache := by
  obtain ⟨l, pending, hengine⟩ := h.engine
  rw [hengine]

theorem Settled.meter_eq {m : Machine} (h : Settled e caches meters m) :
    m.engine.meter = e.meter := by
  obtain ⟨l, pending, hengine⟩ := h.engine
  rw [hengine]

theorem leads_outside {α : Type} (a : Act Outside α) :
    Act.Leads (Settled e caches meters) (outside a) (Settled e caches meters) := by
  refine Act.leads_of_outcome fun m h => ?_
  obtain ⟨engine, o, _, _⟩ := m
  rw [outcome_outside]
  exact ⟨h.engine, h.caches, h.meters⟩

theorem leads_change_log (f : Log → Log) :
    Act.Leads (Settled e caches meters) (change fun e => { e with log := f e.log })
      (Settled e caches meters) := by
  refine .modify fun m h => ?_
  obtain ⟨l, pending, hengine⟩ := h.engine
  exact ⟨⟨f l, pending, by rw [hengine]⟩, h.caches, h.meters⟩

theorem leads_log (mark template : Text) (args : List Text) :
    Act.Leads (Settled e caches meters) (log mark template args) (Settled e caches meters) := by
  refine .get_bind fun m _ => .bind (leads_change_log fun _ => _) fun _ => ?_
  split
  · exact Act.Leads.pure _
  · exact leads_outside _

theorem leads_emit (s : Symbol) :
    Act.Leads (Settled e caches meters) (emit s) (Settled e caches meters) :=
  leads_emit_of (fun _ _ => leads_outside _) (fun _ _ => leads_outside _) s

theorem leads_within {a : Act Machine Unit}
    (ha : Act.Leads (Settled e caches meters) a (Settled e caches meters)) :
    Act.Leads (Settled e caches meters) (within a) (Settled e caches meters) :=
  .bind (leads_change_log fun l => l.push _) fun _ =>
    .lastly ha (.bind (leads_change_log fun l => l.pop) fun _ => Act.Leads.pure _)

theorem leads_interpret (p : Program) :
    Act.Leads (Settled e caches meters) (interpret p) (Settled e caches meters) :=
  Program.ensures_walk (fun _ h => h) leads_emit (fun _ _ => leads_log _ _ _) leads_within _ _ _ _ _

theorem leads_invoke (p : Program) :
    Act.Leads (Settled e caches meters) (p.compile.invoke emit) (Settled e caches meters) := by
  rw [Program.invoke_compile]
  exact Program.ensures_walk (fun _ h => h) leads_emit (fun _ _ => Act.Leads.pure ())
    (fun h => h) _ _ _ _ _

theorem leads_flush :
    Act.Leads (Settled e caches meters) flush (Settled e caches meters) := by
  refine .get_bind fun m _ => .bind (.modify fun m h => ?_) fun _ =>
    .bind (leads_outside _) fun _ => Act.Leads.pure _
  obtain ⟨l, pending, hengine⟩ := h.engine
  exact ⟨⟨l, none, by rw [hengine]⟩, h.caches, h.meters⟩

/-- Counting on a meter changes that meter alone. -/
theorem ensures_count {E : Machine → Prop} (mid : Nat) (f : Meter → Meter) :
    Act.Ensures (Settled e caches meters) (inWorld (World.count (some mid) f))
      (fun _ => Settled e caches (meters.modify mid f)) E := by
  intro m h
  have hcount : Act.outcome (inWorld (World.count (some mid) f)) m =
      (.ok (), { m with world.meters := m.world.meters.modify mid f }) := rfl
  rw [hcount]
  exact ⟨h.engine, h.caches, by rw [h.meters]⟩

end Settled

/-- An untiered execution counts as a cold one on the meter, and nowhere else. -/
theorem leads_exec_untiered {e : Engine} {caches : Array Cache} {meters : Array Meter} {mid : Nat}
    (htiered : e.tiered = false) (hmeter : e.meter = some mid) (p : Program) :
    Act.Leads (Settled e caches meters) (exec p)
      (Settled e caches (meters.modify mid (·.observe .cold))) := by
  refine .lastly (Act.leads_of_outcome fun m h => ?_) leads_flush
  rw [Act.outcome_bind, outcome_find_untiered (h.tiered_eq.trans htiered)]
  have hproceed : Act.Leads (Settled e caches meters) (proceed p none)
      (Settled e caches (meters.modify mid (·.observe .cold))) := by
    refine .get_bind fun m h => ?_
    rw [h.meter_eq, hmeter]
    exact (ensures_count mid _).bind fun _ => leads_interpret p
  exact hproceed.outcome h

end Machine

/-- The meters after an execution in a tier was counted on one of them. -/
def World.counted (mid : Nat) (meters : Array Meter) : Tier → Array Meter
  | .cold => meters.modify mid (·.observe .cold)
  | .warm => (meters.modify mid (·.observe .warm)).modify mid (·.promoted)
  | .compiled => meters.modify mid (·.observe .compiled)

namespace Machine

section Tiered

variable {e : Engine} {caches : Array Cache} {meters : Array Meter} {id mid : Nat}

/-- However a program is executed, the tier it is executed in is counted once. -/
theorem leads_perform (hmeter : e.meter = some mid) {p : Program} {a : Admission}
    (ha : a.tier = .compiled → a.artifact = some p.compile) :
    Act.Leads (Settled e caches meters) (perform p a)
      (Settled e caches (World.counted mid meters a.tier)) := by
  refine .get_bind fun m h => ?_
  rw [h.meter_eq, hmeter]
  refine (ensures_count mid _).bind fun _ => ?_
  cases htier : a.tier with
  | cold => exact .bind (leads_log _ _ _) fun _ => leads_interpret p
  | warm =>
    exact (ensures_count mid _).bind fun _ => .bind (leads_log _ _ _) fun _ => leads_interpret p
  | compiled =>
    rw [ha htier]
    exact .bind (leads_log _ _ _) fun _ => leads_invoke p

/-- A tiered execution counts on the meter in the tier that the cache has counted it in. -/
theorem leads_exec_tiered (htiered : e.tiered = true) (hid : e.cache = some id)
    (hmeter : e.meter = some mid) {c : Cache} (hc : caches[id]? = some c) {p : Program}
    {a : Admission} {c' : Cache} (henter : (c.lookup p).2.enter (c.lookup p).1 = .ok (a, c'))
    (ha : a.tier = .compiled → a.artifact = some p.compile) :
    Act.Leads (Settled e caches meters) (exec p)
      (Settled e (caches.setIfInBounds id c') (World.counted mid meters a.tier)) := by
  refine .lastly (Act.leads_of_outcome fun m h => ?_) leads_flush
  have hid : m.engine.cache = some id := h.cache_eq.trans hid
  have hc : m.world.caches[id]? = some c := h.caches ▸ hc
  rw [Act.outcome_bind, outcome_find (h.tiered_eq.trans htiered) hid hc]
  simp only
  rw [outcome_proceed (m := m.setCache id _) hid (setCache_getElem? hc _) henter]
  refine (leads_perform hmeter ha).outcome ⟨h.engine, ?_, h.meters⟩
  simp only [setCache, Array.setIfInBounds_setIfInBounds, h.caches]

end Tiered
end Machine

/-! ## Calls -/

/-- What an engine may be called with. -/
inductive Call
  | program (p : Program)
  | source (s : Source)

namespace Call

/-- What an engine does when it is called. -/
def act : Call → Act Machine Unit
  | .program p => Machine.exec p
  | .source s => Machine.execSource s

/-- The program that is executed, unless a source cannot be loaded. -/
def program? : Call → Option Program
  | .program p => some p
  | .source s => s.program.toOption

end Call

namespace Machine

variable {e : Engine} {caches : Array Cache} {meters : Array Meter}

/-- A call that executes a program does what the execution does. -/
theorem leads_call_some {c : Call} {p : Program} (hc : c.program? = some p) {Q : Machine → Prop}
    (h : Act.Leads (Settled e caches meters) (exec p) Q) :
    Act.Leads (Settled e caches meters) c.act Q := by
  cases c with
  | program p =>
    cases hc
    exact h
  | source s =>
    refine Act.leads_of_outcome fun m hm => ?_
    obtain ⟨events, hload⟩ := outcome_load s m
    show Q (Act.outcome (execSource s) m).2
    rw [execSource, Act.outcome_bind, hload]
    cases hs : s.program with
    | error stop => simp [Call.program?, hs, Except.toOption] at hc
    | ok q =>
      obtain rfl : q = p := by simpa [Call.program?, hs, Except.toOption] using hc
      exact h.outcome ⟨hm.engine, hm.caches, hm.meters⟩

/-- A call with nothing to execute counts nothing. -/
theorem leads_call_none {c : Call} (hc : c.program? = none) :
    Act.Leads (Settled e caches meters) c.act (Settled e caches meters) := by
  cases c with
  | program p => cases hc
  | source s =>
    refine Act.leads_of_outcome fun m hm => ?_
    cases hs : s.program with
    | error stop =>
      obtain ⟨events, hfails⟩ := outcome_execSource_error hs m
      show Settled e caches meters (Act.outcome (execSource s) m).2
      rw [hfails]
      exact ⟨hm.engine, hm.caches, hm.meters⟩
    | ok p => simp [Call.program?, hs, Except.toOption] at hc

end Machine

/-! ## Fleets -/

/-- What a meter shows next to a cache, if some executions were decided on by the cache and some
were not. -/
structure Meter.Agrees (m : Meter) (s : Stats) (tiered untiered : Nat) : Prop where
  interpreted : m.cold + m.warm = s.interpreted + untiered
  compiled : m.compiled = s.compiled
  promoted : m.warm = m.promotions
  promotions : m.promotions = s.promotions
  total : s.interpreted + s.compiled = tiered

namespace Meter.Agrees

variable {m : Meter} {c : Cache} {tiered untiered : Nat}

theorem new (registered : Bool) (digest : Program → UInt64) (threshold : Int) :
    (Meter.new registered).Agrees (Cache.new digest threshold).stats 0 0 :=
  ⟨rfl, rfl, rfl, rfl, rfl⟩

theorem observe_cold (h : m.Agrees c.stats tiered untiered) :
    (m.observe .cold).Agrees c.stats tiered (untiered + 1) := by
  refine ⟨?_, h.compiled, h.promoted, h.promotions, h.total⟩
  have := h.interpreted
  simp only [Meter.observe]
  omega

/-- The cache and the meter count an execution in the same tier. -/
theorem counted {meters : Array Meter} {mid : Nat} (hm : meters[mid]? = some m)
    (h : m.Agrees c.stats tiered untiered) {c' : Cache} {t : Tier}
    (hc : c'.interpreted = c.interpreted + (if t = .compiled then 0 else 1) ∧
      c'.compiled = c.compiled + (if t = .compiled then 1 else 0) ∧
      c'.promotions = c.promotions + (if t = .warm then 1 else 0)) :
    ∃ m', (World.counted mid meters t)[mid]? = some m' ∧
      m'.Agrees c'.stats (tiered + 1) untiered := by
  obtain ⟨hinterpreted, hcompiled, hpromoted, hpromotions, htotal⟩ := h
  obtain ⟨hinterpreted', hcompiled', hpromotions'⟩ := hc
  simp only [Cache.stats] at hinterpreted hcompiled hpromotions htotal
  cases t with
  | cold =>
    refine ⟨m.observe .cold, by simp [World.counted, Array.getElem?_modify, hm], ?_⟩
    constructor <;> simp [Cache.stats, observe] at * <;> omega
  | warm =>
    refine ⟨(m.observe .warm).promoted, by simp [World.counted, Array.getElem?_modify, hm], ?_⟩
    constructor <;> simp [Cache.stats, observe, Meter.promoted] at * <;> omega
  | compiled =>
    refine ⟨m.observe .compiled, by simp [World.counted, Array.getElem?_modify, hm], ?_⟩
    constructor <;> simp [Cache.stats, observe] at * <;> omega

end Meter.Agrees

/-- A program that is executed is counted once by the cache, in the tier that is decided on. -/
theorem Cache.Sound.execution {c : Cache} (h : c.Sound) (p : Program) :
    ∃ a c', (c.lookup p).2.enter (c.lookup p).1 = .ok (a, c') ∧ c'.Sound ∧
      (a.tier = .compiled → a.artifact = some p.compile) ∧
      c'.interpreted = c.interpreted + (if a.tier = .compiled then 0 else 1) ∧
      c'.compiled = c.compiled + (if a.tier = .compiled then 1 else 0) ∧
      c'.promotions = c.promotions + (if a.tier = .warm then 1 else 0) := by
  obtain ⟨e, he, hprogram⟩ := c.lookup_spec p
  have hlookup := h.lookup p
  obtain ⟨a, e', henter, hentering⟩ := Cache.enter_spec hlookup he
  have hartifact := hentering.artifact_eq (hlookup.entry he)
  rw [hprogram] at hartifact
  obtain ⟨-, hinterpreted, hcompiled, hpromotions⟩ := c.lookup_numbers p
  obtain ⟨-, hinterpreted', hcompiled', hpromotions'⟩ :=
    ((c.lookup p).2.setEntry (c.lookup p).1 e').tally_numbers a.tier
  refine ⟨a, _, henter, ?_, hartifact, ?_, ?_, ?_⟩
  · exact (hlookup.setEntry _ (hentering.sound (hlookup.entry he))).tally a.tier
  · rw [hinterpreted', ← hinterpreted, Cache.setEntry]
  · rw [hcompiled', ← hcompiled, Cache.setEntry]
  · rw [hpromotions', ← hpromotions, Cache.setEntry]

/-- The engine counts on the meter `mid`, and if it is tiered it uses the cache `id`. -/
structure Engine.Shares (e : Engine) (id mid : Nat) : Prop where
  meter : e.meter = some mid
  cache : e.tiered = true → e.cache = some id

namespace Fleet

variable {n : Nat}

/-- Calls one engine. -/
def call (k : Fin n) (c : Call) : Act (Fleet n) Unit :=
  Act.on
    (fun f => (⟨f.engines.get k, f.world⟩, fun m => ⟨f.engines.set k m.engine k.isLt, m.world⟩))
    c.act

/-- Calls engines in turn, however each call ends: the fleet afterwards. -/
def after (calls : List (Fin n × Call)) (f : Fleet n) : Fleet n :=
  (Act.series (fun (k, c) => call k c) calls f).2

/-- How many of the calls are executions by engines that are tiered, or by engines that are not. -/
def executions (f : Fleet n) (tiered : Bool) (calls : List (Fin n × Call)) : Nat :=
  calls.countP fun (k, c) => (f.engines.get k).tiered == tiered && c.program?.isSome

theorem executions_singleton (f : Fleet n) (tiered : Bool) (k : Fin n) (c : Call) :
    f.executions tiered [(k, c)] =
      if (f.engines.get k).tiered == tiered && c.program?.isSome then 1 else 0 :=
  List.countP_singleton

theorem executions_cons (f : Fleet n) (tiered : Bool) (x : Fin n × Call)
    (calls : List (Fin n × Call)) :
    f.executions tiered (x :: calls) = f.executions tiered [x] + f.executions tiered calls := by
  rw [executions, executions, executions, ← List.countP_append]
  rfl

/-- A fleet that came from `base` by calls, with a cache and a meter that agree. -/
structure Counts (base : Fleet n) (id mid tiered untiered : Nat) (f : Fleet n) : Prop where
  engines : ∀ k : Fin n, ∃ l pending,
    f.engines.get k = { base.engines.get k with log := l, pending := pending }
  numbers : ∃ c m, f.world.caches[id]? = some c ∧ c.Sound ∧ f.world.meters[mid]? = some m ∧
    m.Agrees c.stats tiered untiered

namespace Counts

variable {base f : Fleet n} {id mid tiered untiered : Nat} {k : Fin n} {c : Call}

/-- A call of an engine leaves the other ones alone. -/
theorem engines_call (h : Counts base id mid tiered untiered f) {caches : Array Cache}
    {meters : Array Meter}
    (hcall : Act.Leads (Machine.Settled (base.engines.get k) f.world.caches f.world.meters) c.act
      (Machine.Settled (base.engines.get k) caches meters)) :
    (∀ j : Fin n, ∃ l pending, (Act.outcome (call k c) f).2.engines.get j =
        { base.engines.get j with log := l, pending := pending }) ∧
      (Act.outcome (call k c) f).2.world.caches = caches ∧
      (Act.outcome (call k c) f).2.world.meters = meters := by
  have hstart : Machine.Settled (base.engines.get k) f.world.caches f.world.meters
      ⟨f.engines.get k, f.world⟩ := ⟨h.engines k, rfl, rfl⟩
  obtain ⟨hengine, hcaches, hmeters⟩ := hcall.outcome hstart
  have hget : ∀ (engines : Vector Engine n) (j : Fin n), engines.get j = engines[j.val] :=
    fun _ _ => rfl
  rw [call, Act.outcome_on]
  refine ⟨fun j => ?_, hcaches, hmeters⟩
  by_cases hj : k = j
  · subst hj
    rw [hget, Vector.getElem_set_self]
    exact hengine
  · have hne : k.val ≠ j.val := fun heq => hj (Fin.ext heq)
    rw [hget, Vector.getElem_set_ne _ _ hne]
    exact h.engines j

/-- A source that cannot be loaded counts nothing. -/
theorem call_none (h : Counts base id mid tiered untiered f) (hc : c.program? = none) :
    (Act.outcome (call k c) f).2.world.caches = f.world.caches ∧
      (Act.outcome (call k c) f).2.world.meters = f.world.meters :=
  (h.engines_call (Machine.leads_call_none hc)).2

/-- An execution by an untiered engine counts as a cold one on the meter, and the caches stay as
they are. -/
theorem call_untiered (h : Counts base id mid tiered untiered f)
    (hbase : (base.engines.get k).Shares id mid) (htiered : (base.engines.get k).tiered = false)
    {p : Program} (hc : c.program? = some p) :
    (Act.outcome (call k c) f).2.world.caches = f.world.caches ∧
      (Act.outcome (call k c) f).2.world.meters =
        f.world.meters.modify mid (·.observe .cold) :=
  (h.engines_call (Machine.leads_call_some hc
    (Machine.leads_exec_untiered htiered hbase.meter p))).2

/-- One call keeps the cache and the meter in agreement. -/
theorem step (h : Counts base id mid tiered untiered f)
    (hbase : (base.engines.get k).Shares id mid) :
    Counts base id mid (tiered + executions base true [(k, c)])
      (untiered + executions base false [(k, c)]) (Act.outcome (call k c) f).2 := by
  obtain ⟨cache, m, hcache, hsound, hmeter, hagrees⟩ := h.numbers
  cases hc : c.program? with
  | none =>
    obtain ⟨hengines, hcaches, hmeters⟩ := h.engines_call (k := k) (Machine.leads_call_none hc)
    rw [executions_singleton, executions_singleton, hc, Option.isSome_none, Bool.and_false,
      Bool.and_false]
    refine ⟨hengines, cache, m, ?_, hsound, ?_, hagrees⟩
    · rw [hcaches, hcache]
    · rw [hmeters, hmeter]
  | some p =>
    cases htiered : (base.engines.get k).tiered with
    | false =>
      obtain ⟨hengines, hcaches, hmeters⟩ := h.engines_call (k := k)
        (Machine.leads_call_some hc (Machine.leads_exec_untiered htiered hbase.meter p))
      rw [executions_singleton, executions_singleton, htiered, hc]
      refine ⟨hengines, cache, m.observe .cold, ?_, hsound, ?_, hagrees.observe_cold⟩
      · rw [hcaches, hcache]
      · simp [hmeters, Array.getElem?_modify, hmeter]
    | true =>
      obtain ⟨a, cache', henter, hsound', hartifact, hnumbers⟩ := hsound.execution p
      obtain ⟨hengines, hcaches, hmeters⟩ := h.engines_call (k := k)
        (Machine.leads_call_some hc (Machine.leads_exec_tiered htiered (hbase.cache htiered)
          hbase.meter hcache henter hartifact))
      obtain ⟨m', hm', hagrees'⟩ := hagrees.counted hmeter hnumbers
      rw [executions_singleton, executions_singleton, htiered, hc]
      refine ⟨hengines, cache', m', ?_, hsound', ?_, hagrees'⟩
      · have hlt : id < f.world.caches.size := (Array.getElem?_eq_some_iff.1 hcache).1
        simp [hcaches, hlt]
      · rw [hmeters, hm']

/-- Calls one after the other keep the cache and the meter in agreement. -/
theorem run (hbase : ∀ k : Fin n, (base.engines.get k).Shares id mid)
    (h : Counts base id mid tiered untiered f) (calls : List (Fin n × Call)) :
    Counts base id mid (tiered + executions base true calls)
      (untiered + executions base false calls) (f.after calls) := by
  induction calls generalizing f tiered untiered with
  | nil => exact h
  | cons x calls ih =>
    obtain ⟨k, c⟩ := x
    have hrest := ih (h.step (k := k) (c := c) (hbase k))
    rw [Nat.add_assoc, Nat.add_assoc, ← executions_cons, ← executions_cons] at hrest
    exact hrest

end Counts

/-- A meter and a cache that engines share agree after every call.

The engines count on a new meter, and the tiered ones share a new cache with any digest and any
threshold.  They have been called in any order, with programs and with sources, and the calls have
ended in any way.  Then what the meter shows is what the cache says of the tiered executions, plus
the untiered ones, which count as cold.  The next call of any engine counts nothing if its source
cannot be loaded; and if the engine is untiered, it counts one cold execution and leaves all caches
as they are. -/
theorem meter_agrees (f : Fleet n) (id mid : Nat) (digest : Program → UInt64) (threshold : Int)
    (registered : Bool) (hcache : f.world.caches[id]? = some (.new digest threshold))
    (hmeter : f.world.meters[mid]? = some (.new registered))
    (hengines : ∀ k : Fin n, (f.engines.get k).Shares id mid) (calls : List (Fin n × Call)) :
    let g := f.after calls
    (∃ c m, g.world.caches[id]? = some c ∧ g.world.meters[mid]? = some m ∧
      m.cold + m.warm = c.stats.interpreted + f.executions false calls ∧
      m.compiled = c.stats.compiled ∧
      m.warm = m.promotions ∧ m.promotions = c.stats.promotions ∧
      c.stats.interpreted + c.stats.compiled = f.executions true calls) ∧
    ∀ (k : Fin n) (c : Call),
      let w := (Act.outcome (call k c) g).2.world
      (c.program? = none → w.caches = g.world.caches ∧ w.meters = g.world.meters) ∧
      (c.program? ≠ none → (f.engines.get k).tiered = false → w.caches = g.world.caches ∧
        w.meters = g.world.meters.modify mid fun m => { m with cold := m.cold + 1 }) := by
  intro g
  have hstart : Counts f id mid 0 0 f :=
    ⟨fun k => ⟨_, _, rfl⟩, _, _, hcache, Cache.sound_new digest threshold, hmeter, .new _ _ _⟩
  have hcounts : Counts f id mid (f.executions true calls) (f.executions false calls) g := by
    simpa using hstart.run hengines calls
  refine ⟨?_, fun k c => ⟨hcounts.call_none, ?_⟩⟩
  · obtain ⟨c, m, hc, -, hm, hagrees⟩ := hcounts.numbers
    exact ⟨c, m, hc, hm, hagrees.interpreted, hagrees.compiled, hagrees.promoted,
      hagrees.promotions, hagrees.total⟩
  · intro hsome htiered
    obtain ⟨p, hp⟩ := Option.ne_none_iff_exists'.1 hsome
    exact hcounts.call_untiered (hengines k) htiered hp

/-- Three engines with one meter: the first crashes on its second value, the second fails on its
first, and the third, which is untiered, has no outlet at all. -/
def trio : Fleet 3 :=
  let first : Engine :=
    { Engine.blank with
      tiered := true, cache := some 0, meter := some 0, outlet := .sink 0, symbols := .default }
  let crashing : List Text → SinkReply := fun values =>
    if values.length ≤ 1 then .done else .crash (.number 7)
  ⟨#v[first, { first with outlet := .sink 1 }, { first with tiered := false, outlet := .absent }],
    ⟨#[], #[⟨⟨"crashing", crashing⟩, []⟩, ⟨⟨"failing", fun _ => .fail .shortWrite⟩, []⟩], #[]⟩,
    #[.new (fun _ => 0) 0], #[.new true]⟩

/-- The first engine promotes the program and then crashes with the artifact, the second one fails
with it, the third one crashes, and a source that closes what was never opened is not executed. -/
theorem meter_agrees_trio :
    let p : Program := [.print ⟨0⟩]
    let unopened : Source := .ofText (Text.ofString "end")
    let calls : List (Fin 3 × Call) :=
      [(0, .program p), (0, .program p), (1, .program p), (2, .program p), (1, .source unopened)]
    trio.world.caches[0]? = some (Cache.new (fun _ => 0) 0) ∧
      trio.world.meters[0]? = some (Meter.new true) ∧
      (∀ k : Fin 3, (trio.engines.get k).Shares 0 0) ∧
      (trio.executions true calls = 3 ∧ trio.executions false calls = 1) ∧
      ∃ (c : Cache) (m : Meter), (trio.after calls).world.caches[0]? = some c ∧
        (trio.after calls).world.meters[0]? = some m ∧
        m.cold + m.warm = c.stats.interpreted + 1 ∧ m.compiled = c.stats.compiled ∧
        m.warm = m.promotions ∧ m.promotions = c.stats.promotions ∧
        c.stats.interpreted + c.stats.compiled = 3 := by
  intro p unopened calls
  have hengines : ∀ k : Fin 3, (trio.engines.get k).Shares 0 0 := by
    intro k
    match k with
    | 0 => exact ⟨rfl, fun _ => rfl⟩
    | 1 => exact ⟨rfl, fun _ => rfl⟩
    | 2 => exact ⟨rfl, fun h => by cases h⟩
  have hnone : (Call.source unopened).program? = none := by decide +kernel
  have hcount : ∀ tiered, trio.executions tiered calls =
      trio.executions tiered
        [(0, .program p), (0, .program p), (1, .program p), (2, .program p)] := by
    intro tiered
    simp [executions, calls, List.countP_cons, hnone]
  have htiered : trio.executions true calls = 3 := by
    rw [hcount]
    rfl
  have huntiered : trio.executions false calls = 1 := by
    rw [hcount]
    rfl
  have hcache : trio.world.caches[0]? = some (Cache.new (fun _ => 0) 0) := rfl
  have hmeter : trio.world.meters[0]? = some (Meter.new true) := rfl
  obtain ⟨hnumbers, -⟩ := meter_agrees trio 0 0 (fun _ => 0) 0 true hcache hmeter hengines calls
  refine ⟨hcache, hmeter, hengines, ⟨htiered, huntiered⟩, ?_⟩
  rw [htiered, huntiered] at hnumbers
  exact hnumbers

end Fleet
end Birdcall
