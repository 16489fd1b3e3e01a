import Birdcall.Proofs.Cache
import Birdcall.Proofs.Quiet

/-!
# Tiering cannot be seen

A tiered engine asks its cache how to execute a program, and an untiered one interprets it.  Both
print the same values in the same order and end in the same way, whatever the cache has seen before
and from which engines.

* Twins.  `Machine.Twins` relates the machine of a tiered engine to that of the same engine made
  untiered, and does not look at logs and counts.  `matches_exec` takes them through an execution.
* Fleets.  Engines that share a world take turns.  `Fleet.matches_exec` is one turn, and
  `Fleet.tiering_transparent` is about whole histories.
-/

namespace Birdcall

/-! ## Twins -/

/-- An engine `e` that came from `base` by executing programs, and an untiered engine `e'` that
prints the same values to the same places. -/
structure Engine.Twins (base e e' : Engine) : Prop where
  setup : ∃ l pending, e = { base with log := l, pending := pending }
  untiered : e'.tiered = false
  out_eq : e.out = e'.out
  pending_eq : e.pending = e'.pending
  outlet_eq : e.outlet = e'.outlet
  symbols_eq : e.symbols = e'.symbols
  returns : e.log.Returns
  returns' : e'.log.Returns

namespace Engine.Twins

variable {base e e' : Engine}

theorem tiered_eq (h : base.Twins e e') : e.tiered = base.tiered := by
  obtain ⟨l, pending, rfl⟩ := h.setup
  rfl

theorem cache_eq (h : base.Twins e e') : e.cache = base.cache := by
  obtain ⟨l, pending, rfl⟩ := h.setup
  rfl

theorem set_log_left (h : base.Twins e e') {l : Log} (hl : l.Returns) :
    base.Twins { e with log := l } e' := by
  obtain ⟨_, pending, rfl⟩ := h.setup
  exact { h with setup := ⟨l, pending, rfl⟩, returns := hl }

theorem set_log_right (h : base.Twins e e') {l : Log} (hl : l.Returns) :
    base.Twins e { e' with log := l } :=
  { h with returns' := hl }

theorem set_pending (h : base.Twins e e') (error : Option Error) :
    base.Twins { e with pending := error } { e' with pending := error } := by
  obtain ⟨l, _, rfl⟩ := h.setup
  exact { h with setup := ⟨l, error, rfl⟩, pending_eq := rfl }

/-- An engine that came from `base` is a twin of itself made untiered, whatever cache and meter it
has then. -/
theorem self (hsetup : ∃ l pending, e = { base with log := l, pending := pending })
    (hreturns : e.log.Returns) (cache meter : Option Nat) :
    base.Twins e { e with tiered := false, cache := cache, meter := meter } :=
  ⟨hsetup, rfl, rfl, rfl, rfl, rfl, hreturns, hreturns⟩

end Engine.Twins

/-- Two worlds that differ in what was logged, counted and looked up; the cache `id` is sound. -/
structure World.Twins (id : Nat) (w w' : World) : Prop where
  cache : ∃ c, w.caches[id]? = some c ∧ c.Sound
  alike : w.outside.Alike w'.outside

namespace Machine

/-- A machine of a tiered engine and one of the same engine made untiered. -/
structure Twins (base : Engine) (id : Nat) (m m' : Machine) : Prop where
  engine : base.Twins m.engine m'.engine
  world : World.Twins id m.world m'.world

section Matches

variable {base : Engine} {id : Nat} {α : Type}

theorem tolerant_twins : Tolerant (Twins base id) where
  returns h := ⟨h.engine.returns, h.engine.returns'⟩
  left h hl halike _ :=
    ⟨h.engine.set_log_left hl, h.world.cache, halike.trans h.world.alike⟩
  right h hl halike _ :=
    ⟨h.engine.set_log_right hl, h.world.cache, h.world.alike.trans halike.symm⟩

theorem matches_outside {a : Act Outside α} (h : Outside.Blind a) :
    Act.Matches (Twins base id) (outside a) (outside a) := by
  intro ⟨e, o, caches, meters⟩ ⟨e', o', caches', meters'⟩ ⟨hengine, hcache, halike⟩
  obtain ⟨hend, halike⟩ := h o o' halike
  rw [outcome_outside, outcome_outside]
  exact ⟨hend, hengine, hcache, halike⟩

theorem matches_printValue (value : Text) :
    Act.Matches (Twins base id) (printValue value) (printValue value) :=
  matches_printValue_of Outside.unseen_alike (fun h => h.engine.outlet_eq) matches_outside value

/-- A symbol prints the same value, since both engines have the same symbols. -/
theorem matches_emit (s : Symbol) : Act.Matches (Twins base id) (emit s) (emit s) :=
  matches_emit_of (fun h => h.engine.symbols_eq) matches_printValue s

theorem matches_flush : Act.Matches (Twins base id) flush flush := by
  refine .get_bind fun m m' ⟨hengine, _⟩ => ?_
  simp only [hengine.out_eq, hengine.pending_eq]
  refine .bind (.modify fun m m' ⟨hengine, hworld⟩ => ?_) fun _ => ?_
  · exact ⟨hengine.set_pending none, hworld⟩
  · exact (matches_outside (Outside.unseen_alike.matches_outputFlush _)).bind fun _ => .pure _

/-- Using the cache leaves twins as they are, as long as the cache stays sound. -/
theorem Twins.setCache {m m' : Machine} (h : Twins base id m m') {c : Cache} (hc : c.Sound) :
    Twins base id (m.setCache id c) m' := by
  obtain ⟨c₀, hc₀, _⟩ := h.world.cache
  exact ⟨h.engine, ⟨c, setCache_getElem? hc₀ c, hc⟩, h.world.alike⟩

/-- An execution of a tiered engine matches one of the engine made untiered. -/
theorem matches_exec (htiered : base.tiered = true) (hid : base.cache = some id) (p : Program) :
    Act.Matches (Twins base id) (exec p) (exec p) := by
  refine .lastly (fun m m' h => ?_) matches_flush
  have htiered := h.engine.tiered_eq.trans htiered
  have hid := h.engine.cache_eq.trans hid
  -- On the left the program is looked up and entered; on the right nothing of this happens.
  obtain ⟨c, hc, hsound⟩ := h.world.cache
  obtain ⟨e, he, hprogram⟩ := c.lookup_spec p
  obtain ⟨a, c', henter, hsound', hartifact⟩ := (hsound.lookup p).enter he
  rw [hprogram] at hartifact
  rw [Act.outcome_bind, Act.outcome_bind, outcome_find htiered hid hc,
    outcome_find_untiered h.engine.untiered]
  simp only
  rw [outcome_proceed (m := m.setCache id _) hid (setCache_getElem? hc _) henter]
  exact matches_perform tolerant_twins matches_emit hartifact _ _
    ((h.setCache (hsound.lookup p)).setCache hsound')

end Matches
end Machine

/-! ## Fleets -/

/-- The engine is tiered, uses the cache `id`, and has a log that leads to nothing further. -/
structure Engine.Uses (e : Engine) (id : Nat) : Prop where
  tiered : e.tiered = true
  cache : e.cache = some id
  returns : e.log.Returns

/-- Engines that share a world. -/
structure Fleet (n : Nat) where
  engines : Vector Engine n
  world : World

namespace Fleet

variable {n : Nat}

/-- Lets one engine execute a program. -/
def exec (k : Fin n) (p : Program) : Act (Fleet n) Unit :=
  Act.on
    (fun f => (⟨f.engines[k], f.world⟩, fun m => ⟨f.engines.set k m.engine, m.world⟩))
    (Machine.exec p)

/-- Lets engines execute programs in turn, however each execution ends: how they end, and the fleet
afterwards. -/
def run (calls : List (Fin n × Program)) (f : Fleet n) : List (Except Stop Unit) × Fleet n :=
  Act.series (fun (k, p) => exec k p) calls f

/-- The fleet with no engine tiered. -/
def untiered (f : Fleet n) : Fleet n :=
  { f with engines := f.engines.map ({ · with tiered := false }) }

/-- A fleet that came from `base` by executing programs, and one that is untiered. -/
structure Twins (base : Fleet n) (id : Nat) (f f' : Fleet n) : Prop where
  engines : ∀ k : Fin n, base.engines[k].Twins f.engines[k] f'.engines[k]
  world : World.Twins id f.world f'.world

/-- A fleet with a new cache and the fleet made untiered are twins. -/
theorem twins_untiered {f : Fleet n} {id : Nat} {digest : Program → UInt64} {threshold : Int}
    (hcache : f.world.caches[id]? = some (.new digest threshold))
    (hengines : ∀ k : Fin n, f.engines[k].Uses id) : Twins f id f f.untiered := by
  refine ⟨fun k => ?_, ⟨_, hcache, Cache.sound_new digest threshold⟩, .refl _⟩
  have hk : f.untiered.engines[k] = { f.engines[k] with tiered := false } := by
    simp [untiered]
  rw [hk]
  exact .self ⟨_, _, rfl⟩ (hengines k).returns _ _

/-- One turn matches the same turn with no engine tiered. -/
theorem matches_exec {base : Fleet n} {id : Nat} (hbase : ∀ k : Fin n, base.engines[k].Uses id)
    (k : Fin n) (p : Program) : Act.Matches (Twins base id) (exec k p) (exec k p) := by
  intro f f' h
  obtain ⟨hend, hengine, hworld⟩ := Machine.matches_exec (hbase k).tiered (hbase k).cache p
    ⟨f.engines[k], f.world⟩ ⟨f'.engines[k], f'.world⟩ ⟨h.engines k, h.world⟩
  rw [exec, Act.outcome_on, Act.outcome_on]
  refine ⟨hend, fun j => ?_, hworld⟩
  by_cases hj : k = j
  · subst hj
    simpa using hengine
  · have hne : k.val ≠ j.val := fun heq => hj (Fin.ext heq)
    simpa [hne] using h.engines j

/-- No history of calls tells a tiered fleet from an untiered one.

The engines share a cache that was new at first, with any digest and any threshold, and have carried
out any calls.  These calls ended as they would have untiered, and did the same to the outside, log
lines apart.  So does the next call, of any engine `k`: with the symbols and the outlet it always
had, it ends as an untiered engine with these does, and prints the same values in the same order. -/
theorem tiering_transparent (f : Fleet n) (id : Nat) (digest : Program → UInt64) (threshold : Int)
    (hcache : f.world.caches[id]? = some (.new digest threshold))
    (hengines : ∀ k : Fin n, f.engines[k].Uses id) (calls : List (Fin n × Program)) (k : Fin n)
    (p : Program) (cache meter : Option Nat) :
    let g := (run calls f).2
    let g' := (run calls f.untiered).2
    let e := g.engines[k]
    let tiered := Act.outcome (Machine.exec p) ⟨e, g.world⟩
    let untiered := Act.outcome (Machine.exec p)
      ⟨{ e with tiered := false, cache := cache, meter := meter }, g.world⟩
    ((run calls f).1 = (run calls f.untiered).1 ∧ g.world.outside.Alike g'.world.outside) ∧
      (e.symbols = f.engines[k].symbols ∧ e.outlet = f.engines[k].outlet) ∧
      tiered.1 = untiered.1 ∧ tiered.2.world.outside.Alike untiered.2.world.outside := by
  intro g g' e tiered untiered
  obtain ⟨hends, hengine, hworld⟩ :=
    Act.Matches.series (fun c : Fin n × Program => matches_exec hengines c.1 c.2) calls
      (twins_untiered hcache hengines)
  -- After the calls the engine is a twin of itself made untiered, in one and the same world.
  have hsetup := (hengine k).setup
  have htwins : Machine.Twins f.engines[k] id ⟨e, g.world⟩
      ⟨{ e with tiered := false, cache := cache, meter := meter }, g.world⟩ :=
    ⟨.self hsetup (hengine k).returns cache meter, hworld.cache, .refl _⟩
  obtain ⟨hend, _, halike⟩ :=
    Machine.matches_exec (hengines k).tiered (hengines k).cache p _ _ htwins
  refine ⟨⟨hends, hworld.alike⟩, ?_, hend, halike.alike⟩
  obtain ⟨l, pending, heq⟩ := hsetup
  have he : e = { f.engines[k] with log := l, pending := pending } := heq
  rw [he]
  exact ⟨rfl, rfl⟩

/-- Two engines, each with its own words for the symbols and its own sink.  The second sink takes
one value and fails from then on. -/
def duo : Fleet 2 :=
  let first : Engine :=
    { Engine.blank with tiered := true, cache := some 0, outlet := .sink 0, symbols := .default }
  let second : Engine := { first with outlet := .sink 1, symbols := ⟨[1], [2], [3], [4]⟩ }
  let full : List Text → SinkReply := fun values =>
    if values.length ≤ 1 then .done else .fail .shortWrite
  ⟨#v[first, second],
    ⟨#[], #[⟨⟨"first", fun _ => .done⟩, []⟩, ⟨⟨"second", full⟩, []⟩], #[]⟩,
    #[.new (fun _ => 0) 0], #[]⟩

/-- The cache has promoted `p` for the first engine, and the second one runs its artifact, now into
a sink that fails.  The program `q` is filed under the same digest. -/
theorem tiering_transparent_duo :
    let p : Program := [.print ⟨0⟩]
    let q : Program := [.run [102]]
    let calls : List (Fin 2 × Program) := [(0, p), (0, q), (1, p)]
    let g := (run calls duo).2
    let g' := (run calls duo.untiered).2
    let e := g.engines[(1 : Fin 2)]
    let tiered := Act.outcome (Machine.exec p) ⟨e, g.world⟩
    let untiered := Act.outcome (Machine.exec p)
      ⟨{ e with tiered := false, cache := none, meter := none }, g.world⟩
    (duo.world.caches[0]? = some (.new (fun _ => 0) 0) ∧ ∀ k : Fin 2, duo.engines[k].Uses 0) ∧
    ((run calls duo).1 = (run calls duo.untiered).1 ∧ g.world.outside.Alike g'.world.outside) ∧
      (e.symbols = ⟨[1], [2], [3], [4]⟩ ∧ e.outlet = .sink 1) ∧
      tiered.1 = untiered.1 ∧ tiered.2.world.outside.Alike untiered.2.world.outside := by
  have hengines : ∀ k : Fin 2, duo.engines[k].Uses 0 := by
    intro k
    match k with
    | 0 => exact ⟨rfl, rfl, fun _ h => nomatch h⟩
    | 1 => exact ⟨rfl, rfl, fun _ h => nomatch h⟩
  exact ⟨⟨rfl, hengines⟩, tiering_transparent duo 0 (fun _ => 0) 0 rfl hengines _ 1 _ none none⟩

end Fleet
end Birdcall
