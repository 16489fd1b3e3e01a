import Birdcall.Proofs.Combining
import Birdcall.Proofs.Fanout
import Birdcall.Proofs.Quiet

/-!
# Making engines

An engine is made by applying settings one after the other, and what is said here of an engine in
the making is said in terms of the settings so far.

* Targets become devices, numbered in order (`Output.outcome_ofTarget`).
* An output that is replaced is flushed.  Its devices were never written to, so nothing comes of it
  but the error of a writer that cannot be flushed, and the line that a log may have held
  (`Output.ensures_flush_row`).
* `Machine.Tuned` is about the values that settings give: the last one counts.  `Machine.Rigged` is
  about what is printed and where it goes.  Each is kept by a setting, and so by all of them.
-/

namespace Birdcall

/-! ## Targets -/

namespace Target

mutual

/-- The devices that a target becomes, in order. -/
def devices : Target → List Device
  | absent | discard => []
  | writer w => [.pipe (.ofWriter w)]
  | lineLog l => [.lineLog l]
  | several targets => devicesOfAll targets

def devicesOfAll : List Target → List Device
  | [] => []
  | t :: rest => t.devices ++ devicesOfAll rest

end

/-- What can be closed is a single device. -/
theorem devices_of_closes {t : Target} (h : t.closes = true) : ∃ d, t.devices = [d] := by
  cases t with
  | writer w => exact ⟨_, rfl⟩
  | lineLog l => exact ⟨_, rfl⟩
  | absent | discard | several => cases h

end Target

namespace Output

mutual

theorem outcome_ofTarget : ∀ (t : Target) (o : Outside),
    Act.outcome (ofTarget t) o =
      (.ok (ofDevices (List.range' o.devices.size t.devices.length)),
        { o with devices := o.devices ++ t.devices.toArray })
  | .absent, o => by simp [ofTarget, Target.devices, ofDevices]
  | .discard, o => by simp [ofTarget, Target.devices, ofDevices]
  | .writer w, o => by
    show (_, { o with devices := o.devices.push _ }) = _
    rw [Array.push_eq_append]
    rfl
  | .lineLog l, o => by
    show (_, { o with devices := o.devices.push _ }) = _
    rw [Array.push_eq_append]
    rfl
  | .several targets, o => by
    obtain ⟨outputs, hall, houtputs⟩ := outcome_ofTargets targets o
    rw [ofTarget, Act.outcome_bind, hall, Target.devices, ← houtputs]
    rfl

theorem outcome_ofTargets : ∀ (targets : List Target) (o : Outside),
    ∃ outputs, Act.outcome (ofTargets targets) o =
      (.ok outputs, { o with devices := o.devices ++ (Target.devicesOfAll targets).toArray }) ∧
      outputs.flatMap devices? =
        List.range' o.devices.size (Target.devicesOfAll targets).length
  | [], o => ⟨[], by simp [ofTargets, Target.devicesOfAll], rfl⟩
  | t :: rest, o => by
    obtain ⟨outputs, hrest, houtputs⟩ :=
      outcome_ofTargets rest { o with devices := o.devices ++ t.devices.toArray }
    refine ⟨some (ofDevices (List.range' o.devices.size t.devices.length)) :: outputs, ?_, ?_⟩
    · rw [ofTargets, Act.outcome_bind, outcome_ofTarget t o]
      simp only
      rw [Act.outcome_bind, hrest]
      simp [Target.devicesOfAll]
    · have hsize : (o.devices ++ t.devices.toArray).size = o.devices.size + t.devices.length := by
        simp
      rw [List.flatMap_cons, houtputs]
      show (ofDevices _).devices ++ List.range' (o.devices ++ t.devices.toArray).size _ = _
      rw [devices_ofDevices, hsize, List.range'_append_1, Target.devicesOfAll, List.length_append]

end

end Output

/-! ## Outputs that are replaced -/

namespace Device

/-- The error that flushing a device gives. -/
def fault : Device → Option Error
  | pipe p => p.flush.error
  | lineLog _ => none

/-- A device that was flushed. -/
def flushed : Device → Device
  | pipe p => .pipe p.flush.pipe
  | lineLog l => .lineLog { l with held := [] }

/-- The device holds something, and logging that may not return. -/
def Escapes : Device → Prop
  | pipe _ => False
  | lineLog l => l.held ≠ [] ∧ ¬ l.Returns

theorem make_flushed (d : Device) : d.flushed.make = d.make := by
  cases d with
  | pipe p => exact p.make_flush
  | lineLog l => rfl

end Device

namespace Outside

/-- The devices and sinks that there are. -/
structure Stock (devices : List Device) (sinks : Array SinkState) (o : Outside) : Prop where
  devices : o.devices.toList = devices
  sinks : o.sinks = sinks

variable {devices : List Device} {sinks : Array SinkState} {E : Outside → Prop}

theorem ensures_record (e : Event) :
    Act.Ensures (Stock devices sinks) (record e) (fun _ => Stock devices sinks) E := by
  intro o h
  exact ⟨h.devices, h.sinks⟩

theorem ensures_forM_record (events : List Event) :
    Act.Ensures (Stock devices sinks) (events.forM record) (fun _ => Stock devices sinks) E := by
  induction events with
  | nil => exact .pure fun _ h => h
  | cons e events ih => exact .bind (ensures_record e) fun _ => ih

theorem ensures_setDevice (id : Nat) (d : Device) :
    Act.Ensures (Stock devices sinks) (setDevice id d) (fun _ => Stock (devices.set id d) sinks)
      E := by
  intro o h
  refine ⟨?_, h.sinks⟩
  show (o.devices.setIfInBounds id d).toList = _
  rw [Array.toList_setIfInBounds, h.devices]

theorem ensures_logLine (l : LineLog) (line : Text) :
    Act.Ensures (Stock devices sinks) (l.logLine line) (fun _ => Stock devices sinks)
      (fun _ => ¬ l.Returns) := by
  rw [LineLog.logLine]
  cases hchannel : l.channel with
  | none => exact .pure fun _ h => h
  | some c =>
    refine .bind (ensures_record _) fun _ => ?_
    cases hreply : c.reply (l.heading ++ line) with
    | done => exact .pure fun _ h => h
    | crash | exit =>
      refine .throw fun _ _ hreturns => ?_
      rw [hreturns c hchannel] at hreply
      cases hreply

/-- A log that writes out all that it holds is left with nothing. -/
theorem ensures_drain (id : Nat) (l : LineLog) (held : Text) :
    Act.Ensures (Stock devices sinks) (l.drain id true held)
      (fun _ => Stock (devices.set id (.lineLog { l with held := [] })) sinks)
      (fun _ => held ≠ [] ∧ ¬ l.Returns) := by
  generalize hall : true = all
  fun_induction LineLog.drain l id all held generalizing devices with
  | case1 held line rest hsplit ih =>
    have hheld : held ≠ [] := by
      rintro rfl
      cases hsplit
    have hlast := @ih (devices.set id (.lineLog { l with held := Text.lineFeed :: rest }))
    rw [List.set_set] at hlast
    refine .bind (ensures_setDevice id _) fun _ => .bind ?_ fun _ =>
      hlast.imp (fun _ h => h) (fun _ _ h => h) fun _ h => ⟨hheld, h.2⟩
    exact (ensures_logLine l line).imp (fun _ h => h) (fun _ _ h => h) fun _ h => ⟨hheld, h⟩
  | case2 held line hsplit hsome =>
    have hheld : held ≠ [] := by
      rintro rfl
      simp at hsome
    refine .bind (ensures_setDevice id _) fun _ => ?_
    exact (ensures_logLine l held).imp (fun _ h => h) (fun _ _ h => h) fun _ h => ⟨hheld, h⟩
  | case3 held line hsplit hnone =>
    obtain rfl : held = [] := by simpa [← hall] using hnone
    exact ensures_setDevice id _

theorem ensures_settle (id : Nat) (d : Pipe.Done) :
    Act.Ensures (Stock devices sinks) (settle id d)
      (fun x o => x = (d.taken, d.error) ∧ Stock (devices.set id (.pipe d.pipe)) sinks o) E :=
  .bind (ensures_setDevice id _) fun _ => .bind (ensures_forM_record _) fun _ =>
    .pure fun _ h => ⟨rfl, h⟩

theorem ensures_flush {id : Nat} {d : Device} (h : devices[id]? = some d) :
    Act.Ensures (Stock devices sinks) (flush id)
      (fun error o => error = d.fault ∧ Stock (devices.set id d.flushed) sinks o)
      (fun _ => d.Escapes) := by
  refine .get_bind fun o ho => ?_
  have hd : o.devices[id]? = some d := by
    rw [← Array.getElem?_toList, ho.devices, h]
  rw [hd]
  cases d with
  | pipe p =>
    exact .bind (ensures_settle id p.flush) fun x => .given fun hx => .pure fun _ h =>
      ⟨congrArg Prod.snd hx, h⟩
  | lineLog l => exact .bind (ensures_drain id l l.held) fun _ => .pure fun _ h => ⟨rfl, h⟩

end Outside

/-- Flushing devices that stand in a row. -/
theorem Output.ensures_flushAll_row (sinks : Array SinkState) (front used : List Device) :
    Act.Ensures (Outside.Stock (front ++ used) sinks)
      (flushAll (List.range' front.length used.length))
      (fun error o => error = used.findSome? Device.fault ∧
        Outside.Stock (front ++ used.map Device.flushed) sinks o)
      (fun _ => ∃ d ∈ used, d.Escapes) := by
  induction used generalizing front with
  | nil => exact .pure fun _ h => ⟨rfl, by simpa using h⟩
  | cons d used ih =>
    have hd : (front ++ d :: used)[front.length]? = some d := by simp
    have hset : (front ++ d :: used).set front.length d.flushed =
        (front ++ [d.flushed]) ++ used := by simp
    have hrest := ih (front ++ [d.flushed])
    rw [List.length_append, List.length_singleton, ← hset] at hrest
    have hfirst : (d :: used).findSome? Device.fault =
        d.fault.or (used.findSome? Device.fault) := by
      rw [List.findSome?_cons]
      cases d.fault <;> rfl
    rw [List.length_cons, List.range'_succ, flushAll, hfirst]
    refine .bind ((Outside.ensures_flush hd).imp (fun _ h => h) (fun _ _ h => h) fun _ h =>
      ⟨d, List.mem_cons_self, h⟩) fun error => .given fun herror => ?_
    refine .bind (hrest.imp (fun _ h => h) (fun _ _ h => h) fun _ h => ?_) fun later =>
      .given fun hlater => .pure fun o h => ⟨by rw [herror, hlater], ?_⟩
    · obtain ⟨d', hd', hescapes⟩ := h
      exact ⟨d', List.mem_cons_of_mem _ hd', hescapes⟩
    · rw [List.map_cons, List.append_cons]
      exact h

/-- Flushing an output whose devices are the last ones there are. -/
theorem Output.ensures_flush_row (sinks : Array SinkState) (front used : List Device) :
    Act.Ensures (Outside.Stock (front ++ used) sinks)
      (ofDevices (List.range' front.length used.length)).flush
      (fun error o => error = used.findSome? Device.fault ∧
        Outside.Stock (front ++ used.map Device.flushed) sinks o)
      (fun _ => ∃ d ∈ used, d.Escapes) := by
  rw [flush_eq, devices_ofDevices]
  exact ensures_flushAll_row sinks front used

/-- Making an output of a target adds its devices. -/
theorem Output.ensures_ofTarget {devices : List Device} {sinks : Array SinkState}
    {E : Outside → Prop} (t : Target) :
    Act.Ensures (Outside.Stock devices sinks) (ofTarget t)
      (fun out o => out = ofDevices (List.range' devices.length t.devices.length) ∧
        Outside.Stock (devices ++ t.devices) sinks o) E := by
  intro o h
  have hsize : o.devices.size = devices.length := by
    rw [← h.devices, Array.length_toList]
  rw [outcome_ofTarget t o]
  refine ⟨by rw [hsize], ?_, h.sinks⟩
  show (o.devices ++ t.devices.toArray).toList = _
  simp [h.devices]

/-! ## Settings -/

namespace Setting

/-- The threshold that a setting gives, and so on for the other values. -/
def threshold? : Setting → Option Int
  | config c => some c.threshold
  | threshold n => some n
  | _ => none

def tiering? : Setting → Option Bool
  | config c => some c.tiered
  | tiering enabled => some enabled
  | _ => none

def symbols? : Setting → Option SymbolTable
  | config c => some c.symbols
  | symbols t => some t
  | _ => none

def cache? : Setting → Option (Option Nat)
  | cache id => some id
  | _ => none

def meter? : Setting → Option (Option Nat)
  | meter id => some id
  | _ => none

def channel? : Setting → Option (Option Channel)
  | log c => some c
  | _ => none

/-- The target that replaces the output. -/
def output? : Setting → Option Target
  | output t => some t
  | _ => none

/-- The target that is added to the output. -/
def added? : Setting → Option Target
  | tee t => some t
  | _ => none

/-- The target that a setting brings in, one way or the other. -/
def target? : Setting → Option Target
  | output t | tee t => some t
  | _ => none

/-- Whether a setting says where printed values go. -/
def routes : Setting → Bool
  | output _ | tee _ | sink _ => true
  | _ => false

/-- What the last of some settings gives that gives anything. -/
def last {α : Type} (f : Setting → Option α) (settings : List Setting) : Option α :=
  (settings.filterMap f).getLast?

theorem last_concat {α : Type} (f : Setting → Option α) (settings : List Setting) (s : Setting) :
    last f (settings ++ [s]) = (f s).or (last f settings) := by
  rw [last, List.filterMap_append, List.getLast?_append]
  cases hs : f s <;> simp [hs, last]

/-- The engine that a setting makes of another one, as far as values go. -/
structure Sets (s : Setting) (e e' : Engine) : Prop where
  threshold : e'.threshold = s.threshold?.getD e.threshold
  tiered : e'.tiered = s.tiering?.getD e.tiered
  symbols : e'.symbols = s.symbols?.getD e.symbols
  cache : e'.cache = s.cache?.getD e.cache
  meter : e'.meter = s.meter?.getD e.meter
  log : e.log.headings = [] → e'.log = { e.log with channel := s.channel?.getD e.log.channel }

end Setting

namespace Machine

/-- The values of an engine in the making. -/
structure Tuned (start : World) (done : List Setting) (m : Machine) : Prop where
  threshold : some m.engine.threshold = Setting.last Setting.threshold? done
  tiered : some m.engine.tiered = Setting.last Setting.tiering? done
  symbols : some m.engine.symbols = Setting.last Setting.symbols? done
  cache : m.engine.cache = (Setting.last Setting.cache? done).join
  meter : m.engine.meter = (Setting.last Setting.meter? done).join
  log : m.engine.log = ⟨(Setting.last Setting.channel? done).join, [], 0⟩
  caches : m.world.caches = start.caches
  meters : m.world.meters = start.meters

section Tuned

variable {start : World} {done : List Setting}

/-- A setting gives the values that it is for, and leaves the others. -/
theorem Tuned.concat {m : Machine} (h : Tuned start done m) {s : Setting} {e : Engine}
    (hs : s.Sets m.engine e) : Tuned start (done ++ [s]) ⟨e, m.world⟩ := by
  have hsome : ∀ {α : Type} {x : Option α} {y : α} {l : Option α}, some y = l →
      some (x.getD y) = x.or l := by
    intro α x y l hl
    cases x <;> simp [hl]
  have hjoin : ∀ {α : Type} {x : Option (Option α)} {y : Option α} {l : Option (Option α)},
      y = l.join → x.getD y = (x.or l).join := by
    intro α x y l hl
    cases x <;> simp [hl]
  have hlog := h.log
  refine ⟨?_, ?_, ?_, ?_, ?_, ?_, h.caches, h.meters⟩
  all_goals rw [Setting.last_concat]
  · exact hs.threshold ▸ hsome h.threshold
  · exact hs.tiered ▸ hsome h.tiered
  · exact hs.symbols ▸ hsome h.symbols
  · exact hs.cache ▸ hjoin h.cache
  · exact hs.meter ▸ hjoin h.meter
  · show e.log = _
    rw [hs.log (by rw [hlog]), ← hjoin rfl, hlog]

theorem tuned_outside {α : Type} (a : Act Outside α) :
    Act.Ensures (Tuned start done) (outside a) (fun _ => Tuned start done) (fun _ => True) := by
  refine (Act.leads_of_outcome (Q := Tuned start done) fun m h => ?_).imp
    (fun _ h => h) (fun _ _ h => h) (fun _ _ => trivial)
  obtain ⟨engine, o, _, _⟩ := m
  rw [outcome_outside]
  exact ⟨h.threshold, h.tiered, h.symbols, h.cache, h.meter, h.log, h.caches, h.meters⟩

theorem tuned_change {s : Setting} {f : Engine → Engine} (hs : ∀ e, s.Sets e (f e)) :
    Act.Ensures (Tuned start done) (change f) (fun _ => Tuned start (done ++ [s]))
      (fun _ => True) :=
  .modify fun m h => h.concat (hs m.engine)

theorem tuned_apply (s : Setting) :
    Act.Ensures (Tuned start done) s.apply (fun _ => Tuned start (done ++ [s]))
      (fun _ => True) := by
  cases s with
  | config | threshold | tiering | symbols | cache | meter =>
    rw [Setting.apply]
    refine tuned_change fun _ => ?_
    exact ⟨rfl, rfl, rfl, rfl, rfl, fun _ => rfl⟩
  | log c =>
    rw [Setting.apply]
    refine tuned_change fun e => ?_
    exact ⟨rfl, rfl, rfl, rfl, rfl, fun hheadings => by simp [Setting.channel?, hheadings]⟩
  | output t =>
    refine .get_bind fun _ _ => .bind (tuned_outside _) fun _ => .bind (tuned_outside _) fun _ =>
      tuned_change fun _ => ?_
    exact ⟨rfl, rfl, rfl, rfl, rfl, fun _ => rfl⟩
  | tee t =>
    refine .get_bind fun _ _ => .bind (tuned_outside _) fun _ => tuned_change fun _ => ?_
    exact ⟨rfl, rfl, rfl, rfl, rfl, fun _ => rfl⟩
  | sink s =>
    cases s with
    | none =>
      rw [Setting.apply]
      refine tuned_change fun _ => ?_
      exact ⟨rfl, rfl, rfl, rfl, rfl, fun _ => rfl⟩
    | some s =>
      refine .bind (tuned_outside _) fun _ => tuned_change fun _ => ?_
      exact ⟨rfl, rfl, rfl, rfl, rfl, fun _ => rfl⟩

end Tuned

/-! ## Outputs and sinks -/

end Machine

namespace Setting

/-- The devices of all targets that settings bring in, in order. -/
def devices (settings : List Setting) : List Device :=
  (settings.filterMap target?).flatMap Target.devices

theorem devices_append (settings settings' : List Setting) :
    devices (settings ++ settings') = devices settings ++ devices settings' := by
  rw [devices, List.filterMap_append, List.flatMap_append]
  rfl

/-- The last output among some settings. -/
structure LastOutput (settings before : List Setting) (t : Target) (after : List Setting) :
    Prop where
  eq : settings = before ++ .output t :: after
  last : ∀ s ∈ after, s.output? = none

theorem LastOutput.concat {settings before after : List Setting} {t : Target}
    (h : LastOutput settings before t after) {s : Setting} (hs : s.output? = none) :
    LastOutput (settings ++ [s]) before t (after ++ [s]) := by
  refine ⟨by rw [h.eq, List.append_assoc, List.cons_append], fun s' hs' => ?_⟩
  rcases List.mem_append.1 hs' with hs' | hs'
  · exact h.last s' hs'
  · rw [List.mem_singleton.1 hs', hs]

theorem LastOutput.devices_eq {settings before after : List Setting} {t : Target}
    (h : LastOutput settings before t after) :
    devices settings = devices before ++ devices (.output t :: after) := by
  rw [h.eq, devices_append]

/-- An output puts a log aside, and logging what it holds may not return. -/
def Escapes (settings : List Setting) : Prop :=
  ∃ before t after, settings = before ++ .output t :: after ∧ ∃ d ∈ devices before, d.Escapes

theorem Escapes.append {settings : List Setting} (h : Escapes settings)
    (settings' : List Setting) : Escapes (settings ++ settings') := by
  obtain ⟨before, t, after, rfl, hescapes⟩ := h
  exact ⟨before, t, after ++ settings', by simp, hescapes⟩

end Setting

/-- The make of what can be closed with an engine. -/
def Target.make? (t : Target) : Option Make := t.devices.head?.map Device.make

namespace Machine

/-- Where an engine prints to, given the last setting that says so. -/
def PrintsTo (start : Outside) (m : Machine) : Setting → Prop
  | .sink (some s) => ∃ id, m.engine.outlet = .sink id ∧ start.sinks.size ≤ id ∧
      m.world.outside.sinks[id]? = some ⟨s, []⟩
  | .sink none => m.engine.outlet = .absent
  | _ => m.engine.outlet = .lines m.engine.out

/-- The devices of an engine in the making.  Those that were replaced have been flushed, and the
last ones are in use. -/
structure Plugged (start : Outside) (replaced used : List Device) (m : Machine) : Prop where
  devices : m.world.outside.devices.toList =
    start.devices.toList ++ replaced.map Device.flushed ++ used
  out : m.engine.out = .ofDevices (List.range' (start.devices.size + replaced.length) used.length)
  pending : m.engine.pending = replaced.findSome? Device.fault

/-- What an engine in the making prints to, and what is to be closed with it. -/
structure Rigged (start : Outside) (done : List Setting) (m : Machine) : Prop where
  plugged : ∃ before t after, Setting.LastOutput done before t after ∧
    Plugged start (Setting.devices before) (Setting.devices (.output t :: after)) m
  closers : m.engine.closers.map m.world.outside.make? =
    ((done.filterMap Setting.added?).filter Target.closes).reverse.map Target.make?
  sorted : m.engine.closers.Pairwise (· > ·)
  sinks : start.sinks.size ≤ m.world.outside.sinks.size
  prints : ∃ s, (done.filter Setting.routes).getLast? = some s ∧ m.PrintsTo start s

/-- What an act on the outside gives and does, next to an engine. -/
theorem ensures_outside {α : Type} {P Q E : Outside → Prop} {a : Act Outside α} {x : α}
    (h : Act.Ensures P a (fun y o => y = x ∧ Q o) E) (e : Engine) :
    Act.Ensures (fun m => m.engine = e ∧ P m.world.outside) (outside a)
      (fun y m => y = x ∧ m.engine = e ∧ Q m.world.outside) (fun m => E m.world.outside) := by
  rintro ⟨engine, o, caches, meters⟩ ⟨rfl, ho⟩
  have hend := h o ho
  rw [outcome_outside]
  rcases ha : Act.outcome a o with ⟨stop | y, o'⟩
  · rw [ha] at hend
    exact hend
  · rw [ha] at hend
    exact ⟨hend.1, rfl, hend.2⟩

theorem ensures_apply_output {e : Engine} {front used : List Device}
    (hout : e.out = .ofDevices (List.range' front.length used.length)) (sinks : Array SinkState)
    (t : Target) :
    let out := Output.ofDevices (List.range' (front.length + used.length) t.devices.length)
    Act.Ensures (fun m => m.engine = e ∧ Outside.Stock (front ++ used) sinks m.world.outside)
      (Setting.output t).apply
      (fun _ m => m.engine = { e with
          pending := e.pending.or (used.findSome? Device.fault)
          out := out
          outlet := .lines out } ∧
        Outside.Stock (front ++ used.map Device.flushed ++ t.devices) sinks m.world.outside)
      (fun _ => ∃ d ∈ used, d.Escapes) := by
  intro out
  refine .get_bind fun m hm => ?_
  simp only [hm.1, hout]
  refine .bind (ensures_outside (Output.ensures_flush_row sinks front used) e) fun error =>
    .given fun herror => ?_
  refine .bind (ensures_outside
    (Output.ensures_ofTarget (E := fun _ => ∃ d ∈ used, d.Escapes) t) e) fun out' =>
    .given fun hout' => .modify fun m h => ?_
  refine ⟨?_, h.2⟩
  rw [List.length_append, List.length_map] at hout'
  rw [h.1, herror, hout']

theorem ensures_apply_tee {e : Engine} {front used : List Device}
    (hout : e.out = .ofDevices (List.range' front.length used.length)) (sinks : Array SinkState)
    (t : Target) :
    let out := Output.ofDevices (List.range' front.length (used ++ t.devices).length)
    Act.Ensures (fun m => m.engine = e ∧ Outside.Stock (front ++ used) sinks m.world.outside)
      (Setting.tee t).apply
      (fun _ m => m.engine = { e with
          out := out
          outlet := .lines out
          closers := if t.closes then (front ++ used).length :: e.closers else e.closers } ∧
        Outside.Stock (front ++ used ++ t.devices) sinks m.world.outside)
      (fun _ => False) := by
  intro out
  refine .get_bind fun m hm => ?_
  simp only [hm.1]
  refine .bind (ensures_outside (Output.ensures_ofTarget (E := fun _ => False) t) e) fun added =>
    .given fun hadded => .modify fun m h => ?_
  refine ⟨?_, h.2⟩
  have hjoin : Output.join [some e.out, some added] = out := by
    show Output.ofDevices (e.out.devices ++ (added.devices ++ [])) = _
    rw [hout, hadded, Output.devices_ofDevices, Output.devices_ofDevices, List.append_nil,
      List.length_append, List.range'_append_1, ← List.length_append]
  have hclosers : (if t.closes then added.devices ++ e.closers else e.closers) =
      if t.closes then (front ++ used).length :: e.closers else e.closers := by
    cases hcloses : t.closes with
    | false => rfl
    | true =>
      obtain ⟨d, hd⟩ := Target.devices_of_closes hcloses
      rw [hadded, Output.devices_ofDevices, hd]
      rfl
  rw [h.1, hjoin]
  simp only [hclosers]

/-- Devices that were there keep their numbers and their makes. -/
theorem make?_of_isPrefix {o o' : Outside}
    (h : o.devices.toList.map Device.make <+: o'.devices.toList.map Device.make) {id : Nat}
    (hid : id < o.devices.size) : o'.make? id = o.make? id := by
  obtain ⟨more, hmore⟩ := h
  have hmake : ∀ o : Outside, o.make? id = (o.devices.toList.map Device.make)[id]? := by
    intro o
    rw [Outside.make?, List.getElem?_map, Array.getElem?_toList]
  rw [hmake, hmake, ← hmore, List.getElem?_append_left (by simpa using hid)]

section Rigged

variable {start : Outside} {done : List Setting} {m m' : Machine}

theorem Rigged.closer_lt (h : Rigged start done m) {id : Nat} (hid : id ∈ m.engine.closers) :
    id < m.world.outside.devices.size := by
  have hmem := List.mem_map_of_mem (f := m.world.outside.make?) hid
  rw [h.closers] at hmem
  obtain ⟨t, ht, hmake⟩ := List.mem_map.1 hmem
  rw [List.mem_reverse, List.mem_filter] at ht
  obtain ⟨d, hd⟩ := Target.devices_of_closes ht.2
  rw [Target.make?, hd] at hmake
  obtain ⟨d', hd', -⟩ := Option.map_eq_some_iff.1 hmake.symm
  exact (Array.getElem?_eq_some_iff.1 hd').1

/-- What is to be closed stays what it is while devices are added. -/
theorem Rigged.map_make? (h : Rigged start done m)
    (hmakes : m.world.outside.devices.toList.map Device.make <+:
      m'.world.outside.devices.toList.map Device.make) :
    m.engine.closers.map m'.world.outside.make? = m.engine.closers.map m.world.outside.make? :=
  List.map_congr_left fun _ hid => make?_of_isPrefix hmakes (h.closer_lt hid)

/-- A setting that brings in no target leaves the devices alone. -/
theorem Rigged.concat (h : Rigged start done m) {s : Setting} (hs : s.target? = none)
    (hdevices : m'.world.outside.devices = m.world.outside.devices)
    (hout : m'.engine.out = m.engine.out) (hpending : m'.engine.pending = m.engine.pending)
    (hclosers : m'.engine.closers = m.engine.closers)
    (hsinks : start.sinks.size ≤ m'.world.outside.sinks.size)
    (hprints : ∃ r, ((done ++ [s]).filter Setting.routes).getLast? = some r ∧
      m'.PrintsTo start r) : Rigged start (done ++ [s]) m' := by
  have hnone : s.output? = none ∧ s.added? = none := by
    cases s with
    | output | tee => cases hs
    | sink | config | threshold | tiering | symbols | cache | meter | log => exact ⟨rfl, rfl⟩
  obtain ⟨before, t, after, hlast, hplugged⟩ := h.plugged
  have hused : Setting.devices (.output t :: (after ++ [s])) =
      Setting.devices (.output t :: after) := by
    rw [← List.cons_append, Setting.devices_append]
    simp [Setting.devices, hs]
  have hmake : m'.world.outside.make? = m.world.outside.make? := by
    funext id
    rw [Outside.make?, Outside.make?, hdevices]
  refine ⟨⟨before, t, after ++ [s], hlast.concat hnone.1, ?_⟩, ?_, ?_, hsinks, hprints⟩
  · rw [hused]
    exact ⟨hdevices ▸ hplugged.devices, hout ▸ hplugged.out, hpending ▸ hplugged.pending⟩
  · rw [hmake, hclosers, h.closers]
    simp [List.filterMap_append, hnone.2]
  · rw [hclosers]
    exact h.sorted

/-- Where an engine prints to depends on few things. -/
theorem PrintsTo.congr {r : Setting} (h : m.PrintsTo start r) (hout : m'.engine.out = m.engine.out)
    (houtlet : m'.engine.outlet = m.engine.outlet)
    (hsinks : m'.world.outside.sinks = m.world.outside.sinks) : m'.PrintsTo start r := by
  cases r with
  | sink s =>
    cases s with
    | none => exact houtlet.trans h
    | some s =>
      obtain ⟨id, hid, hle, hsink⟩ := h
      exact ⟨id, houtlet.trans hid, hle, hsinks ▸ hsink⟩
  | output | tee | config | threshold | tiering | symbols | cache | meter | log =>
    exact (houtlet.trans h).trans (by rw [hout])

/-- A setting that says nothing about where values go leaves that as it is. -/
theorem Rigged.value (h : Rigged start done m) {s : Setting} (hs : s.routes = false)
    (hworld : m'.world = m.world) (hout : m'.engine.out = m.engine.out)
    (houtlet : m'.engine.outlet = m.engine.outlet)
    (hpending : m'.engine.pending = m.engine.pending)
    (hclosers : m'.engine.closers = m.engine.closers) : Rigged start (done ++ [s]) m' := by
  have htarget : s.target? = none := by
    cases s with
    | output | tee | sink => cases hs
    | config | threshold | tiering | symbols | cache | meter | log => rfl
  obtain ⟨r, hr, hprints⟩ := h.prints
  refine h.concat htarget (by rw [hworld]) hout hpending hclosers (by rw [hworld]; exact h.sinks)
    ⟨r, ?_, PrintsTo.congr hprints hout houtlet (by rw [hworld])⟩
  simpa [List.filter_append, hs] using hr

/-- Caches and values do not matter to what is printed to. -/
theorem Rigged.congr (h : Rigged start done m) (houtside : m'.world.outside = m.world.outside)
    (hout : m'.engine.out = m.engine.out) (houtlet : m'.engine.outlet = m.engine.outlet)
    (hpending : m'.engine.pending = m.engine.pending)
    (hclosers : m'.engine.closers = m.engine.closers) : Rigged start done m' := by
  obtain ⟨before, t, after, hlast, hplugged⟩ := h.plugged
  obtain ⟨r, hr, hprints⟩ := h.prints
  refine ⟨⟨before, t, after, hlast, ?_⟩, ?_, hclosers ▸ h.sorted, houtside ▸ h.sinks, r, hr,
    PrintsTo.congr hprints hout houtlet (by rw [houtside])⟩
  · exact ⟨houtside ▸ hplugged.devices, hout ▸ hplugged.out, hpending ▸ hplugged.pending⟩
  · rw [hclosers, houtside]
    exact h.closers

/-- A new output puts aside what was printed to before. -/
theorem rigged_output (t : Target) :
    Act.Ensures (Rigged start done) (Setting.output t).apply
      (fun _ => Rigged start (done ++ [.output t]))
      (fun _ => Setting.Escapes (done ++ [.output t])) := by
  intro m h
  obtain ⟨before, t₀, after, hlast, hplugged⟩ := h.plugged
  generalize hused : Setting.devices (.output t₀ :: after) = used at hplugged
  have hall : Setting.devices done = Setting.devices before ++ used := by
    rw [hlast.devices_eq, hused]
  have hlength : (start.devices.toList ++ (Setting.devices before).map Device.flushed).length =
      start.devices.size + (Setting.devices before).length := by simp
  have hout := hplugged.out
  rw [← hlength] at hout
  have hend := ensures_apply_output hout m.world.outside.sinks t m
    ⟨rfl, hplugged.devices, rfl⟩
  rcases hm' : Act.outcome (Setting.output t).apply m with ⟨stop | _, m'⟩
  · rw [hm'] at hend
    obtain ⟨d, hd, hescapes⟩ := hend
    exact ⟨done, t, [], rfl, d, hall ▸ List.mem_append_right _ hd, hescapes⟩
  · rw [hm'] at hend
    obtain ⟨hengine, hstock⟩ := hend
    have hone : Setting.devices [.output t] = t.devices := by
      simp [Setting.devices, Setting.target?]
    have hmakes : m.world.outside.devices.toList.map Device.make <+:
        m'.world.outside.devices.toList.map Device.make := by
      have hflushed : (used.map Device.flushed).map Device.make = used.map Device.make := by
        rw [List.map_map]
        exact List.map_congr_left fun d _ => d.make_flushed
      rw [hplugged.devices, hstock.devices]
      simp only [List.map_append, hflushed]
      exact List.prefix_append _ _
    refine ⟨⟨done, t, [], ⟨rfl, by simp⟩, ⟨?_, ?_, ?_⟩⟩, ?_, ?_, ?_, .output t, ?_, ?_⟩
    · rw [hstock.devices, hall, hone, List.map_append, ← List.append_assoc]
    · rw [hengine, hall, hone, hlength, List.length_append, Nat.add_assoc]
    · rw [hengine, hall, List.findSome?_append, ← hplugged.pending]
    · rw [hengine, h.map_make? hmakes, h.closers]
      simp [List.filterMap_append, Setting.added?]
    · rw [hengine]
      exact h.sorted
    · rw [hstock.sinks]
      exact h.sinks
    · simp [List.filter_append, Setting.routes]
    · show m'.engine.outlet = .lines m'.engine.out
      rw [hengine]

/-- A tee adds to what is printed to. -/
theorem rigged_tee (t : Target) :
    Act.Ensures (Rigged start done) (Setting.tee t).apply
      (fun _ => Rigged start (done ++ [.tee t]))
      (fun _ => Setting.Escapes (done ++ [.tee t])) := by
  intro m h
  obtain ⟨before, t₀, after, hlast, hplugged⟩ := h.plugged
  have hlength : (start.devices.toList ++ (Setting.devices before).map Device.flushed).length =
      start.devices.size + (Setting.devices before).length := by simp
  have hout := hplugged.out
  rw [← hlength] at hout
  have hend := ensures_apply_tee hout m.world.outside.sinks t m ⟨rfl, hplugged.devices, rfl⟩
  rcases hm' : Act.outcome (Setting.tee t).apply m with ⟨stop | _, m'⟩
  · rw [hm'] at hend
    exact hend.elim
  · rw [hm'] at hend
    obtain ⟨hengine, hstock⟩ := hend
    have hused : Setting.devices (.output t₀ :: (after ++ [.tee t])) =
        Setting.devices (.output t₀ :: after) ++ t.devices := by
      rw [← List.cons_append, Setting.devices_append]
      simp [Setting.devices, Setting.target?]
    have hmakes : m.world.outside.devices.toList.map Device.make <+:
        m'.world.outside.devices.toList.map Device.make := by
      rw [hplugged.devices, hstock.devices]
      exact (List.prefix_append _ t.devices).map Device.make
    have hold := h.map_make? hmakes
    have hsize := congrArg List.length hplugged.devices
    rw [Array.length_toList] at hsize
    have hadded : (done ++ [Setting.tee t]).filterMap Setting.added? =
        done.filterMap Setting.added? ++ [t] := by simp [List.filterMap_append, Setting.added?]
    refine ⟨⟨before, t₀, after ++ [.tee t], hlast.concat rfl, ⟨?_, ?_, ?_⟩⟩, ?_, ?_, ?_,
      .tee t, ?_, ?_⟩
    · rw [hstock.devices, hused, ← List.append_assoc]
    · rw [hengine, hused, hlength]
    · rw [hengine]
      exact hplugged.pending
    · rw [hengine, hadded, List.filter_append, List.reverse_append, List.map_append, ← h.closers,
        ← hold, ← hsize]
      cases hcloses : t.closes with
      | false => simp [hcloses]
      | true =>
        obtain ⟨d, hd⟩ := Target.devices_of_closes hcloses
        have hnew : m'.world.outside.make? m.world.outside.devices.size = t.make? := by
          rw [Outside.make?, ← Array.getElem?_toList, hstock.devices, hsize, Target.make?, hd]
          simp
        simp [hcloses, hnew]
    · rw [hengine, ← hsize]
      cases hcloses : t.closes with
      | false => exact h.sorted
      | true => exact List.pairwise_cons.2 ⟨fun id hid => h.closer_lt hid, h.sorted⟩
    · rw [hstock.sinks]
      exact h.sinks
    · simp [List.filter_append, Setting.routes]
    · show m'.engine.outlet = .lines m'.engine.out
      rw [hengine]

/-- A sink takes the place of what was printed to, which stays in use. -/
theorem rigged_sink (s : Option Sink) :
    Act.Ensures (Rigged start done) (Setting.sink s).apply
      (fun _ => Rigged start (done ++ [.sink s]))
      (fun _ => Setting.Escapes (done ++ [.sink s])) := by
  rintro ⟨e, o, caches, meters⟩ h
  have hlast : ((done ++ [Setting.sink s]).filter Setting.routes).getLast? = some (.sink s) := by
    simp [List.filter_append, Setting.routes]
  cases s with
  | none => exact h.concat rfl rfl rfl rfl rfl h.sinks ⟨_, hlast, rfl⟩
  | some s =>
    refine h.concat rfl rfl rfl rfl rfl ?_ ⟨_, hlast, o.sinks.size, rfl, h.sinks, ?_⟩
    · show start.sinks.size ≤ (o.sinks.push ⟨s, []⟩).size
      rw [Array.size_push]
      exact Nat.le_succ_of_le h.sinks
    · show (o.sinks.push ⟨s, []⟩)[o.sinks.size]? = _
      exact Array.getElem?_push_size

theorem rigged_apply (s : Setting) :
    Act.Ensures (Rigged start done) s.apply (fun _ => Rigged start (done ++ [s]))
      (fun _ => Setting.Escapes (done ++ [s])) := by
  cases s with
  | output t => exact rigged_output t
  | tee t => exact rigged_tee t
  | sink s => exact rigged_sink s
  | config | threshold | tiering | symbols | cache | meter | log =>
    rw [Setting.apply]
    exact .modify fun m h => h.value rfl rfl rfl rfl rfl rfl

end Rigged

/-! ## All settings -/

/-- What each setting takes further, settings take further one after the other. -/
theorem ensures_forM {I : List Setting → Machine → Prop} {E : List Setting → Prop}
    (hstep : ∀ done s, Act.Ensures (I done) s.apply (fun _ => I (done ++ [s]))
      (fun _ => E (done ++ [s])))
    (hE : ∀ done more, E done → E (done ++ more)) (settings done : List Setting) :
    Act.Ensures (I done) (settings.forM Setting.apply) (fun _ => I (done ++ settings))
      (fun _ => E (done ++ settings)) := by
  induction settings generalizing done with
  | nil =>
    rw [List.append_nil]
    exact .pure fun _ h => h
  | cons s settings ih =>
    have hrest := ih (done ++ [s])
    rw [← List.append_cons] at hrest
    refine .bind ((hstep done s).imp (fun _ h => h) (fun _ _ h => h) fun _ h => ?_) fun _ => hrest
    rw [List.append_cons]
    exact hE _ _ h

/-- Makes the engine of a machine anew from settings, in order.  A tiered engine that shares no
cache gets its own. -/
def assemble (digest : Program → UInt64) (settings : List Setting) : Act Machine Unit := do
  change fun _ => .blank
  settings.forM Setting.apply
  let e := (← get).engine
  if e.tiered && e.cache.isNone then
    let id ← inWorld (World.addCache (.new digest e.threshold))
    change ({ · with cache := some id })

theorem build_eq (digest : Program → UInt64) (o : Options) :
    build digest o = assemble digest (Options.default.settings ++ o.settings) := by
  rw [build, assemble, Options.apply_eq, Options.apply_eq]
  simp only [List.forM_eq_forM, List.forM_append, bind_assoc]

/-- What an engine is made with: each value is the last one given, a tiered engine without a cache
has got its own, and the engine prints to the last output and what was added behind it, or to a
sink that was set behind that. -/
structure Built (digest : Program → UInt64) (start : World) (settings : List Setting)
    (m : Machine) : Prop where
  threshold : some m.engine.threshold = Setting.last Setting.threshold? settings
  tiered : some m.engine.tiered = Setting.last Setting.tiering? settings
  symbols : some m.engine.symbols = Setting.last Setting.symbols? settings
  meter : m.engine.meter = (Setting.last Setting.meter? settings).join
  log : m.engine.log = ⟨(Setting.last Setting.channel? settings).join, [], 0⟩
  cache :
    if m.engine.tiered = true ∧ (Setting.last Setting.cache? settings).join = none then
      m.engine.cache = some start.caches.size ∧
        m.world.caches = start.caches.push ⟨digest, m.engine.threshold.toNat, [], 0, 0, 0, 0⟩
    else
      m.engine.cache = (Setting.last Setting.cache? settings).join ∧ m.world.caches = start.caches
  meters : m.world.meters = start.meters
  output : ∃ before t after, Setting.LastOutput settings before t after ∧
    Plugged start.outside (Setting.devices before) (Setting.devices (.output t :: after)) m
  prints : ∃ s, (settings.filter Setting.routes).getLast? = some s ∧ m.PrintsTo start.outside s

theorem tuned_default (start : World) :
    Act.Ensures (fun m => m.engine = .blank ∧ m.world = start)
      (Options.default.settings.forM Setting.apply)
      (fun _ => Tuned start Options.default.settings) (fun _ => True) := by
  rintro ⟨e, o, caches, meters⟩ ⟨rfl, rfl⟩
  exact ⟨rfl, rfl, rfl, rfl, rfl, rfl, rfl, rfl⟩

theorem rigged_default (start : World) :
    Act.Ensures (fun m => m.engine = .blank ∧ m.world = start)
      (Options.default.settings.forM Setting.apply)
      (fun _ => Rigged start.outside Options.default.settings)
      (fun _ => Setting.Escapes Options.default.settings) := by
  rintro ⟨e, o, caches, meters⟩ ⟨rfl, rfl⟩
  refine ⟨⟨[.config .default], .discard, [], ⟨rfl, by simp⟩, ⟨?_, rfl, rfl⟩⟩, rfl, .nil,
    Nat.le_refl _, .output .discard, rfl, rfl⟩
  show o.devices.toList = o.devices.toList ++ [] ++ []
  rw [List.append_nil, List.append_nil]

/-- Both follow the settings, from those that every engine starts from. -/
theorem ensures_settings (start : World) (settings : List Setting) :
    Act.Ensures (fun m => m.engine = .blank ∧ m.world = start)
      ((Options.default.settings ++ settings).forM Setting.apply)
      (fun _ m => Tuned start (Options.default.settings ++ settings) m ∧
        Rigged start.outside (Options.default.settings ++ settings) m)
      (fun _ => Setting.Escapes (Options.default.settings ++ settings)) := by
  have htuned := ensures_forM (I := Tuned start) (E := fun _ => True) (fun _ => tuned_apply)
    (fun _ _ _ => trivial) settings Options.default.settings
  have hrigged := ensures_forM (I := Rigged start.outside) (fun _ => rigged_apply)
    (fun _ more h => Setting.Escapes.append h more) settings Options.default.settings
  rw [List.forM_eq_forM, List.forM_append]
  have hfirst := (tuned_default start).and (rigged_default start)
  have hrest : Act.Ensures
      (fun m => Tuned start Options.default.settings m ∧
        Rigged start.outside Options.default.settings m) _ _ _ :=
    (htuned.imp (fun _ h => h.1) (fun _ _ h => h) fun _ h => h).and
      (hrigged.imp (fun _ h => h.2) (fun _ _ h => h) fun _ h => h)
  exact .bind (hfirst.imp (fun _ h => h) (fun _ _ h => h) fun _ h => h.2.append settings) fun _ =>
    hrest.imp (fun _ h => h) (fun _ _ h => h) fun _ h => h.2

theorem ensures_assemble (digest : Program → UInt64) (start : World) (settings : List Setting) :
    Act.Ensures (fun m => m.world = start)
      (assemble digest (Options.default.settings ++ settings))
      (fun _ m => Built digest start (Options.default.settings ++ settings) m ∧
        Rigged start.outside (Options.default.settings ++ settings) m)
      (fun _ => Setting.Escapes (Options.default.settings ++ settings)) := by
  refine .bind (.modify fun m h => ⟨rfl, h⟩) fun _ => .bind (ensures_settings start settings)
    fun _ => ?_
  rintro ⟨e, o, caches, meters⟩ ⟨htuned, hrigged⟩
  rw [Act.outcome_get_bind]
  have hcache : e.cache = _ := htuned.cache
  by_cases hown : e.tiered = true ∧ e.cache = none
  · -- The cache gets the next number.
    have hcaches : caches = start.caches := htuned.caches
    simp only [hown.1, hown.2, Option.isNone_none, Bool.and_true, if_true]
    have hrigged' : Rigged start.outside (Options.default.settings ++ settings)
        ⟨{ e with cache := some caches.size }, o, caches.push (.new digest e.threshold), meters⟩ :=
      hrigged.congr rfl rfl rfl rfl rfl
    refine ⟨⟨htuned.threshold, htuned.tiered, htuned.symbols, htuned.meter, htuned.log, ?_,
      htuned.meters, hrigged'.plugged, hrigged'.prints⟩, hrigged'⟩
    rw [if_pos ⟨hown.1, hcache ▸ hown.2⟩, ← hcaches]
    exact ⟨rfl, rfl⟩
  · have hskip : (e.tiered && e.cache.isNone) = false := by
      cases htiered : e.tiered with
      | false => rfl
      | true =>
        cases hnone : e.cache with
        | none => exact absurd ⟨htiered, hnone⟩ hown
        | some id => rfl
    simp only [hskip]
    refine ⟨⟨htuned.threshold, htuned.tiered, htuned.symbols, htuned.meter, htuned.log, ?_,
      htuned.meters, hrigged.plugged, hrigged.prints⟩, hrigged⟩
    rw [if_neg (hcache ▸ hown)]
    exact ⟨hcache, htuned.caches⟩

/-- Options in any nesting make the engine that their settings make, one after the other, behind
those that every engine starts from.  The last setting counts, and making the engine fails to return
only where a log is put aside. -/
theorem build_in_order (digest : Program → UInt64) (o : Options) (start : World) :
    let settings := Options.default.settings ++ o.settings
    build digest o = assemble digest settings ∧
      Act.Ensures (fun m => m.world = start) (build digest o)
        (fun _ => Built digest start settings) (fun _ => Setting.Escapes settings) := by
  intro settings
  refine ⟨build_eq digest o, ?_⟩
  rw [build_eq]
  exact (ensures_assemble digest start o.settings).imp (fun _ h => h) (fun _ _ h => h.1)
    fun _ h => h

end Machine
end Birdcall
