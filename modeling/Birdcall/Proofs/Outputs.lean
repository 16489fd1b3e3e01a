import Birdcall.Proofs.Combining
import Birdcall.Proofs.Fanout
import Birdcall.Proofs.Wiring
import Mathlib.Control.Monad.Basic

/-!
# Engines deliver what they print

An engine is made with an output, and the output is teed to any number of other writers, before the
output is set and after.  Setting the output replaces what was there before it.

* Making an engine.  `Machine.Fresh` follows the settings: which writers were replaced and which are
  in use, each with a pipe that was never written to.
* Using it.  The writers in use are the lanes of a `Wiring`, so what is known of executions holds of
  the engine.  As long as executions finish, every writer in use has accepted the lines of all that
  was printed, and after one that stops short it has accepted a part of what was tried, from the
  beginning on.  A writer that was replaced never accepts anything.
-/

namespace Birdcall

/-! ## Settings -/

namespace Setting

/-- The writer that a setting tees the output to. -/
def tee? : Setting → Option Writer
  | tee (.writer w) => some w
  | _ => none

/-- Whether a setting leaves the output as it is, or tees it to a writer. -/
def isPlain : Setting → Bool
  | output _ | sink _ => false
  | tee t =>
    match t with
    | .writer _ => true
    | _ => false
  | _ => true

end Setting

/-- The writers that settings tee the output to, in order. -/
def tees (settings : List Setting) : List Writer := settings.filterMap Setting.tee?

/-! ## Making an engine -/

namespace Outside

theorem devices_flush_idle {o : Outside} {id : Nat} {p : Pipe}
    (h : o.devices[id]? = some (.pipe p)) (hidle : p.flush.pipe = p) :
    ∃ o', Act.outcome (flush id) o = (.ok p.flush.error, o') ∧ o'.devices = o.devices := by
  obtain ⟨o', hflush, hset⟩ := outcome_flush_pipe h
  refine ⟨o', hflush, ?_⟩
  -- The pipe is put back as it was.
  obtain ⟨hlt, hget⟩ := Array.getElem?_eq_some_iff.1 h
  rw [hset, hidle, ← hget, Array.setIfInBounds, dif_pos hlt, Array.set_getElem_self]

/-- Flushing what was never written to changes no device. -/
theorem devices_flushAll_idle {o : Outside} {ids : List Nat}
    (h : ∀ id ∈ ids, ∃ p, o.devices[id]? = some (.pipe p) ∧ p.flush.pipe = p) :
    ∃ error o', Act.outcome (Output.flushAll ids) o = (.ok error, o') ∧
      o'.devices = o.devices := by
  induction ids generalizing o with
  | nil => exact ⟨none, o, rfl, rfl⟩
  | cons id ids ih =>
    obtain ⟨p, hp, hidle⟩ := h id List.mem_cons_self
    obtain ⟨o₁, hflush, hdevices₁⟩ := devices_flush_idle hp hidle
    obtain ⟨later, o₂, hrest, hdevices₂⟩ := ih (o := o₁) fun id hid =>
      hdevices₁ ▸ h id (List.mem_cons_of_mem _ hid)
    refine ⟨p.flush.error.or later, o₂, ?_, hdevices₂.trans hdevices₁⟩
    rw [Output.flushAll, Act.outcome_bind, hflush]
    simp only
    rw [Act.outcome_bind, hrest]
    rfl

/-- The same for any output. -/
theorem devices_flush_ofDevices_idle {o : Outside} {ids : List Nat}
    (h : ∀ id ∈ ids, ∃ p, o.devices[id]? = some (.pipe p) ∧ p.flush.pipe = p) :
    ∃ error o', Act.outcome (Output.ofDevices ids).flush o = (.ok error, o') ∧
      o'.devices = o.devices := by
  match ids with
  | [] => exact devices_flushAll_idle h
  | id :: id' :: ids => exact devices_flushAll_idle h
  | [id] =>
    obtain ⟨p, hp, hidle⟩ := h id List.mem_cons_self
    obtain ⟨o', hflush, hdevices⟩ := devices_flush_idle hp hidle
    exact ⟨_, o', hflush, hdevices⟩

end Outside

namespace Machine

/-- An engine in the making.  Behind the devices that were there before, it has a pipe to each of
the writers that were replaced and of those in use, and prints to the latter. -/
structure Fresh (base : Outside) (replaced used : List Writer) (m : Machine) : Prop where
  out : m.engine.out =
    .ofDevices (List.range' (base.devices.size + replaced.length) used.length)
  outlet : m.engine.outlet = .lines m.engine.out
  devices : m.world.outside.devices.toList =
    base.devices.toList ++ (replaced ++ used).map fun w => .pipe (.ofWriter w)
  sound : ∀ c ∈ m.world.caches, c.Sound

variable {base : Outside} {replaced used : List Writer} {m : Machine}

theorem Fresh.size_devices (h : Fresh base replaced used m) :
    m.world.outside.devices.size = base.devices.size + replaced.length + used.length := by
  have hlength := congrArg List.length h.devices
  simp only [List.length_append, List.length_map, Array.length_toList] at hlength
  omega

/-- The pipe of a writer has the number of the writer. -/
theorem Fresh.pipe (h : Fresh base replaced used m) {k : Nat} {w : Writer}
    (hk : (replaced ++ used)[k]? = some w) :
    m.world.outside.devices[base.devices.size + k]? = some (.pipe (.ofWriter w)) := by
  rw [← Array.getElem?_toList, h.devices, List.getElem?_append_right (by simp),
    Array.length_toList, Nat.add_sub_cancel_left, List.getElem?_map, hk]
  rfl

theorem Fresh.idle (h : Fresh base replaced used m) :
    ∀ id ∈ List.range' (base.devices.size + replaced.length) used.length,
      ∃ p, m.world.outside.devices[id]? = some (.pipe p) ∧ p.flush.pipe = p := by
  intro id hid
  obtain ⟨k, hk, rfl⟩ := List.mem_range'.1 hid
  refine ⟨.ofWriter used[k], ?_, Pipe.flush_ofWriter _⟩
  rw [Nat.one_mul, Nat.add_assoc]
  refine h.pipe ?_
  rw [List.getElem?_append_right (Nat.le_add_right _ _), Nat.add_sub_cancel_left]
  exact List.getElem?_eq_getElem hk

theorem ensures_tee (w : Writer) :
    Act.Ensures (Fresh base replaced used) (Setting.tee (.writer w)).apply
      (fun _ => Fresh base replaced (used ++ [w])) (fun _ => False) := by
  rintro ⟨e, o, caches, meters⟩ h
  have hout : e.out = _ := h.out
  have hsize : o.devices.size = _ := h.size_devices
  show Fresh base replaced (used ++ [w]) _
  refine ⟨?_, ?_, ?_, h.sound⟩
  · show Output.ofDevices (e.out.devices ++ [o.devices.size]) = _
    rw [hout, Output.devices_ofDevices, hsize, List.length_append, List.length_singleton,
      List.range'_concat, Nat.one_mul]
  · rfl
  · show (o.devices.push (.pipe (.ofWriter w))).toList = _
    have hdevices : o.devices.toList = _ := h.devices
    rw [Array.toList_push, hdevices]
    simp

/-- Changing anything but the output leaves an engine fresh. -/
theorem ensures_change {f : Engine → Engine} (hout : ∀ e, (f e).out = e.out)
    (houtlet : ∀ e, (f e).outlet = e.outlet) :
    Act.Ensures (Fresh base replaced used) (change f) (fun _ => Fresh base replaced used)
      (fun _ => False) := by
  refine .modify fun m h => ⟨(hout _).trans h.out, ?_, h.devices, h.sound⟩
  rw [houtlet, hout]
  exact h.outlet

/-- A setting of any other kind leaves the output alone. -/
theorem ensures_plain {s : Setting} (hs : s.isPlain = true) :
    Act.Ensures (Fresh base replaced used) s.apply
      (fun _ => Fresh base replaced (used ++ tees [s])) (fun _ => False) := by
  cases s with
  | output t => cases hs
  | sink s => cases hs
  | tee t =>
    cases t with
    | writer w => exact ensures_tee w
    | absent => cases hs
    | discard => cases hs
    | lineLog l => cases hs
    | several targets => cases hs
  | config | threshold | tiering | symbols | cache | meter | log =>
    rw [show tees _ = [] from rfl, List.append_nil, Setting.apply]
    exact ensures_change (fun _ => rfl) fun _ => rfl

theorem ensures_plains (settings : List Setting) (h : ∀ s ∈ settings, s.isPlain = true) :
    Act.Ensures (Fresh base replaced used) (settings.forM Setting.apply)
      (fun _ => Fresh base replaced (used ++ tees settings)) (fun _ => False) := by
  induction settings generalizing used with
  | nil =>
    rw [show tees [] = [] from rfl, List.append_nil]
    exact .pure fun _ h => h
  | cons s settings ih =>
    refine .bind (ensures_plain (h s List.mem_cons_self)) fun _ => ?_
    have hused : used ++ tees (s :: settings) = used ++ tees [s] ++ tees settings := by
      rw [List.append_assoc, tees, tees, tees, ← List.filterMap_append]
      rfl
    rw [hused]
    exact ih fun s hs => h s (List.mem_cons_of_mem _ hs)

/-- A new output replaces what was used before. -/
theorem ensures_output (w : Writer) :
    Act.Ensures (Fresh base replaced used) (Setting.output (.writer w)).apply
      (fun _ => Fresh base (replaced ++ used) [w]) (fun _ => False) := by
  rintro ⟨e, o, caches, meters⟩ h
  have hout : e.out = _ := h.out
  have hsize : o.devices.size = _ := h.size_devices
  obtain ⟨error, o', hflush, hdevices⟩ := Outside.devices_flush_ofDevices_idle h.idle
  rw [Setting.apply, Act.outcome_get_bind, Act.outcome_bind, outcome_outside, hout, hflush]
  show Fresh base (replaced ++ used) [w] _
  refine ⟨?_, rfl, ?_, h.sound⟩
  · show Output.device o'.devices.size = _
    rw [hdevices, hsize, List.length_append, Nat.add_assoc]
    rfl
  · show (o'.devices.push (.pipe (.ofWriter w))).toList = _
    have hdevices' : o.devices.toList = _ := h.devices
    rw [hdevices, Array.toList_push, hdevices']
    simp

theorem ensures_default (base : Outside) :
    Act.Ensures
      (fun m => m.engine = .blank ∧ m.world.outside = base ∧ ∀ c ∈ m.world.caches, c.Sound)
      Options.default.apply (fun _ => Fresh base [] []) (fun _ => False) := by
  rintro ⟨e, o, caches, meters⟩ ⟨rfl, rfl, hsound⟩
  show Fresh o [] [] _
  exact ⟨rfl, rfl, by simp, hsound⟩

theorem ensures_build (digest : Program → UInt64) {o : Options} {before after : List Setting}
    {w : Writer} (hsettings : o.settings = before ++ .output (.writer w) :: after)
    (hplain : ∀ s ∈ before ++ after, s.isPlain = true) (base : Outside) :
    Act.Ensures (fun m => m.world.outside = base ∧ ∀ c ∈ m.world.caches, c.Sound) (build digest o)
      (fun _ => Fresh base (tees before) (w :: tees after)) (fun _ => False) := by
  have happly : Act.Ensures (Fresh base [] []) o.apply
      (fun _ => Fresh base (tees before) (w :: tees after)) (fun _ => False) := by
    rw [Options.apply_eq, hsettings, List.forM_eq_forM, List.forM_append]
    have hbefore : ∀ s ∈ before, s.isPlain = true :=
      fun s hs => hplain s (List.mem_append_left _ hs)
    have hafter : ∀ s ∈ after, s.isPlain = true :=
      fun s hs => hplain s (List.mem_append_right _ hs)
    exact .bind (ensures_plains before hbefore) fun _ =>
      .bind (ensures_output w) fun _ => ensures_plains after hafter
  refine .bind (R := fun _ m => m.engine = .blank ∧ m.world.outside = base ∧
    ∀ c ∈ m.world.caches, c.Sound) (.modify fun m h => ⟨rfl, h⟩) fun _ => ?_
  refine .bind (ensures_default base) fun _ => .bind happly fun _ => .get_bind fun m h => ?_
  simp only
  split
  · rintro ⟨e, o, caches, meters⟩ h
    refine ⟨h.out, h.outlet, h.devices, fun c hc => ?_⟩
    rcases Array.mem_push.1 hc with hc | rfl
    · exact h.sound c hc
    · exact Cache.sound_new digest _
  · exact .pure fun _ h => h

/-- Making an engine always succeeds. -/
theorem fresh_build (digest : Program → UInt64) {o : Options} {before after : List Setting}
    {w : Writer} (hsettings : o.settings = before ++ .output (.writer w) :: after)
    (hplain : ∀ s ∈ before ++ after, s.isPlain = true) {m : Machine}
    (hsound : ∀ c ∈ m.world.caches, c.Sound) :
    (Act.outcome (build digest o) m).1 = .ok () ∧
      Fresh m.world.outside (tees before) (w :: tees after)
        (Act.outcome (build digest o) m).2 := by
  have hbuild := ensures_build digest hsettings hplain m.world.outside m ⟨rfl, hsound⟩
  rcases hbuilt : Act.outcome (build digest o) m with ⟨stop | ⟨⟩, m'⟩
  · rw [hbuilt] at hbuild
    cases hbuild
  · rw [hbuilt] at hbuild
    exact ⟨rfl, hbuild⟩

end Machine

/-! ## Using it -/

namespace Lane

/-- Lanes to writers whose devices follow one another. -/
def row (first : Nat) : List Writer → List Lane
  | [] => []
  | w :: rest => ⟨first, w⟩ :: row (first + 1) rest

theorem map_device_row (first : Nat) (writers : List Writer) :
    (row first writers).map (·.device) = List.range' first writers.length := by
  induction writers generalizing first with
  | nil => rfl
  | cons w writers ih => rw [row, List.map_cons, ih, List.length_cons, List.range'_succ]

theorem mem_row {first : Nat} {writers : List Writer} {l : Lane} :
    l ∈ row first writers ↔ ∃ k, writers[k]? = some l.writer ∧ l.device = first + k := by
  induction writers generalizing first with
  | nil => simp [row]
  | cons w writers ih =>
    rw [row, List.mem_cons, ih]
    constructor
    · rintro (rfl | ⟨k, hk, hdevice⟩)
      · exact ⟨0, rfl, rfl⟩
      · exact ⟨k + 1, hk, by omega⟩
    · rintro ⟨_ | k, hk, hdevice⟩
      · refine .inl ?_
        obtain ⟨device, writer⟩ := l
        obtain rfl : device = first := hdevice
        obtain rfl : w = writer := Option.some.inj hk
        rfl
      · exact .inr ⟨k, hk, by omega⟩

end Lane

/-- The writer of a device has accepted a text. -/
def Outside.Accepted (o : Outside) (id : Nat) (w : Writer) (t : Text) : Prop :=
  ∃ p, o.devices[id]? = some (.pipe p) ∧ p.writer = w ∧ p.accepted = t

theorem Outside.Accepted.unique {o : Outside} {id : Nat} {w : Writer} {t t' : Text}
    (h : o.Accepted id w t) (h' : o.Accepted id w t') : t = t' := by
  obtain ⟨p, hp, -, rfl⟩ := h
  obtain ⟨p', hp', -, rfl⟩ := h'
  rw [hp] at hp'
  cases hp'
  rfl

namespace Machine

variable {base : Outside} {replaced used : List Writer} {m : Machine}

/-- How the engine of a machine prints to writers. -/
def wiring (m : Machine) (first : Nat) (used : List Writer) (hreports : ∀ v ∈ used, v.Reports) :
    Wiring where
  lanes := Lane.row first used
  table := m.engine.symbols
  base := m.world.outside
  distinct := by
    rw [Lane.map_device_row]
    exact List.nodup_range' ..
  reports := by
    intro l hl
    obtain ⟨k, hk, -⟩ := Lane.mem_row.1 hl
    exact hreports _ (List.mem_of_getElem? hk)

theorem Fresh.level (h : Fresh base replaced used m) (hreports : ∀ v ∈ used, v.Reports) :
    (m.wiring (base.devices.size + replaced.length) used hreports).Level [] m := by
  have hlanes : (m.wiring (base.devices.size + replaced.length) used hreports).lanes.map
      (·.device) = List.range' (base.devices.size + replaced.length) used.length :=
    Lane.map_device_row _ _
  refine ⟨⟨?_, ?_, rfl, h.sound, .refl _⟩, fun l hl => ?_⟩
  · rw [hlanes]
    exact h.out
  · rw [hlanes, h.outlet, h.out]
  · obtain ⟨k, hk, hdevice⟩ := Lane.mem_row.1 hl
    refine ⟨_, ?_, Pipe.writer_ofWriter l.writer, Pipe.flushed_ofWriter _⟩
    rw [hdevice, Nat.add_assoc]
    refine h.pipe ?_
    rw [List.getElem?_append_right (Nat.le_add_right _ _), Nat.add_sub_cancel_left]
    exact hk

/-- A writer in use has accepted the lines of what was printed. -/
theorem Fresh.accepted_used (h : Fresh base replaced used m) (hreports : ∀ v ∈ used, v.Reports)
    {calls : List Program} (hok : ∀ r ∈ (Act.series exec calls m).1, r = .ok ()) {k : Nat}
    {v : Writer} (hk : used[k]? = some v) :
    (Act.series exec calls m).2.world.outside.Accepted (base.devices.size + replaced.length + k) v
      ((m.engine.symbols.values (calls.flatMap Program.prints)).flatMap Text.line) := by
  have hlane : Lane.mk (base.devices.size + replaced.length + k) v ∈ Lane.row _ used :=
    Lane.mem_row.2 ⟨k, hk, rfl⟩
  obtain ⟨q, hq, hwriter, hflushed⟩ := ((h.level hreports).series calls hok).flushed _ hlane
  exact ⟨q, hq, hwriter, hflushed.accepted⟩

/-- A writer that was replaced is left alone. -/
theorem Fresh.accepted_replaced (h : Fresh base replaced used m)
    (hreports : ∀ v ∈ used, v.Reports) {m' : Machine}
    (hfeeds : (m.wiring (base.devices.size + replaced.length) used hreports).Feeds m') {k : Nat}
    {v : Writer} (hk : replaced[k]? = some v) :
    m'.world.outside.Accepted (base.devices.size + k) v [] := by
  have hlt := (List.getElem?_eq_some_iff.1 hk).1
  refine ⟨.ofWriter v, hfeeds.keeps.pipe _ _ ?_ (h.pipe ?_), Pipe.writer_ofWriter v,
    (Pipe.flushed_ofWriter v).accepted⟩
  · show _ ∉ (Lane.row _ used).map (·.device)
    rw [Lane.map_device_row, List.mem_range'_1]
    omega
  · rw [List.getElem?_append_left hlt]
    exact hk

/-- Of an engine that is made with an output, every writer in use has accepted the lines of exactly
what was printed, in order, as long as executions finish.  After one more execution, however it
ends, it has accepted a part of the lines of what was tried, from the beginning on.  The writers in
use are the output and those that it is teed to later; a writer that was there before the output
was set is replaced, and accepts nothing. -/
theorem accepted_exactly (digest : Program → UInt64) {o : Options} {before after : List Setting}
    {w : Writer} (hsettings : o.settings = before ++ .output (.writer w) :: after)
    (hplain : ∀ s ∈ before ++ after, s.isPlain = true)
    (hreports : ∀ v ∈ w :: tees after, v.Reports) (m : Machine)
    (hsound : ∀ c ∈ m.world.caches, c.Sound) (calls : List Program) (p : Program) :
    let early := m.world.outside.devices.size
    let late := early + (tees before).length
    let built := Act.outcome (build digest o) m
    let called := Act.series exec calls built.2
    let last := Act.outcome (exec p) called.2
    let printed := built.2.engine.symbols.values (calls.flatMap Program.prints)
    built.1 = .ok () ∧ ((∀ r ∈ called.1, r = .ok ()) →
      (∀ k v, (w :: tees after)[k]? = some v →
        called.2.world.outside.Accepted (late + k) v (printed.flatMap Text.line) ∧
        ∃ t, last.2.world.outside.Accepted (late + k) v t ∧
          t <+: (printed ++ called.2.tries p.prints).flatMap Text.line) ∧
      ∀ k v, (tees before)[k]? = some v →
        called.2.world.outside.Accepted (early + k) v [] ∧
        last.2.world.outside.Accepted (early + k) v []) := by
  intro early late built called last printed
  obtain ⟨hbuilt, hfresh⟩ := fresh_build digest hsettings hplain hsound
  refine ⟨hbuilt, fun hok => ?_⟩
  have hlevel := (hfresh.level hreports).series calls hok
  obtain ⟨hfeeds, hwithin⟩ := hlevel.outcome_exec p
  refine ⟨fun k v hk => ?_, fun k v hk => ⟨hfresh.accepted_replaced hreports hlevel.feeds hk,
    hfresh.accepted_replaced hreports hfeeds hk⟩⟩
  have hlane : Lane.mk (late + k) v ∈ Lane.row late (w :: tees after) :=
    Lane.mem_row.2 ⟨k, hk, rfl⟩
  obtain ⟨q, hq, hwriter, hwithin'⟩ := hwithin _ hlane
  refine ⟨hfresh.accepted_used hreports hok hk, q.accepted, ⟨q, hq, hwriter, rfl⟩, ?_⟩
  rw [List.flatMap_append]
  exact hwithin'.accepted

/-- The output holds its lines back, and then takes seven bytes of the last eleven; the writer that
it is teed to takes all of them. -/
theorem accepted_exactly_torn :
    let a : Writer := ⟨"a", .memory, none, Writer.limited none false⟩
    let b : Writer := ⟨"b", .plain, none, Writer.limited (some 12) false⟩
    let c : Writer := ⟨"c", .flushing fun _ => none, none, Writer.limited none false⟩
    let o : Options := .all
      [.one (.tee (.writer a)), .all [.one (.output (.writer b)), .one (.tee (.writer c))]]
    let start : Machine := ⟨.blank, .empty⟩
    let built := Act.outcome (build (fun _ => 0) o) start
    let called := Act.series exec [[.print ⟨0⟩]] built.2
    let last := Act.outcome (exec [.print ⟨1⟩, .print ⟨2⟩]) called.2
    (o.settings = [.tee (.writer a)] ++ .output (.writer b) :: [.tee (.writer c)] ∧
      b.Reports ∧ c.Reports ∧ start.world.caches = #[] ∧ called.1 = [.ok ()] ∧
      last.1 ≠ .ok ()) ∧
    (called.2.world.outside.Accepted 1 b (Text.ofString "duck\n") ∧
      ∃ t, last.2.world.outside.Accepted 1 b t ∧ t <+: Text.ofString "duck\ngoose\nswan\n") ∧
    (called.2.world.outside.Accepted 2 c (Text.ofString "duck\n") ∧
      ∃ t, last.2.world.outside.Accepted 2 c t ∧ t <+: Text.ofString "duck\ngoose\nswan\n") ∧
    last.2.world.outside.Accepted 0 a [] := by
  intro a b c o start built called last
  have hsettings : o.settings =
      [.tee (.writer a)] ++ .output (.writer b) :: [.tee (.writer c)] := rfl
  have hplain : ∀ s ∈ [Setting.tee (.writer a)] ++ [.tee (.writer c)], s.isPlain = true := by
    simp [Setting.isPlain]
  have hb : b.Reports := by
    intro earlier offer hlt
    have htaken : min offer.length (Writer.room 12 earlier) < offer.length := hlt
    simp [b, Writer.limited, htaken]
  have hc : c.Reports := fun _ _ hlt => absurd hlt (Nat.lt_irrefl _)
  have hcalled : called.1 = [.ok ()] := by decide +kernel
  have hlast : last.1 = .error (.failed (.device (Text.ofString "write failed"))) := by
    show (Act.outcome (exec _) called.2).1 = _
    decide +kernel
  have hprinted : (built.2.engine.symbols.values ([[.print ⟨0⟩]].flatMap Program.prints)).flatMap
      Text.line = Text.ofString "duck\n" := by decide +kernel
  have htried : (built.2.engine.symbols.values ([[.print ⟨0⟩]].flatMap Program.prints) ++
      called.2.tries (Program.prints [.print ⟨1⟩, .print ⟨2⟩])).flatMap Text.line =
      Text.ofString "duck\ngoose\nswan\n" := by decide +kernel
  obtain ⟨-, haccepted⟩ := accepted_exactly (fun _ => 0) hsettings hplain
    (by simp [tees, Setting.tee?, hb, hc]) start (fun _ h => absurd h (Array.not_mem_empty _))
    [[.print ⟨0⟩]] [.print ⟨1⟩, .print ⟨2⟩]
  obtain ⟨hused, hreplaced⟩ := haccepted fun r hr => List.mem_singleton.1 (hcalled ▸ hr)
  have hlate : start.world.outside.devices.size + (tees [Setting.tee (.writer a)]).length = 1 := rfl
  refine ⟨⟨hsettings, hb, hc, rfl, hcalled, by simp [hlast]⟩, ?_⟩
  rw [← hprinted, ← htried]
  rw [hlate] at hused
  simp only [last, called, built]
  exact ⟨hused 0 b rfl, hused 1 c rfl, (hreplaced 0 a rfl).2⟩

/-- A writer that the output is teed to before it is set gets nothing of what is printed. -/
theorem replaced_tee_misses_lines :
    let a : Writer := ⟨"a", .memory, none, Writer.limited none false⟩
    let b : Writer := ⟨"b", .memory, none, Writer.limited none false⟩
    let o : Options := .all [.one (.tee (.writer a)), .one (.output (.writer b))]
    let built := Act.outcome (build (fun _ => 0) o) ⟨.blank, .empty⟩
    let called := Act.series exec [[.print ⟨0⟩]] built.2
    (a.Reports ∧ b.Reports ∧ called.1 = [.ok ()]) ∧
    called.2.world.outside.Accepted 1 b (Text.ofString "duck\n") ∧
    ¬ called.2.world.outside.Accepted 0 a (Text.ofString "duck\n") := by
  intro a b o built called
  have hreports : a.Reports ∧ b.Reports :=
    ⟨fun _ _ hlt => absurd hlt (Nat.lt_irrefl _), fun _ _ hlt => absurd hlt (Nat.lt_irrefl _)⟩
  have hcalled : called.1 = [.ok ()] := by decide +kernel
  have hprinted : (built.2.engine.symbols.values ([[.print ⟨0⟩]].flatMap Program.prints)).flatMap
      Text.line = Text.ofString "duck\n" := by decide +kernel
  have hused : ∀ v ∈ [b], v.Reports := List.forall_mem_singleton.2 hreports.2
  have hok : ∀ r ∈ called.1, r = .ok () := by
    rw [hcalled]
    exact List.forall_mem_singleton.2 rfl
  have hsettings : o.settings = [.tee (.writer a)] ++ .output (.writer b) :: [] := rfl
  have hsound : ∀ c ∈ (⟨.blank, .empty⟩ : Machine).world.caches, c.Sound :=
    fun _ h => absurd h (Array.not_mem_empty _)
  obtain ⟨-, hfresh⟩ :=
    fresh_build (fun _ => 0) hsettings (by simp [Setting.isPlain]) hsound
  have hlevel := (hfresh.level hused).series [[.print ⟨0⟩]] hok
  have ha : called.2.world.outside.Accepted 0 a [] :=
    hfresh.accepted_replaced hused hlevel.feeds (k := 0) rfl
  have hb : called.2.world.outside.Accepted 1 b _ := hfresh.accepted_used hused hok (k := 0) rfl
  rw [hprinted] at hb
  refine ⟨⟨hreports.1, hreports.2, hcalled⟩, hb, fun h => ?_⟩
  cases ha.unique h

end Machine
end Birdcall
