import Birdcall.Output
import Birdcall.Proofs.Act

/-!
# Nothing looks at the record

Everything done to the outside is recorded, and nothing that is done looks at the record.  So two
outsides that differ only there stay that way, and what is done to them ends in the same way.  In
what they differ is up to a relation, as long as it is `Outside.Unseen`.

The lemmas follow the outside from the bottom up: the record, devices and sinks, line logs, outputs.

Most of the time the outsides differ only in what was logged (`Outside.Alike`).  Logging a line that
leads to nothing changes the record and nothing else (`outcome_log`).
-/

namespace Birdcall

/-- Whether an event is a log line. -/
def Event.isLogged : Event → Bool
  | logged .. => true
  | _ => false

namespace Outside

/-- Everything that was done except logging. -/
def unlogged (o : Outside) : List Event := o.events.toList.filter (!·.isLogged)

/-- Two outsides that differ only in what was logged. -/
structure Alike (o o' : Outside) : Prop where
  devices : o.devices = o'.devices
  sinks : o.sinks = o'.sinks
  unlogged : o.unlogged = o'.unlogged

theorem Alike.refl (o : Outside) : Alike o o :=
  ⟨rfl, rfl, rfl⟩

theorem Alike.symm {o o' : Outside} (h : Alike o o') : Alike o' o :=
  ⟨h.devices.symm, h.sinks.symm, h.unlogged.symm⟩

theorem Alike.trans {o o' o'' : Outside} (h : Alike o o') (h' : Alike o' o'') : Alike o o'' :=
  ⟨h.devices.trans h'.devices, h.sinks.trans h'.sinks, h.unlogged.trans h'.unlogged⟩

/-- An act that does the same to outsides that differ only in what was logged. -/
def Blind {α : Type} (a : Act Outside α) : Prop := Act.Matches Alike a a

/-- Recording a log line changes nothing else. -/
theorem alike_record_logged (o : Outside) (channel : Text) (level : Level) (message : Text) :
    Alike (Act.outcome (record (.logged channel level message)) o).2 o := by
  refine ⟨rfl, rfl, ?_⟩
  simp [Act.outcome, record, unlogged, Event.isLogged]

/-- Logging a line that leads to nothing leaves all but the record alone. -/
theorem outcome_log {c : Channel} {message : Text} (h : c.reply message = .done) (o : Outside) :
    (Act.outcome (log c message) o).1 = .ok () ∧ Alike (Act.outcome (log c message) o).2 o := by
  have hlog : Act.outcome (log c message) o =
      (.ok (), (Act.outcome (record (.logged c.name c.level message)) o).2) := by
    rw [log, h]
    rfl
  rw [hlog]
  exact ⟨rfl, alike_record_logged o _ _ _⟩

/-- A relation between outsides that have the same devices and sinks, which is kept when these change
and when an event is recorded, if it is done to both. -/
structure Unseen (R : Outside → Outside → Prop) : Prop where
  devices : ∀ {o o'}, R o o' → o.devices = o'.devices
  sinks : ∀ {o o'}, R o o' → o.sinks = o'.sinks
  change : ∀ {o o'}, R o o' → ∀ devices sinks,
    R ⟨devices, sinks, o.events⟩ ⟨devices, sinks, o'.events⟩
  record : ∀ {o o'}, R o o' → ∀ e,
    R { o with events := o.events.push e } { o' with events := o'.events.push e }

theorem unseen_alike : Unseen Alike where
  devices h := h.devices
  sinks h := h.sinks
  change h _ _ := ⟨rfl, rfl, h.unlogged⟩
  record h e := by
    refine ⟨h.devices, h.sinks, ?_⟩
    have hunlogged := h.unlogged
    simp only [unlogged] at hunlogged
    simp [unlogged, hunlogged]

namespace Unseen

variable {R : Outside → Outside → Prop}

/-! ## The record -/

theorem matches_record (hR : Unseen R) (e : Event) :
    Act.Matches R (Outside.record e) (Outside.record e) := by
  intro o o' h
  exact ⟨rfl, hR.record h e⟩

theorem matches_follow (r : Reply) : Act.Matches R (follow r) (follow r) := by
  cases r with
  | done => exact .pure ()
  | crash m => exact .crash _
  | exit => exact .throw _

theorem matches_log (hR : Unseen R) (c : Channel) (message : Text) :
    Act.Matches R (log c message) (log c message) :=
  (hR.matches_record _).bind fun _ => matches_follow _

/-! ## Devices and sinks -/

theorem matches_setDevice (hR : Unseen R) (id : Nat) (d : Device) :
    Act.Matches R (setDevice id d) (setDevice id d) := by
  intro o o' h
  have hset := hR.change h (o'.devices.setIfInBounds id d) o'.sinks
  refine ⟨rfl, ?_⟩
  simpa [Act.outcome, setDevice, hR.devices h, hR.sinks h] using hset

theorem matches_emit (hR : Unseen R) (id : Nat) (value : Text) :
    Act.Matches R (emit id value) (emit id value) := by
  refine .get_bind fun o o' h => ?_
  rw [hR.sinks h]
  cases o'.sinks[id]? with
  | none => exact .crash _
  | some s =>
    refine .bind (.modify fun o o' h => ?_) fun _ => ?_
    · rw [hR.devices h, hR.sinks h]
      exact hR.change h _ _
    · refine (hR.matches_record _).bind fun _ => ?_
      cases s.sink.respond (value :: s.values) with
      | done => exact .pure ()
      | fail e => exact .fail e
      | crash v => exact .crash v

theorem matches_forM_record (hR : Unseen R) (events : List Event) :
    Act.Matches R (events.forM Outside.record) (events.forM Outside.record) := by
  induction events with
  | nil => exact .pure _
  | cons e events ih => exact (hR.matches_record e).bind fun _ => ih

theorem matches_settle (hR : Unseen R) (id : Nat) (d : Pipe.Done) :
    Act.Matches R (settle id d) (settle id d) :=
  (hR.matches_setDevice id _).bind fun _ => (hR.matches_forM_record _).bind fun _ => .pure _

/-! ## Line logs -/

theorem matches_logLine (hR : Unseen R) (l : LineLog) (line : Text) :
    Act.Matches R (l.logLine line) (l.logLine line) := by
  rw [LineLog.logLine]
  split
  · exact .pure ()
  · exact hR.matches_log _ _

theorem matches_drain (hR : Unseen R) (l : LineLog) (id : Nat) (all : Bool) (held : Text) :
    Act.Matches R (l.drain id all held) (l.drain id all held) := by
  fun_induction LineLog.drain l id all held with
  | case1 held line rest h ih =>
    exact (hR.matches_setDevice _ _).bind fun _ => (hR.matches_logLine l line).bind fun _ => ih
  | case2 held line h hall =>
    exact (hR.matches_setDevice _ _).bind fun _ => hR.matches_logLine l held
  | case3 held line h hall => exact hR.matches_setDevice _ _

/-! ## Outputs -/

theorem matches_write (hR : Unseen R) (id : Nat) (t : Text) :
    Act.Matches R (write id t) (write id t) := by
  refine .get_bind fun o o' h => ?_
  rw [hR.devices h]
  cases o'.devices[id]? with
  | none => exact .crash _
  | some d =>
    cases d with
    | pipe p => exact hR.matches_settle id _
    | lineLog l => exact (hR.matches_drain l id false _).bind fun _ => .pure _

theorem matches_flush (hR : Unseen R) (id : Nat) : Act.Matches R (flush id) (flush id) := by
  refine .get_bind fun o o' h => ?_
  rw [hR.devices h]
  cases o'.devices[id]? with
  | none => exact .crash _
  | some d =>
    cases d with
    | pipe p => exact (hR.matches_settle id _).bind fun _ => .pure _
    | lineLog l => exact (hR.matches_drain l id true _).bind fun _ => .pure _

theorem matches_writeAll (hR : Unseen R) (t : Text) (ids : List Nat) :
    Act.Matches R (Output.writeAll t ids) (Output.writeAll t ids) := by
  induction ids with
  | nil => exact .pure _
  | cons id ids ih =>
    refine (hR.matches_write id t).bind fun (n, error) => ?_
    cases error with
    | some e => exact .pure _
    | none =>
      simp only
      split
      · exact .pure _
      · exact ih

theorem matches_flushAll (hR : Unseen R) (ids : List Nat) :
    Act.Matches R (Output.flushAll ids) (Output.flushAll ids) := by
  induction ids with
  | nil => exact .pure _
  | cons id ids ih => exact (hR.matches_flush id).bind fun _ => ih.bind fun _ => .pure _

theorem matches_outputWrite (hR : Unseen R) (out : Output) (t : Text) :
    Act.Matches R (out.write t) (out.write t) := by
  cases out with
  | discard => exact .pure _
  | device id => exact hR.matches_write id t
  | tee ids => exact hR.matches_writeAll t ids

theorem matches_outputFlush (hR : Unseen R) (out : Output) :
    Act.Matches R out.flush out.flush := by
  cases out with
  | discard => exact .pure _
  | device id => exact hR.matches_flush id
  | tee ids => exact hR.matches_flushAll ids

end Unseen
end Outside
end Birdcall
