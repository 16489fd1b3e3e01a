import Birdcall.Proofs.Assembly
import Birdcall.Proofs.Loading

/-!
# The life of an engine

An engine is made, called any number of times, and closed.

* The record.  `Outside.Handled` says which writers were flushed and closed on the way from one
  state of the outside to another.  Printing and logging flush and close nothing, so a whole run
  does not (`Machine.ran_run`).
* The output is flushed and the devices are closed in turn, and an error does not end it
  (`Outside.flushed_flushAll`, `Outside.closed_eachInTurn`).
* `Demand.Met` says what comes of a call, with one case for each way it can end.  `Machine.Kept` is
  what stays of the engine that was made, and `Machine.Kept.series` is any number of calls.
-/

namespace Birdcall

/-! ## The record -/

namespace Event

/-- The writer that was flushed. -/
def flushed? : Event → Option String
  | flushed label => some label
  | _ => none

/-- The writer that was closed. -/
def closed? : Event → Option String
  | closed label => some label
  | _ => none

def isWrote : Event → Bool
  | wrote _ _ => true
  | _ => false

theorem filterMap_of_isWrote {events : List Event} (h : ∀ e ∈ events, e.isWrote = true) :
    events.filterMap flushed? = [] ∧ events.filterMap closed? = [] := by
  simp only [List.filterMap_eq_nil_iff]
  refine ⟨fun e he => ?_, fun e he => ?_⟩
  all_goals
    have hwrote := h e he
    cases e with
    | wrote => rfl
    | flushed | closed | emitted | logged | reported | stored => cases hwrote

end Event

namespace Make

/-- The writer that is flushed with a device. -/
def flusher? : Make → Option String
  | pipe w true =>
    match w.kind with
    | .flushing _ => some w.label
    | .plain | .memory => none
  | pipe _ false | lineLog _ _ => none

/-- The writer that is closed with a device. -/
def closer? : Make → Option String
  | pipe w _ => some w.label
  | lineLog _ _ => none

end Make

namespace Pipe

theorem isWrote_offer {p p' : Pipe} {t : Text} {g : Grant} {e : Event}
    (h : p.offer t = (g, p', e)) : e.isWrote = true := by
  simp only [offer, Prod.mk.injEq] at h
  obtain ⟨-, -, rfl⟩ := h
  rfl

theorem isWrote_writeEmpty (p : Pipe) (t : Text) :
    ∀ e ∈ (p.writeEmpty t).events, e.isWrote = true := by
  fun_induction writeEmpty p t with
  | case1 => simp
  | case2 p t hlong g p' e hoffer err herror => simpa using isWrote_offer hoffer
  | case3 p t hlong g p' e hoffer herror hpos rest ih =>
    simpa using ⟨isWrote_offer hoffer, ih⟩
  | case4 p t hlong g p' e hoffer herror hzero => simpa using isWrote_offer hoffer

theorem isWrote_flushHeld (p : Pipe) (held : Text) :
    ∀ e ∈ (p.flushHeld held).events, e.isWrote = true := by
  unfold flushHeld
  split
  · simp
  · rcases hoffer : p.offer held with ⟨g, p', e⟩
    simp only
    split <;> simpa using isWrote_offer hoffer

theorem isWrote_write (p : Pipe) (t : Text) : ∀ e ∈ (p.write t).events, e.isWrote = true := by
  unfold write
  split
  · rcases hoffer : p.offer t with ⟨g, p', e⟩
    simpa using isWrote_offer hoffer
  · simp
  · next held hmanner =>
    have hflushed := p.isWrote_flushHeld (held ++ t.take (capacity - held.length))
    simp only
    split
    · simp
    · split
      · exact p.isWrote_writeEmpty t
      · split
        · exact hflushed
        · intro e he
          rcases List.mem_append.1 he with he | he
          · exact hflushed e he
          · exact isWrote_writeEmpty _ _ e he

/-- Flushing a pipe flushes its writer, if that has a flush of its own and no buffer before it. -/
theorem filterMap_flush (p : Pipe) :
    p.flush.events.filterMap Event.flushed? = p.make.flusher?.toList ∧
      p.flush.events.filterMap Event.closed? = [] := by
  unfold flush
  split
  · next hmanner =>
    have hmake : p.make = .pipe p.writer true := by
      simp only [make, Device.make, isDirect, hmanner]
    rw [hmake]
    cases hkind : p.writer.kind <;> simp [Make.flusher?, hkind, Event.flushed?, Event.closed?]
  · next hmanner => simp [make_of_buffered hmanner, Make.flusher?]
  · next held hmanner =>
    rw [make_of_buffered hmanner]
    exact Event.filterMap_of_isWrote (p.isWrote_flushHeld held)

end Pipe

namespace Outside

/-- The writers that were flushed, in order. -/
def flushings (o : Outside) : List String := o.events.toList.filterMap Event.flushed?

/-- The writers that were closed, in order. -/
def closings (o : Outside) : List String := o.events.toList.filterMap Event.closed?

/-- These writers have been flushed, and these have been closed. -/
structure Recorded (flushed closed : List String) (o : Outside) : Prop where
  flushings : o.flushings = flushed
  closings : o.closings = closed

section Recorded

variable {flushed closed : List String} {E : Outside → Prop}

theorem recorded_record (e : Event) :
    Act.Ensures (Recorded flushed closed) (record e)
      (fun _ => Recorded (flushed ++ e.flushed?.toList) (closed ++ e.closed?.toList)) E := by
  intro o h
  refine ⟨?_, ?_⟩
  · show (o.events.push e).toList.filterMap Event.flushed? = _
    rw [Array.toList_push, List.filterMap_append, ← h.flushings]
    cases hflushed : e.flushed? <;> simp [hflushed, Outside.flushings]
  · show (o.events.push e).toList.filterMap Event.closed? = _
    rw [Array.toList_push, List.filterMap_append, ← h.closings]
    cases hclosed : e.closed? <;> simp [hclosed, Outside.closings]

theorem recorded_forM (events : List Event) :
    Act.Ensures (Recorded flushed closed) (events.forM record)
      (fun _ => Recorded (flushed ++ events.filterMap Event.flushed?)
        (closed ++ events.filterMap Event.closed?)) E := by
  induction events generalizing flushed closed with
  | nil => exact .pure fun _ h => ⟨by simp [h.flushings], by simp [h.closings]⟩
  | cons e events ih =>
    refine (Act.Ensures.bind (recorded_record e) fun _ => ih).imp (fun _ h => h) (fun _ o h => ?_)
      (fun _ h => h)
    obtain ⟨hflushings, hclosings⟩ := h
    refine ⟨?_, ?_⟩
    · rw [hflushings]
      cases hflushed : e.flushed? <;> simp [hflushed]
    · rw [hclosings]
      cases hclosed : e.closed? <;> simp [hclosed]

theorem recorded_setDevice (id : Nat) (d : Device) :
    Act.Ensures (Recorded flushed closed) (setDevice id d)
      (fun _ => Recorded flushed closed) E :=
  fun _ h => ⟨h.flushings, h.closings⟩

theorem recorded_settle (id : Nat) (d : Pipe.Done) :
    Act.Ensures (Recorded flushed closed) (settle id d)
      (fun _ => Recorded (flushed ++ d.events.filterMap Event.flushed?)
        (closed ++ d.events.filterMap Event.closed?)) E :=
  .bind (recorded_setDevice id _) fun _ => .bind (recorded_forM d.events) fun _ =>
    .pure fun _ h => h

/-- Logging a line flushes nothing and closes nothing. -/
theorem recorded_log (c : Channel) (message : Text) :
    Act.Leads (Recorded flushed closed) (log c message) (Recorded flushed closed) := by
  have hrecord : Act.Ensures (Recorded flushed closed) (record (.logged c.name c.level message)) _
      (Recorded flushed closed) := recorded_record _
  simp only [Event.flushed?, Event.closed?, Option.toList_none, List.append_nil] at hrecord
  refine .bind hrecord fun _ => ?_
  cases c.reply message with
  | done => exact .pure ()
  | crash | exit => exact .throw _

theorem recorded_drain (id : Nat) (l : LineLog) (all : Bool) (held : Text) :
    Act.Leads (Recorded flushed closed) (l.drain id all held) (Recorded flushed closed) := by
  refine LineLog.ensures_drain (fun _ => recorded_setDevice id _) (fun line => ?_) all held
  rw [LineLog.logLine]
  cases l.channel with
  | none => exact Act.Leads.pure ()
  | some c => exact recorded_log c _

end Recorded

/-- On the way from `o` to `o'` these writers were flushed and these were closed, and the devices
stayed what they are. -/
structure Handled (flushed closed : List String) (o o' : Outside) : Prop where
  make : ∀ id, o'.make? id = o.make? id
  recorded : Recorded (o.flushings ++ flushed) (o.closings ++ closed) o'

namespace Handled

variable {flushed closed flushed' closed' : List String} {o o' o'' : Outside}

theorem refl (o : Outside) : Handled [] [] o o :=
  ⟨fun _ => rfl, (List.append_nil _).symm, (List.append_nil _).symm⟩

theorem trans (h : Handled flushed closed o o') (h' : Handled flushed' closed' o' o'') :
    Handled (flushed ++ flushed') (closed ++ closed') o o'' := by
  refine ⟨fun id => (h'.make id).trans (h.make id), ?_, ?_⟩
  · rw [h'.recorded.flushings, h.recorded.flushings, List.append_assoc]
  · rw [h'.recorded.closings, h.recorded.closings, List.append_assoc]

/-- Where nothing is flushed or closed, it does not matter how often. -/
theorem leads {α : Type} {start : Outside} {a : Act Outside α}
    (h : ∀ o, Handled [] [] o (Act.outcome a o).2) :
    Act.Leads (Handled flushed closed start) a (Handled flushed closed start) := by
  refine Act.leads_of_outcome fun o ho => ?_
  simpa using ho.trans (h o)

end Handled

/-- The record starts with what has been recorded. -/
theorem recorded_start (o : Outside) : Recorded (o.flushings ++ []) (o.closings ++ []) o :=
  (Handled.refl o).recorded

theorem handled_record (e : Event) (o : Outside) :
    Handled e.flushed?.toList e.closed?.toList o (Act.outcome (record e) o).2 :=
  ⟨fun _ => rfl, recorded_record (E := fun _ => True) e o ⟨rfl, rfl⟩⟩

theorem handled_write (id : Nat) (t : Text) (o : Outside) :
    Handled [] [] o (Act.outcome (write id t) o).2 := by
  refine ⟨(only_write id t o).make, ?_⟩
  rw [write, Act.outcome_get_bind]
  cases o.devices[id]? with
  | none => exact recorded_start o
  | some d =>
    cases d with
    | pipe p =>
      have hsettle : Act.Leads (Recorded o.flushings o.closings) (settle id (p.write t)) _ :=
        recorded_settle id _
      obtain ⟨hflushed, hclosed⟩ := Event.filterMap_of_isWrote (p.isWrote_write t)
      rw [hflushed, hclosed] at hsettle
      exact hsettle.outcome ⟨rfl, rfl⟩
    | lineLog l =>
      exact (Act.Leads.bind (recorded_drain id l false (l.held ++ t)) fun _ =>
        .pure (t.length, none)).outcome (recorded_start o)

/-- Flushing a device flushes its writer, if that has a flush of its own. -/
theorem handled_flush (id : Nat) (o : Outside) :
    Handled ((o.make? id).bind Make.flusher?).toList [] o (Act.outcome (flush id) o).2 := by
  refine ⟨(only_flush id o).make, ?_⟩
  rw [flush, Act.outcome_get_bind, make?]
  cases o.devices[id]? with
  | none => exact recorded_start o
  | some d =>
    cases d with
    | pipe p =>
      have hsettle : Act.Leads (Recorded o.flushings o.closings) (settle id p.flush) _ :=
        recorded_settle id _
      rw [p.filterMap_flush.1, p.filterMap_flush.2] at hsettle
      exact (Act.Leads.bind hsettle fun x => .pure x.2).outcome ⟨rfl, rfl⟩
    | lineLog l =>
      exact (Act.Leads.bind (recorded_drain id l true l.held) fun _ => .pure none).outcome
        (recorded_start o)

theorem outcome_close_pipe {o : Outside} {id : Nat} {p : Pipe}
    (h : o.devices[id]? = some (.pipe p)) :
    Act.outcome (close id) o = (.ok (p.writer.closing.getD none),
      { o with events := o.events.push (.closed p.writer.label) }) := by
  rw [close, Act.outcome_get_bind, h]
  rfl

/-- A log is closed by flushing it. -/
theorem outcome_close_lineLog {o : Outside} {id : Nat} {l : LineLog}
    (h : o.devices[id]? = some (.lineLog l)) :
    Act.outcome (close id) o = Act.outcome (flush id) o := by
  rw [close, flush, Act.outcome_get_bind, Act.outcome_get_bind, h]

theorem only_close (id : Nat) (o : Outside) : Only [id] o (Act.outcome (close id) o).2 := by
  match hd : o.devices[id]? with
  | none =>
    rw [close, Act.outcome_get_bind, hd]
    exact .refl o
  | some (.pipe p) =>
    rw [outcome_close_pipe hd]
    exact .of_devices rfl
  | some (.lineLog l) =>
    rw [outcome_close_lineLog hd]
    exact only_flush id o

theorem handled_close (id : Nat) (o : Outside) :
    Handled [] ((o.make? id).bind Make.closer?).toList o (Act.outcome (close id) o).2 := by
  refine ⟨(only_close id o).make, ?_⟩
  match hd : o.devices[id]? with
  | none =>
    rw [close, Act.outcome_get_bind, make?, hd]
    exact recorded_start o
  | some (.pipe p) =>
    rw [outcome_close_pipe hd, make?, hd]
    exact (handled_record (.closed p.writer.label) o).recorded
  | some (.lineLog l) =>
    have hflush := (handled_flush id o).recorded
    rw [make?, hd] at hflush ⊢
    rw [outcome_close_lineLog hd]
    exact hflush

end Outside

/-! ## Devices in turn -/

namespace Act

variable {σ α β : Type}

/-- The act may crash or exit, but an error is something that it gives back. -/
def Unfailing (a : Act σ α) : Prop :=
  ∀ s e, (outcome a s).1 ≠ .error (.failed e)

namespace Unfailing

theorem pure (x : α) : Unfailing (σ := σ) (Pure.pure x) := by
  intro s e h
  cases h

theorem crash (v : CrashValue) : Unfailing (σ := σ) (α := α) (Act.crash v) := by
  intro s e h
  cases h

theorem bind {a : Act σ α} {f : α → Act σ β} (h : Unfailing a) (hnext : ∀ x, Unfailing (f x)) :
    Unfailing (a >>= f) := by
  intro s e
  rw [outcome_bind]
  have hfirst := h s e
  rcases ha : outcome a s with ⟨stop | x, t⟩
  · rw [ha] at hfirst
    exact fun hfailed => hfirst (congrArg Except.error (Except.error.inj hfailed))
  · exact hnext x t e

theorem get_bind {f : σ → Act σ α} (h : ∀ s, Unfailing (f s)) : Unfailing (get >>= f) :=
  fun s e => h s s e

end Unfailing
end Act

namespace Outside

theorem unfailing_record (e : Event) : Act.Unfailing (record e) := by
  intro o e h
  cases h

theorem unfailing_setDevice (id : Nat) (d : Device) : Act.Unfailing (setDevice id d) := by
  intro o e h
  cases h

theorem unfailing_logLine (l : LineLog) (line : Text) : Act.Unfailing (l.logLine line) := by
  rw [LineLog.logLine]
  cases l.channel with
  | none => exact .pure ()
  | some c =>
    refine .bind (unfailing_record _) fun _ => ?_
    cases c.reply (l.heading ++ line) with
    | done => exact .pure ()
    | crash m => exact .crash _
    | exit =>
      intro o e h
      cases h

theorem unfailing_drain (l : LineLog) (id : Nat) (all : Bool) (held : Text) :
    Act.Unfailing (l.drain id all held) := by
  fun_induction LineLog.drain l id all held with
  | case1 held line rest hsplit ih =>
    exact .bind (unfailing_setDevice id _) fun _ => .bind (unfailing_logLine l line) fun _ => ih
  | case2 held line hsplit hall =>
    exact .bind (unfailing_setDevice id _) fun _ => unfailing_logLine l held
  | case3 held line hsplit hall => exact unfailing_setDevice id _

theorem unfailing_flush (id : Nat) : Act.Unfailing (flush id) := by
  refine .get_bind fun o => ?_
  match o.devices[id]? with
  | none => exact .crash _
  | some (.pipe p) =>
    have hsettle : Act.Unfailing (settle id p.flush) := by
      intro o e
      obtain ⟨o', hok, -⟩ := outcome_settle id p.flush o
      rw [hok]
      simp
    exact hsettle.bind fun x => .pure x.2
  | some (.lineLog l) => exact (unfailing_drain l id true l.held).bind fun _ => .pure none

theorem unfailing_close (id : Nat) : Act.Unfailing (close id) := by
  refine .get_bind fun o => ?_
  match o.devices[id]? with
  | none => exact .crash _
  | some (.pipe p) => exact (unfailing_record _).bind fun _ => .pure _
  | some (.lineLog l) => exact (unfailing_drain l id true l.held).bind fun _ => .pure none

theorem unfailing_eachInTurn {act : Nat → Act Outside (Option Error)}
    (h : ∀ id, Act.Unfailing (act id)) (ids : List Nat) : Act.Unfailing (eachInTurn act ids) := by
  induction ids with
  | nil => exact .pure none
  | cons id ids ih => exact (h id).bind fun _ => ih.bind fun _ => .pure _

/-- What devices are labelled with. -/
def labels (o : Outside) (label? : Make → Option String) (ids : List Nat) : List String :=
  ids.filterMap fun id => (o.make? id).bind label?

/-- What comes of work on devices in turn, with the labels that it puts on record. -/
structure Tended (act : Nat → Act Outside (Option Error)) (flusher closer : Make → Option String)
    (ids : List Nat) (o : Outside) (result : Except Stop (Option Error)) (o' : Outside) : Prop where
  inTurn : InTurn act ids o result o'
  handled : ∀ error, result = .ok error →
    Handled (o.labels flusher ids) (o.labels closer ids) o o'
  returns : o.Serves ids → ∃ error, result = .ok error
  unfailing : ∀ e, result ≠ .error (.failed e)

/-- What comes of flushing devices. -/
abbrev Flushed := Tended flush Make.flusher? fun _ => none

/-- What comes of closing devices. -/
abbrev Closed := Tended close (fun _ => none) Make.closer?

section Tended

variable {act : Nat → Act Outside (Option Error)} {flusher closer : Make → Option String}
  (hhandled : ∀ id o, Handled ((o.make? id).bind flusher).toList ((o.make? id).bind closer).toList o
    (Act.outcome (act id) o).2)
include hhandled

theorem Chain.handled {ids : List Nat} {errors : List (Option Error)} {o o' : Outside}
    (h : Chain act ids errors o o') :
    Handled (o.labels flusher ids) (o.labels closer ids) o o' := by
  induction h with
  | nil o => exact .refl o
  | @cons id ids x xs o o₁ o' hfirst hrest ih =>
    have hone := hhandled id o
    rw [hfirst] at hone
    -- The devices stay what they are, so the labels of the rest may be read off before.
    have hlabels : ∀ label?, o.labels label? (id :: ids) =
        ((o.make? id).bind label?).toList ++ o₁.labels label? ids := by
      intro label?
      simp only [labels, List.filterMap_cons, hone.make]
      cases (o.make? id).bind label? <;> rfl
    rw [hlabels, hlabels]
    exact hone.trans ih

theorem tended_eachInTurn (hact : ∀ id o, Only [id] o (Act.outcome (act id) o).2)
    (hserve : ∀ {ids o id}, Serves ids o → id ∈ ids →
      ∃ x o', Act.outcome (act id) o = (.ok x, o'))
    (hunfailing : ∀ id, Act.Unfailing (act id)) (ids : List Nat) (o : Outside) :
    Tended act flusher closer ids o (Act.outcome (eachInTurn act ids) o).1
      (Act.outcome (eachInTurn act ids) o).2 := by
  have hturn := inTurn_eachInTurn hact ids o
  refine ⟨hturn, fun error hok => ?_, hturn.returns hact hserve,
    unfailing_eachInTurn hunfailing ids o⟩
  generalize Act.outcome (eachInTurn act ids) o = all at hturn hok
  obtain ⟨result, o'⟩ := all
  cases hturn with
  | all h => exact h.handled hhandled
  | stopped h => cases hok

end Tended

theorem Serves.close {ids : List Nat} {o : Outside} {id : Nat} (h : o.Serves ids) (hid : id ∈ ids) :
    ∃ x o', Act.outcome (close id) o = (.ok x, o') := by
  obtain ⟨d, hd, hreturns⟩ := h id hid
  cases d with
  | pipe p => exact ⟨_, _, outcome_close_pipe hd⟩
  | lineLog l =>
    obtain ⟨o', hclose, -⟩ := outcome_close_log ⟨l, hd, hreturns⟩
    exact ⟨_, o', hclose⟩

theorem flushed_flushAll (ids : List Nat) (o : Outside) :
    Flushed ids o (Act.outcome (Output.flushAll ids) o).1
      (Act.outcome (Output.flushAll ids) o).2 := by
  rw [Output.flushAll_eq]
  refine tended_eachInTurn (fun id o => ?_) only_flush Serves.flush unfailing_flush ids o
  simpa using handled_flush id o

theorem closed_eachInTurn (ids : List Nat) (o : Outside) :
    Closed ids o (Act.outcome (eachInTurn close ids) o).1
      (Act.outcome (eachInTurn close ids) o).2 := by
  refine tended_eachInTurn (fun id o => ?_) only_close Serves.close unfailing_close ids o
  simpa using handled_close id o

end Outside

/-! ## Runs -/

namespace Output

/-- What is written flushes nothing and closes nothing. -/
theorem handled_writeOut (out : Output) (t : Text) (o : Outside) :
    Outside.Handled [] [] o (Act.outcome (out.write t) o).2 := by
  cases out with
  | discard => exact .refl o
  | device id => exact Outside.handled_write id t o
  | tee ids =>
    have hleads : Act.Leads (Outside.Handled [] [] o) (writeAll t ids)
        (Outside.Handled [] [] o) := by
      induction ids with
      | nil => exact .pure _
      | cons id ids ih =>
        rw [writeAll]
        refine .bind (Outside.Handled.leads (Outside.handled_write id t)) fun x => ?_
        obtain ⟨n, error⟩ := x
        cases error with
        | some e => exact .pure _
        | none =>
          simp only
          split
          · exact .pure _
          · exact ih
    exact hleads.outcome (.refl o)

end Output

namespace Outside

theorem handled_log (c : Channel) (message : Text) (o : Outside) :
    Handled [] [] o (Act.outcome (log c message) o).2 := by
  have hdevices : (Act.outcome (log c message) o).2.devices = o.devices := by
    rw [log, Act.outcome_bind]
    show (Act.outcome (follow (c.reply message)) _).2.devices = _
    cases c.reply message <;> rfl
  refine ⟨fun id => by rw [make?, make?, hdevices], ?_⟩
  exact (recorded_log c message).outcome (recorded_start o)

theorem handled_emit (id : Nat) (value : Text) (o : Outside) :
    Handled [] [] o (Act.outcome (emit id value) o).2 := by
  have hleads : Act.Leads (Handled [] [] o) (emit id value) (Handled [] [] o) := by
    refine .get_bind fun o _ => ?_
    match o.sinks[id]? with
    | none => exact Act.Leads.throw _
    | some s =>
      refine .bind (.modify fun _ h => ?_) fun _ =>
        .bind (Handled.leads (handled_record (.emitted s.sink.label value))) fun _ => ?_
      · exact ⟨h.make, h.recorded.flushings, h.recorded.closings⟩
      · cases s.sink.respond (value :: s.values) with
        | done => exact Act.Leads.pure ()
        | fail | crash => exact Act.Leads.throw _
  exact hleads.outcome (.refl o)

end Outside

namespace Step

variable {σ : Type} {I : σ → Prop} {emit : Symbol → Act σ Unit}

mutual

/-- Steps keep what printing a symbol keeps. -/
theorem leads_invoke (h : ∀ s, Act.Leads I (emit s) I) :
    ∀ step : Step, Act.Leads I (step.invoke emit) I
  | .emit s => by
    rw [invoke]
    exact h s
  | .call body => by
    rw [invoke]
    exact leads_invokeAll h body
  | .fail f => by
    rw [invoke]
    exact .throw _

theorem leads_invokeAll (h : ∀ s, Act.Leads I (emit s) I) :
    ∀ steps : List Step, Act.Leads I (invokeAll emit steps) I
  | [] => by
    rw [invokeAll]
    exact .pure ()
  | step :: rest => by
    rw [invokeAll]
    exact .bind (leads_invoke h step) fun _ => leads_invokeAll h rest

end

end Step

namespace Machine

/-- What an execution does before the output is flushed. -/
def run (p : Program) : Act Machine Unit := do proceed p (← find p)

/-- A run keeps what its parts keep.  Its log lines have marks of one byte. -/
theorem leads_run_of {I : Machine → Prop} {p : Program} (hemit : ∀ s, Act.Leads I (emit s) I)
    (hlog : ∀ {mark : Text} (template : Text) (args : List Text), mark.length = 1 →
      Act.Leads I (log mark template args) I)
    (hinterpret : Act.Leads I (interpret p) I)
    (hcount : ∀ id f, Act.Leads I (inWorld (World.count id f)) I)
    (hcache : ∀ {α : Type} (id : Nat) (f : Cache → Except Error (α × Cache)),
      Act.Leads I (inWorld (World.withCache id f)) I) : Act.Leads I (run p) I := by
  have hperform : ∀ a, Act.Leads I (perform p a) I := by
    intro a
    refine .get_bind fun m _ => .bind (hcount _ _) fun _ => ?_
    cases a.tier with
    | cold => exact .bind (hlog _ _ rfl) fun _ => hinterpret
    | warm => exact .bind (hcount _ _) fun _ => .bind (hlog _ _ rfl) fun _ => hinterpret
    | compiled =>
      refine .bind (hlog _ _ rfl) fun _ => ?_
      cases a.artifact with
      | none => exact Act.Leads.throw _
      | some art => exact Step.leads_invokeAll hemit art.steps
  refine .bind (R := I) ?_ fun entry => ?_
  · refine .get_bind fun m _ => ?_
    simp only
    split
    · cases m.engine.cache with
      | none => exact Act.Leads.throw _
      | some id => exact .bind (hcache id _) fun _ => Act.Leads.pure _
    · exact Act.Leads.pure _
  · cases entry with
    | none => exact .get_bind fun m _ => .bind (hcount _ _) fun _ => hinterpret
    | some r =>
      refine .get_bind fun m _ => ?_
      cases m.engine.cache with
      | none => exact Act.Leads.throw _
      | some id => exact .bind (hcache id _) fun a => hperform a

/-- What a run leaves of a machine.  The engine stays as it is but for the log, and nothing is
flushed or closed. -/
structure Ran (start m : Machine) : Prop where
  engine : ∃ l, m.engine = { start.engine with log := l }
  handled : Outside.Handled [] [] start.world.outside m.world.outside

section Ran

variable {start : Machine}

theorem ran_outside {α : Type} {a : Act Outside α}
    (ha : ∀ o, Outside.Handled [] [] o (Act.outcome a o).2) :
    Act.Leads (Ran start) (outside a) (Ran start) := by
  refine Act.leads_of_outcome fun m h => ?_
  obtain ⟨engine, o, caches, meters⟩ := m
  rw [outcome_outside]
  exact ⟨h.engine, (Outside.Handled.leads ha).outcome h.handled⟩

theorem ran_change_log (f : Log → Log) :
    Act.Leads (Ran start) (change fun e => { e with log := f e.log }) (Ran start) := by
  refine .modify fun m h => ?_
  obtain ⟨l, hengine⟩ := h.engine
  exact ⟨⟨f l, by rw [hengine]⟩, h.handled⟩

theorem ran_log (mark template : Text) (args : List Text) :
    Act.Leads (Ran start) (log mark template args) (Ran start) := by
  refine .get_bind fun m _ => .bind (ran_change_log fun _ => _) fun _ => ?_
  split
  · exact Act.Leads.pure _
  · exact ran_outside (Outside.handled_log _ _)

theorem ran_emit (s : Symbol) : Act.Leads (Ran start) (emit s) (Ran start) :=
  leads_emit_of (fun _ _ => ran_outside fun o => Output.handled_writeOut _ _ o)
    (fun _ _ => ran_outside (Outside.handled_emit _ _)) s

theorem ran_within {a : Act Machine Unit} (ha : Act.Leads (Ran start) a (Ran start)) :
    Act.Leads (Ran start) (within a) (Ran start) :=
  .bind (ran_change_log fun l => l.push _) fun _ =>
    .lastly ha (.bind (ran_change_log fun l => l.pop) fun _ => Act.Leads.pure _)

theorem ran_interpret (p : Program) : Act.Leads (Ran start) (interpret p) (Ran start) :=
  Program.ensures_walk (fun _ h => h) ran_emit (fun _ _ => ran_log _ _ _) ran_within _ _ _ _ _

theorem ran_count (id : Option Nat) (f : Meter → Meter) :
    Act.Leads (Ran start) (inWorld (World.count id f)) (Ran start) := by
  intro m h
  cases id with
  | none => exact h
  | some id => exact ⟨h.engine, h.handled⟩

theorem ran_withCache {α : Type} (id : Nat) (f : Cache → Except Error (α × Cache)) :
    Act.Leads (Ran start) (inWorld (World.withCache id f)) (Ran start) := by
  refine Act.leads_of_outcome fun m h => ?_
  rw [inWorld, Act.outcome_on, World.withCache, Act.outcome_get_bind]
  cases m.world.caches[id]? with
  | none => exact h
  | some c =>
    simp only
    cases f c with
    | error e => exact h
    | ok x => exact ⟨h.engine, h.handled⟩

theorem ran_run (p : Program) : Act.Leads (Ran start) (run p) (Ran start) :=
  leads_run_of ran_emit (fun _ _ _ => ran_log _ _ _) (ran_interpret p) ran_count ran_withCache

end Ran

/-! ## Flushing, loading and closing -/

/-- The output is flushed whether an error is pending or not, and afterwards none is. -/
theorem outcome_flush_eq (m : Machine) :
    ∃ flushed o', Outside.Flushed m.engine.out.devices m.world.outside flushed o' ∧
      Act.outcome flush m = (flushed.map m.engine.pending.or,
        ⟨{ m.engine with pending := none }, { m.world with outside := o' }⟩) := by
  obtain ⟨e, o, caches, meters⟩ := m
  refine ⟨_, _, Outside.flushed_flushAll e.out.devices o, ?_⟩
  rw [flush, Act.outcome_get_bind]
  simp only
  rw [Act.outcome_bind, outcome_change]
  simp only
  rw [Act.outcome_bind, outcome_outside, Output.flush_eq]
  rcases Act.outcome (Output.flushAll e.out.devices) o with ⟨stop | error, o'⟩
  · rfl
  · rfl

theorem outcome_closeAll (ids : List Nat) (e : Engine) (o : Outside) (caches : Array Cache)
    (meters : Array Meter) :
    Act.outcome (closeAll ids) ⟨e, o, caches, meters⟩ =
      ((Act.outcome (Outside.eachInTurn Outside.close ids) o).1,
        ⟨e, (Act.outcome (Outside.eachInTurn Outside.close ids) o).2, caches, meters⟩) := by
  induction ids generalizing o with
  | nil => rfl
  | cons id ids ih =>
    rw [closeAll, Outside.eachInTurn, Act.outcome_bind, Act.outcome_bind, outcome_outside]
    rcases Act.outcome (Outside.close id) o with ⟨stop | error, o₁⟩
    · rfl
    · simp only
      rw [Act.outcome_bind, Act.outcome_bind, ih]
      rcases Act.outcome (Outside.eachInTurn Outside.close ids) o₁ with ⟨stop | later, o₂⟩
      · rfl
      · rfl

/-- Loading a source closes what it was read from, and flushes nothing. -/
theorem handled_load (s : Source) (m : Machine) :
    ∃ events closed, Act.outcome (inWorld (World.load s)) m =
        (s.program, { m with world.outside.events := events }) ∧
      Outside.Handled [] closed m.world.outside { m.world.outside with events } := by
  have hforM : ∀ labels : List String,
      Act.Leads (fun w => ∃ closed, Outside.Handled [] closed m.world.outside w.outside)
        (labels.forM fun label => World.doing (Outside.record (.closed label)))
        (fun w => ∃ closed, Outside.Handled [] closed m.world.outside w.outside) := by
    intro labels
    induction labels with
    | nil => exact .pure ()
    | cons label labels ih =>
      refine .bind (Act.leads_of_outcome fun w h => ?_) fun _ => ih
      obtain ⟨closed, hclosed⟩ := h
      exact ⟨closed ++ [label], hclosed.trans (Outside.handled_record (.closed label) w.outside)⟩
  have hleads : Act.Leads (fun w => ∃ closed, Outside.Handled [] closed m.world.outside w.outside)
      (World.load s)
      (fun w => ∃ closed, Outside.Handled [] closed m.world.outside w.outside) := by
    refine .bind (hforM _) fun _ => ?_
    split
    · exact Act.Leads.throw _
    · split
      · exact Act.Leads.throw _
      · exact Act.Leads.pure _
  obtain ⟨events, hload⟩ := World.outcome_load s m.world
  obtain ⟨closed, hhandled⟩ := hleads.outcome ⟨[], .refl _⟩
  rw [hload] at hhandled
  exact ⟨events, closed, by rw [inWorld, Act.outcome_on, hload], hhandled⟩

end Machine

/-! ## Calls -/

/-- What an engine may be asked for. -/
inductive Demand
  | program (p : Program)
  | source (s : Source)
  | close

namespace Demand

/-- What an engine does when it is asked for something. -/
def act : Demand → Act Machine Unit
  | program p => Machine.exec p
  | source s => Machine.execSource s
  | close => Machine.close

/-- Whether the output gets flushed. -/
def flushes : Demand → Bool
  | program _ | close => true
  | source s => s.program.toOption.isSome

/-- Whether an engine has nothing left to close: it was closed, and closing it returned. -/
def clears : Demand → Except Stop Unit → Bool
  | close, .ok _ | close, .error (.failed _) => true
  | _, _ => false

/-- How a call ends that comes to an error or to none. -/
def settled : Option Error → Except Stop Unit
  | none => .ok ()
  | some e => .error (.failed e)

theorem outcome_check {σ : Type} (error : Option Error) (s : σ) :
    Act.outcome (Act.check error) s = (settled error, s) := by
  cases error <;> rfl

/-- How an execution ends.  The end of the run comes first, then the pending error, and then the
one from flushing; only where flushing itself does not return, this counts. -/
def verdict (ended : Except Stop Unit) (pending : Option Error)
    (flushed : Except Stop (Option Error)) : Except Stop Unit :=
  match flushed, ended with
  | .error stop, _ => .error stop
  | .ok _, .error stop => .error stop
  | .ok error, .ok _ => settled (pending.or error)

open Outside (Flushed Closed Handled)

/-- What comes of a demand. -/
inductive Met : Machine → Demand → Except Stop Unit → Machine → Prop
  /-- A program is run, and the output is flushed once behind it. -/
  | executed {m m₁ : Machine} {p : Program} {ended : Except Stop Unit}
      {flushed : Except Stop (Option Error)} {o' : Outside}
      (hrun : Act.outcome (Machine.run p) m = (ended, m₁)) (hran : m.Ran m₁)
      (hflush : Flushed m.engine.out.devices m₁.world.outside flushed o') :
      Met m (.program p) (verdict ended m.engine.pending flushed)
        ⟨{ m₁.engine with pending := none }, { m₁.world with outside := o' }⟩
  /-- A source that holds a program is executed as that. -/
  | loaded {m m' : Machine} {s : Source} {p : Program} {closed : List String}
      {events : Array Event} {result : Except Stop Unit} (hs : s.program = .ok p)
      (hload : Handled [] closed m.world.outside { m.world.outside with events })
      (hmet : Met { m with world.outside.events := events } (.program p) result m') :
      Met m (.source s) result m'
  /-- For any other source there is its error and nothing more. -/
  | refused {m : Machine} {s : Source} {stop : Stop} {closed : List String}
      {events : Array Event} (hs : s.program = .error stop)
      (hload : Handled [] closed m.world.outside { m.world.outside with events }) :
      Met m (.source s) (.error stop) { m with world.outside.events := events }
  /-- The output is flushed, all that is to be closed is closed, and the first error counts. -/
  | closed {m : Machine} {error later : Option Error} {o₁ o' : Outside}
      (hflush : Flushed m.engine.out.devices m.world.outside (.ok error) o₁)
      (hclose : Closed m.engine.closers o₁ (.ok later) o') :
      Met m .close (settled ((m.engine.pending.or error).or later))
        ⟨{ m.engine with pending := none, closers := [] }, { m.world with outside := o' }⟩
  /-- Flushing the output does not return. -/
  | stuck {m : Machine} {stop : Stop} {o' : Outside}
      (hflush : Flushed m.engine.out.devices m.world.outside (.error stop) o') :
      Met m .close (.error stop)
        ⟨{ m.engine with pending := none }, { m.world with outside := o' }⟩
  /-- Closing a device does not return. -/
  | jammed {m : Machine} {error : Option Error} {stop : Stop} {o₁ o' : Outside}
      (hflush : Flushed m.engine.out.devices m.world.outside (.ok error) o₁)
      (hclose : Closed m.engine.closers o₁ (.error stop) o') :
      Met m .close (.error stop)
        ⟨{ m.engine with pending := none }, { m.world with outside := o' }⟩

theorem met_program (p : Program) (m : Machine) :
    Met m (.program p) (Act.outcome (Machine.exec p) m).1 (Act.outcome (Machine.exec p) m).2 := by
  have hran : m.Ran (Act.outcome (Machine.run p) m).2 :=
    (Machine.ran_run p).outcome ⟨⟨m.engine.log, rfl⟩, .refl _⟩
  rcases hrun : Act.outcome (Machine.run p) m with ⟨ended, m₁⟩
  rw [hrun] at hran
  obtain ⟨flushed, o', hflush, houtcome⟩ := Machine.outcome_flush_eq m₁
  have hexec : Act.outcome (Machine.exec p) m = (verdict ended m₁.engine.pending flushed,
      ⟨{ m₁.engine with pending := none }, { m₁.world with outside := o' }⟩) := by
    show Act.outcome (Act.lastly (Machine.run p) Machine.flush) m = _
    rw [Act.outcome_lastly, hrun]
    simp only
    rw [houtcome]
    rcases flushed with stop | error
    · rfl
    · rcases ended with stop | x
      · rfl
      · simp only [Except.map, verdict]
        cases m₁.engine.pending.or error <;> rfl
  -- The run has left the output and the pending error as they were.
  obtain ⟨l, hengine⟩ := hran.engine
  have hout : m₁.engine.out = m.engine.out := by rw [hengine]
  have hpending : m₁.engine.pending = m.engine.pending := by rw [hengine]
  rw [hout] at hflush
  rw [hexec, hpending]
  exact .executed hrun hran hflush

theorem met (d : Demand) (m : Machine) :
    Met m d (Act.outcome d.act m).1 (Act.outcome d.act m).2 := by
  cases d with
  | program p => exact met_program p m
  | source s =>
    obtain ⟨events, closed, hload, hhandled⟩ := Machine.handled_load s m
    have hact : Act.outcome (source s).act m =
        Act.outcome (do Machine.exec (← Machine.inWorld (World.load s))) m := rfl
    rw [hact, Act.outcome_bind, hload]
    cases hs : s.program with
    | error stop => exact .refused hs hhandled
    | ok p => exact .loaded hs hhandled (met_program p _)
  | close =>
    obtain ⟨flushed, o₁, hflush, houtcome⟩ := Machine.outcome_flush_eq m
    obtain ⟨e, o, caches, meters⟩ := m
    show Met _ _ (Act.outcome Machine.close _).1 (Act.outcome Machine.close _).2
    rw [Machine.close, Act.outcome_bind, houtcome]
    rcases flushed with stop | error
    · exact .stuck hflush
    · have hclosed := Outside.closed_eachInTurn e.closers o₁
      simp only [Except.map]
      rw [Act.outcome_get_bind]
      simp only
      rw [Act.outcome_bind, Machine.outcome_closeAll]
      generalize Act.outcome (Outside.eachInTurn Outside.close e.closers) o₁ = all at hclosed ⊢
      obtain ⟨stop | later, o'⟩ := all
      · exact .jammed hflush hclosed
      · simp only
        rw [Act.outcome_bind, Machine.outcome_change]
        simp only
        rw [outcome_check]
        exact .closed hflush hclosed

end Demand

namespace Machine

/-- What is left of an engine as it was built, after some demands and what came of them. -/
structure Kept (built : Machine) (demands : List Demand) (results : List (Except Stop Unit))
    (m : Machine) : Prop where
  length : demands.length = results.length
  out : m.engine.out = built.engine.out
  /-- An error stays pending until the output is flushed. -/
  pending : m.engine.pending =
    if demands.any Demand.flushes then none else built.engine.pending
  /-- Nothing is left to close once closing has returned. -/
  closers : m.engine.closers =
    if (demands.zip results).any fun x => x.1.clears x.2 then [] else built.engine.closers
  make : ∀ id, m.world.outside.make? id = built.world.outside.make? id

end Machine

namespace Demand

/-- What a demand changes of an engine. -/
structure Uses (d : Demand) (result : Except Stop Unit) (m m' : Machine) : Prop where
  out : m'.engine.out = m.engine.out
  pending : m'.engine.pending = if d.flushes then none else m.engine.pending
  closers : m'.engine.closers = if d.clears result then [] else m.engine.closers
  make : ∀ id, m'.world.outside.make? id = m.world.outside.make? id

theorem clears_of_unfailing {α : Type} {stop : Stop} {result : Except Stop α}
    (hresult : result = .error stop) (h : ∀ e, result ≠ .error (.failed e)) :
    close.clears (.error stop) = false := by
  cases stop with
  | failed e => exact absurd hresult (h e)
  | crashed | exited => rfl

theorem Met.uses {d : Demand} {result : Except Stop Unit} {m m' : Machine}
    (h : Met m d result m') : d.Uses result m m' := by
  induction h with
  | @executed m m₁ p ended flushed o' hrun hran hflush =>
    obtain ⟨l, hengine⟩ := hran.engine
    refine ⟨by rw [hengine], rfl, by simp [hengine, clears], fun id => ?_⟩
    rw [(hflush.inTurn.only Outside.only_flush).make id, hran.handled.make id]
  | @loaded m m' s p closed events result hs hload hmet ih =>
    refine ⟨ih.out, ?_, ih.closers, fun id => (ih.make id).trans (hload.make id)⟩
    rw [ih.pending]
    simp [flushes, hs, Except.toOption]
  | refused hs hload =>
    refine ⟨rfl, ?_, rfl, hload.make⟩
    simp [flushes, hs, Except.toOption]
  | @closed m error later o₁ o' hflush hclose =>
    refine ⟨rfl, rfl, ?_, fun id => ?_⟩
    · cases (m.engine.pending.or error).or later <;> rfl
    · rw [(hclose.inTurn.only Outside.only_close).make id,
        (hflush.inTurn.only Outside.only_flush).make id]
  | @stuck m stop o' hflush =>
    refine ⟨rfl, rfl, ?_, (hflush.inTurn.only Outside.only_flush).make⟩
    rw [clears_of_unfailing rfl hflush.unfailing]
    rfl
  | @jammed m error stop o₁ o' hflush hclose =>
    refine ⟨rfl, rfl, ?_, fun id => ?_⟩
    · rw [clears_of_unfailing rfl hclose.unfailing]
      rfl
    · rw [(hclose.inTurn.only Outside.only_close).make id,
        (hflush.inTurn.only Outside.only_flush).make id]

end Demand

namespace Machine

variable {built m m' : Machine} {demands : List Demand} {results : List (Except Stop Unit)}

theorem Kept.concat (h : Kept built demands results m) {d : Demand} {result : Except Stop Unit}
    (hd : d.Uses result m m') : Kept built (demands ++ [d]) (results ++ [result]) m' := by
  refine ⟨by simp [h.length], hd.out.trans h.out, ?_, ?_, fun id => (hd.make id).trans (h.make id)⟩
  · rw [hd.pending, h.pending]
    cases hflushes : d.flushes <;> simp [hflushes]
  · have hany : ((demands ++ [d]).zip (results ++ [result])).any (fun x => x.1.clears x.2) =
        ((demands.zip results).any (fun x => x.1.clears x.2) || d.clears result) := by
      simp [List.zip_append h.length]
    rw [hd.closers, h.closers, hany]
    generalize (demands.zip results).any _ = cleared
    cases cleared <;> cases d.clears result <;> rfl

/-- Any number of demands may follow. -/
theorem Kept.series (h : Kept built demands results m) (more : List Demand) :
    Kept built (demands ++ more) (results ++ (Act.series Demand.act more m).1)
      (Act.series Demand.act more m).2 := by
  -- What has been done moves to the left, so that the rest gets shorter.
  induction more generalizing demands results m with
  | nil => simpa [Act.series] using h
  | cons d more ih =>
    have hnext := ih (h.concat (d.met m).uses)
    rw [List.append_assoc, List.append_assoc] at hnext
    exact hnext

/-- An engine flushes its output after each execution and before it is closed, hands out the
pending error at most once, and closes what it was given at most once. -/
theorem flushes_and_closes (digest : Program → UInt64) (o : Options) (start : World) :
    let settings := Options.default.settings ++ o.settings
    Act.Ensures (fun m => m.world = start) (build digest o)
      (fun _ built =>
        (∃ before t after, Setting.LastOutput settings before t after ∧
          built.engine.pending = (Setting.devices before).findSome? Device.fault) ∧
        built.engine.closers.map built.world.outside.make? =
          ((settings.filterMap Setting.added?).filter Target.closes).reverse.map Target.make? ∧
        built.engine.closers.Pairwise (· > ·) ∧
        ∀ (demands : List Demand) (d : Demand),
          let past := Act.series Demand.act demands built
          let last := Act.outcome d.act past.2
          Kept built demands past.1 past.2 ∧ d.Met past.2 last.1 last.2)
      (fun _ => Setting.Escapes settings) := by
  intro settings
  rw [build_eq]
  refine (ensures_assemble digest start o.settings).imp (fun _ h => h) (fun _ built h => ?_)
    fun _ h => h
  obtain ⟨-, hrigged⟩ := h
  obtain ⟨before, t, after, hlast, hplugged⟩ := hrigged.plugged
  refine ⟨⟨before, t, after, hlast, hplugged.pending⟩, hrigged.closers, hrigged.sorted,
    fun demands d => ?_⟩
  have hstart : Kept built [] [] built := ⟨rfl, rfl, rfl, rfl, fun _ => rfl⟩
  exact ⟨hstart.series demands, d.met _⟩

end Machine
end Birdcall
