import Birdcall.Proofs.Ensures
import Birdcall.Proofs.Pipes

/-!
# Joined outputs

Outputs are joined to one that leads to the devices of all of them.

* Joining.  `Branching` is any nesting of joins.  What is joined comes apart into its leaves, so the
  nesting does not matter (`Branching.join_outputs`).
* One device.  Work on a device is done to this device only, and leaves it what it is
  (`Outside.Only`): a pipe stays a pipe to its writer, and a log stays a log of its channel.
* All devices.  `Outside.Chain` is work on one device after the other.  Writing to several devices
  stops at the first one that does not take everything (`Output.written_writeAll`), and flushing
  goes on to the last (`Output.inTurn_flushAll`).
-/

namespace Birdcall

/-! ## Joining -/

/-- Outputs that are to be joined, some of which may be joins in turn. -/
inductive Branching
  /-- An output that is not there. -/
  | absent
  | discard
  | device (id : Nat)
  | join (parts : List Branching)

namespace Output

theorem devices_ofDevices (ids : List Nat) : (ofDevices ids).devices = ids := by
  match ids with
  | [] => rfl
  | [id] => rfl
  | id :: id' :: ids => rfl

/-- The devices that an output leads to, if it is there. -/
def devices? (o : Option Output) : List Nat := (o.map devices).getD []

/-- Whether an output is there and leads somewhere. -/
def leads (o : Option Output) : Bool := o ≠ none ∧ o ≠ some discard

theorem isDiscard_ofDevices (ids : List Nat) : (ofDevices ids).isDiscard = true ↔ ids = [] := by
  match ids with
  | [] => simp [ofDevices, isDiscard]
  | [id] => simp [ofDevices, isDiscard]
  | id :: id' :: ids => simp [ofDevices, isDiscard]

theorem ofDevices_eq_tee {ids ids' : List Nat} (h : ofDevices ids = tee ids') :
    ids' = ids ∧ 2 ≤ ids.length := by
  match ids with
  | [] => cases h
  | [id] => cases h
  | id :: id' :: ids =>
    cases h
    exact ⟨rfl, by simp⟩

end Output

namespace Branching

mutual

/-- The output that comes out, unless there is none. -/
def output? : Branching → Option Output
  | absent => none
  | discard => some .discard
  | device id => some (.device id)
  | join parts => some (.join (outputs parts))

def outputs : List Branching → List (Option Output)
  | [] => []
  | b :: rest => b.output? :: outputs rest

end

mutual

/-- The outputs that are no joins, in order. -/
def leaves : Branching → List (Option Output)
  | absent => [none]
  | discard => [some .discard]
  | device id => [some (.device id)]
  | join parts => leavesOfAll parts

def leavesOfAll : List Branching → List (Option Output)
  | [] => []
  | b :: rest => b.leaves ++ leavesOfAll rest

end

mutual

theorem devices_output? :
    ∀ b : Branching, Output.devices? b.output? = b.leaves.flatMap Output.devices?
  | absent => rfl
  | discard => rfl
  | device _ => rfl
  | join parts => by
    show (Output.ofDevices ((outputs parts).flatMap Output.devices?)).devices = _
    rw [Output.devices_ofDevices, devices_outputs parts, leaves]

theorem devices_outputs : ∀ parts : List Branching,
    (outputs parts).flatMap Output.devices? = (leavesOfAll parts).flatMap Output.devices?
  | [] => rfl
  | b :: rest => by
    rw [outputs, List.flatMap_cons, devices_output? b, devices_outputs rest, leavesOfAll,
      List.flatMap_append]

end

/-- It does not matter how joins are nested. -/
theorem join_outputs (parts : List Branching) :
    Output.join (outputs parts) = Output.join (leavesOfAll parts) :=
  congrArg Output.ofDevices (devices_outputs parts)

mutual

/-- The leaves that lead somewhere are devices. -/
theorem filter_leaves : ∀ b : Branching,
    b.leaves.filter Output.leads = (b.leaves.flatMap Output.devices?).map (some <| .device ·)
  | absent => rfl
  | discard => rfl
  | device _ => rfl
  | join parts => by
    rw [leaves]
    exact filter_leavesOfAll parts

theorem filter_leavesOfAll : ∀ parts : List Branching,
    (leavesOfAll parts).filter Output.leads =
      ((leavesOfAll parts).flatMap Output.devices?).map (some <| .device ·)
  | [] => rfl
  | b :: rest => by
    rw [leavesOfAll, List.filter_append, filter_leaves b, filter_leavesOfAll rest,
      List.flatMap_append, List.map_append]

end

end Branching

/-! ## One device -/

namespace Pipe

/-- Whether every write goes straight through. -/
def isDirect (p : Pipe) : Bool :=
  match p.manner with
  | .direct => true
  | .buffered _ _ => false

end Pipe

/-- What a device is and stays: a pipe to a writer, straight or not, or a log of a channel. -/
inductive Make
  | pipe (w : Writer) (direct : Bool)
  | lineLog (channel : Option Channel) (heading : Text)

def Device.make : Device → Make
  | pipe p => .pipe p.writer p.isDirect
  | lineLog l => .lineLog l.channel l.heading

namespace Pipe

def make (p : Pipe) : Make := (Device.pipe p).make

theorem taken_offer_le {p p' : Pipe} {t : Text} {g : Grant} {e : Event}
    (h : p.offer t = (g, p', e)) : g.taken ≤ t.length := by
  simp only [offer, Prod.mk.injEq] at h
  obtain ⟨rfl, -, -⟩ := h
  exact Nat.min_le_right _ _

theorem make_writeEmpty (p : Pipe) (t : Text) :
    (p.writeEmpty t).pipe.make = .pipe p.writer false ∧ (p.writeEmpty t).taken ≤ t.length := by
  fun_induction writeEmpty p t with
  | case1 => exact ⟨rfl, Nat.le_refl _⟩
  | case2 p t hlong g p' e hoffer err herror =>
    exact ⟨congrArg (Make.pipe · false) (offer_eq hoffer).1, taken_offer_le hoffer⟩
  | case3 p t hlong g p' e hoffer herror hpos rest ih =>
    obtain ⟨hmake, htaken⟩ := ih
    rw [(offer_eq hoffer).1] at hmake
    refine ⟨hmake, ?_⟩
    have hle := taken_offer_le hoffer
    rw [List.length_drop] at htaken
    show g.taken + (p'.writeEmpty (t.drop g.taken)).taken ≤ t.length
    omega
  | case4 p t hlong g p' e hoffer herror hzero =>
    exact ⟨congrArg (Make.pipe · false) (offer_eq hoffer).1, Nat.zero_le _⟩

theorem make_flushHeld {p : Pipe} (h : p.make = .pipe p.writer false) (held : Text) :
    (p.flushHeld held).pipe.make = p.make := by
  unfold flushHeld
  split
  · rfl
  · rcases hoffer : p.offer held with ⟨g, p', e⟩
    have hwriter := (offer_eq hoffer).1
    rw [h, ← hwriter]
    simp only
    split <;> rfl

theorem make_of_buffered {p : Pipe} {held : Text} {fault : Option Error}
    (h : p.manner = .buffered held fault) : p.make = .pipe p.writer false := by
  simp only [make, Device.make, isDirect, h]

/-- A write takes no more than it is given, and leaves the pipe what it is. -/
theorem make_write (p : Pipe) (t : Text) :
    (p.write t).pipe.make = p.make ∧ (p.write t).taken ≤ t.length := by
  unfold write
  split
  · next hmanner =>
    rcases hoffer : p.offer t with ⟨g, p', e⟩
    obtain ⟨hwriter, hmanner', -⟩ := offer_eq hoffer
    exact ⟨by simp only [make, Device.make, isDirect, hwriter, hmanner'], taken_offer_le hoffer⟩
  · exact ⟨rfl, Nat.zero_le _⟩
  · next held hmanner =>
    have hmake := make_of_buffered hmanner
    simp only
    split
    · exact ⟨hmake.symm, Nat.le_refl _⟩
    · next hlong =>
      split
      · obtain ⟨hempty, htaken⟩ := make_writeEmpty p t
        exact ⟨hempty.trans hmake.symm, htaken⟩
      · have hflushed := make_flushHeld hmake (held ++ t.take (capacity - held.length))
        split
        · refine ⟨hflushed, ?_⟩
          show capacity - held.length ≤ t.length
          omega
        · obtain ⟨hempty, htaken⟩ := make_writeEmpty
            (p.flushHeld (held ++ t.take (capacity - held.length))).pipe
            (t.drop (capacity - held.length))
          have hwriter := (Make.pipe.inj (hflushed.trans hmake)).1
          refine ⟨(hempty.trans (congrArg (Make.pipe · false) hwriter)).trans hmake.symm, ?_⟩
          rw [List.length_drop] at htaken
          simp only
          omega

theorem make_flush (p : Pipe) : p.flush.pipe.make = p.make := by
  unfold flush
  split
  · split <;> rfl
  · rfl
  · next held hmanner => exact make_flushHeld (make_of_buffered hmanner) held

end Pipe

/-- Writing out the lines of a log keeps what setting the device and logging a line keep. -/
theorem LineLog.ensures_drain {I E : Outside → Prop} {id : Nat} {l : LineLog}
    (hset : ∀ held, Act.Ensures I (Outside.setDevice id (.lineLog { l with held })) (fun _ => I) E)
    (hline : ∀ line, Act.Ensures I (l.logLine line) (fun _ => I) E) (all : Bool) (held : Text) :
    Act.Ensures I (l.drain id all held) (fun _ => I) E := by
  fun_induction LineLog.drain l id all held with
  | case1 held line rest hsplit ih =>
    exact .bind (hset _) fun _ => .bind (hline line) fun _ => ih
  | case2 held line hsplit hall => exact .bind (hset _) fun _ => hline held
  | case3 held line hsplit hall => exact hset held

namespace Outside

/-- The make of a device, if it is there. -/
def make? (o : Outside) (id : Nat) : Option Make := o.devices[id]?.map Device.make

/-- Something was done to these devices only, and all devices are still what they were. -/
structure Only (ids : List Nat) (o o' : Outside) : Prop where
  others : ∀ id, id ∉ ids → o'.devices[id]? = o.devices[id]?
  make : ∀ id, o'.make? id = o.make? id

namespace Only

variable {ids : List Nat} {o o' o'' : Outside}

theorem of_devices (h : o'.devices = o.devices) : Only ids o o' :=
  ⟨fun _ _ => by rw [h], fun _ => by rw [make?, make?, h]⟩

theorem refl (o : Outside) : Only ids o o :=
  of_devices rfl

theorem trans (h : Only ids o o') (h' : Only ids o' o'') : Only ids o o'' :=
  ⟨fun id hid => (h'.others id hid).trans (h.others id hid),
    fun id => (h'.make id).trans (h.make id)⟩

theorem mono {ids' : List Nat} (h : Only ids o o') (hsub : ids ⊆ ids') : Only ids' o o' :=
  ⟨fun id hid => h.others id fun hmem => hid (hsub hmem), h.make⟩

end Only

/-- A device may be replaced by one of the same make. -/
theorem only_set {o o' : Outside} {id : Nat} {d : Device} (h : o.make? id = some d.make)
    (hset : o'.devices = o.devices.setIfInBounds id d) : Only [id] o o' := by
  obtain ⟨d₀, hd₀, hmake⟩ := Option.map_eq_some_iff.1 h
  have hlt := (Array.getElem?_eq_some_iff.1 hd₀).1
  refine ⟨fun j hj => ?_, fun j => ?_⟩
  · have hne : id ≠ j := fun heq => hj (heq ▸ List.mem_singleton.2 rfl)
    simp [hset, hne]
  · by_cases hid : id = j
    · subst hid
      rw [h]
      simp [make?, hset, hlt]
    · simp [make?, hset, hid]

theorem devices_logLine (l : LineLog) (line : Text) (o : Outside) :
    (Act.outcome (l.logLine line) o).2.devices = o.devices := by
  rw [LineLog.logLine]
  cases l.channel with
  | none => rfl
  | some c =>
    show (Act.outcome (record _ >>= fun _ => follow (c.reply (l.heading ++ line))) o).2.devices = _
    cases hreply : c.reply (l.heading ++ line) <;> rfl

/-- What is known while a log writes out its lines. -/
def Logging (id : Nat) (l : LineLog) (start o : Outside) : Prop :=
  Only [id] start o ∧ o.make? id = some (Device.lineLog l).make

theorem leads_setDevice {id : Nat} {l : LineLog} {start : Outside} (held : Text) :
    Act.Leads (Logging id l start) (setDevice id (.lineLog { l with held }))
      (Logging id l start) := by
  rintro o ⟨honly, hmake⟩
  have hset : Only [id] o (Act.outcome (setDevice id (.lineLog { l with held })) o).2 :=
    only_set (d := .lineLog { l with held }) hmake rfl
  exact ⟨honly.trans hset, (hset.make id).trans hmake⟩

theorem leads_logLine {id : Nat} {l : LineLog} {start : Outside} (line : Text) :
    Act.Leads (Logging id l start) (l.logLine line) (Logging id l start) := by
  refine Act.leads_of_outcome fun o h => ?_
  obtain ⟨honly, hmake⟩ := h
  have hline : Only [id] o (Act.outcome (l.logLine line) o).2 :=
    .of_devices (devices_logLine l line o)
  exact ⟨honly.trans hline, (hline.make id).trans hmake⟩

theorem leads_drain (id : Nat) (l : LineLog) (start : Outside) (all : Bool) (held : Text) :
    Act.Leads (Logging id l start) (l.drain id all held) (Logging id l start) :=
  LineLog.ensures_drain leads_setDevice leads_logLine all held

/-- A log that writes out its lines leaves the other devices alone. -/
theorem only_drain {α : Type} {id : Nat} {l : LineLog} {o : Outside}
    (h : o.devices[id]? = some (.lineLog l)) (all : Bool) (held : Text) (x : α) :
    Only [id] o (Act.outcome (do l.drain id all held; pure x) o).2 := by
  have hleads : Act.Leads (Logging id l o) (do l.drain id all held; pure x) (Logging id l o) :=
    .bind (leads_drain id l o all held) fun _ => .pure x
  exact (hleads.outcome ⟨.refl o, by rw [make?, h]; rfl⟩).1

theorem only_write (id : Nat) (t : Text) (o : Outside) :
    Only [id] o (Act.outcome (write id t) o).2 := by
  match hd : o.devices[id]? with
  | none =>
    rw [write, Act.outcome_get_bind, hd]
    exact .refl o
  | some (.pipe p) =>
    obtain ⟨o', hwrite, hset⟩ := outcome_write_pipe hd t
    rw [hwrite]
    exact only_set (by rw [make?, hd]; exact congrArg some (p.make_write t).1.symm) hset
  | some (.lineLog l) =>
    rw [write, Act.outcome_get_bind, hd]
    exact only_drain hd false (l.held ++ t) (t.length, none)

theorem only_flush (id : Nat) (o : Outside) : Only [id] o (Act.outcome (flush id) o).2 := by
  match hd : o.devices[id]? with
  | none =>
    rw [flush, Act.outcome_get_bind, hd]
    exact .refl o
  | some (.pipe p) =>
    obtain ⟨o', hflush, hset⟩ := outcome_flush_pipe hd
    rw [hflush]
    exact only_set (by rw [make?, hd]; exact congrArg some p.make_flush.symm) hset
  | some (.lineLog l) =>
    rw [flush, Act.outcome_get_bind, hd]
    exact only_drain hd true l.held none

/-! ## All devices -/

/-- Work on one device after the other, each from what the one before left, and what it gives. -/
inductive Chain {α : Type} (act : Nat → Act Outside α) :
    List Nat → List α → Outside → Outside → Prop
  | nil (o : Outside) : Chain act [] [] o o
  | cons {id : Nat} {ids : List Nat} {x : α} {xs : List α} {o o₁ o' : Outside}
      (h : Act.outcome (act id) o = (.ok x, o₁)) (hrest : Chain act ids xs o₁ o') :
      Chain act (id :: ids) (x :: xs) o o'

/-- Work on one device after the other ends with the one at place `k`, and is not done to those
behind it. -/
def Halts {α : Type} (act : Nat → Act Outside α) (ids : List Nat) (k : Nat) (xs : List α)
    (o : Outside) (result : Except Stop α) (o' : Outside) : Prop :=
  ∃ id o₁, ids[k]? = some id ∧ Chain act (ids.take k) xs o o₁ ∧
    Act.outcome (act id) o₁ = (result, o') ∧
    ∀ j : Nat, j ∉ ids.take (k + 1) → o'.devices[j]? = o.devices[j]?

section Work

variable {α : Type} {act : Nat → Act Outside α} {id : Nat} {ids : List Nat} {o o₁ o' : Outside}

theorem halts_first {result : Except Stop α} (h : Act.outcome (act id) o = (result, o'))
    (honly : Only [id] o o') : Halts act (id :: ids) 0 [] o result o' :=
  ⟨id, o, rfl, .nil o, h, fun j hj => honly.others j (by simpa using hj)⟩

theorem Halts.cons {x : α} {xs : List α} {k : Nat} {result : Except Stop α}
    (h : Act.outcome (act id) o = (.ok x, o₁)) (honly : Only [id] o o₁)
    (hrest : Halts act ids k xs o₁ result o') :
    Halts act (id :: ids) (k + 1) (x :: xs) o result o' := by
  obtain ⟨id', o₂, hk, hchain, hlast, hothers⟩ := hrest
  refine ⟨id', o₂, hk, .cons h hchain, hlast, fun j hj => ?_⟩
  rw [List.take_succ_cons, List.mem_cons, not_or] at hj
  exact (hothers j hj.2).trans (honly.others j (by simpa using hj.1))

variable (hact : ∀ id o, Only [id] o (Act.outcome (act id) o).2)
include hact

theorem Chain.only {xs : List α} (h : Chain act ids xs o o') : Only ids o o' := by
  induction h with
  | nil o => exact .refl o
  | @cons id ids x xs o o₁ o' hfirst hrest ih =>
    have honly := hact id o
    rw [hfirst] at honly
    exact (honly.mono (by simp)).trans (ih.mono (by simp))

theorem Halts.only {xs : List α} {k : Nat} {result : Except Stop α}
    (h : Halts act ids k xs o result o') : Only ids o o' := by
  obtain ⟨id, o₁, hk, hchain, hlast, -⟩ := h
  have honly := hact id o₁
  rw [hlast] at honly
  refine ((hchain.only hact).mono (List.take_subset k ids)).trans (honly.mono ?_)
  simpa using List.mem_of_getElem? hk

end Work

/-- Does something to devices in order, and gives the first error. -/
def eachInTurn (act : Nat → Act Outside (Option Error)) : List Nat → Act Outside (Option Error)
  | [] => pure none
  | id :: rest => do
    let error ← act id
    let later ← eachInTurn act rest
    pure (error.or later)

/-- What work on devices in turn comes to if errors do not end it. -/
inductive InTurn (act : Nat → Act Outside (Option Error)) (ids : List Nat) (o : Outside) :
    Except Stop (Option Error) → Outside → Prop
  /-- It was done to each of them, and the first error counts. -/
  | all {errors : List (Option Error)} {o' : Outside} (h : Chain act ids errors o o') :
      InTurn act ids o (.ok (errors.findSome? fun e => e)) o'
  /-- Logging a line did not return. -/
  | stopped {k : Nat} {errors : List (Option Error)} {stop : Stop} {o' : Outside}
      (h : Halts act ids k errors o (.error stop) o') :
      InTurn act ids o (.error stop) o'

section InTurn

variable {act : Nat → Act Outside (Option Error)} {ids : List Nat} {o o' : Outside}
  (hact : ∀ id o, Only [id] o (Act.outcome (act id) o).2)
include hact

theorem inTurn_eachInTurn (ids : List Nat) (o : Outside) :
    InTurn act ids o (Act.outcome (eachInTurn act ids) o).1
      (Act.outcome (eachInTurn act ids) o).2 := by
  induction ids generalizing o with
  | nil => exact .all (.nil o)
  | cons id ids ih =>
    have honly := hact id o
    rw [eachInTurn, Act.outcome_bind]
    rcases hfirst : Act.outcome (act id) o with ⟨stop | error, o₁⟩
    · rw [hfirst] at honly
      exact .stopped (halts_first hfirst honly)
    · rw [hfirst] at honly
      have hrest := ih o₁
      simp only
      rw [Act.outcome_bind]
      generalize Act.outcome (eachInTurn act ids) o₁ = all at hrest ⊢
      obtain ⟨result, o₂⟩ := all
      cases hrest with
      | @all errors _ h =>
        have herrors : ((error :: errors).findSome? fun e => e) =
            error.or (errors.findSome? fun e => e) := by
          cases error <;> rfl
        show InTurn act _ _ (.ok (error.or (errors.findSome? fun e => e))) o₂
        rw [← herrors]
        exact .all (.cons hfirst h)
      | stopped h => exact .stopped (h.cons hfirst honly)

theorem InTurn.only {result : Except Stop (Option Error)} (h : InTurn act ids o result o') :
    Only ids o o' := by
  cases h with
  | all h => exact h.only hact
  | stopped h => exact h.only hact

end InTurn
end Outside

namespace Output

open Outside (Chain Halts InTurn)

/-- What writing to devices in turn comes to. -/
inductive Written (t : Text) (ids : List Nat) (o : Outside) :
    Except Stop (Nat × Option Error) → Outside → Prop
  /-- Each of them took everything. -/
  | whole {o' : Outside}
      (h : Chain (Outside.write · t) ids (List.replicate ids.length (t.length, none)) o o') :
      Written t ids o (.ok (t.length, none)) o'
  /-- One of them failed or took less, and those before it took everything. -/
  | failed {k n : Nat} {error : Option Error} {e : Error} {o' : Outside}
      (h : Halts (Outside.write · t) ids k (List.replicate k (t.length, none)) o
        (.ok (n, error)) o')
      (herror : error = some e ∨ error = none ∧ n < t.length ∧ e = .shortWrite) :
      Written t ids o (.ok (n, some e)) o'
  /-- Logging a line did not return. -/
  | stopped {k : Nat} {stop : Stop} {o' : Outside}
      (h : Halts (Outside.write · t) ids k (List.replicate k (t.length, none)) o
        (.error stop) o') :
      Written t ids o (.error stop) o'

theorem taken_write_le {id n : Nat} {t : Text} {error : Option Error} {o o' : Outside}
    (h : Act.outcome (Outside.write id t) o = (.ok (n, error), o')) : n ≤ t.length := by
  match hd : o.devices[id]? with
  | none =>
    rw [Outside.write, Act.outcome_get_bind, hd] at h
    cases h
  | some (.pipe p) =>
    obtain ⟨o₁, hwrite, -⟩ := Outside.outcome_write_pipe hd t
    cases hwrite.symm.trans h
    exact (p.make_write t).2
  | some (.lineLog l) =>
    rw [Outside.write, Act.outcome_get_bind, hd] at h
    simp only at h
    rw [Act.outcome_bind] at h
    split at h
    · cases h
      exact Nat.le_refl _
    · cases h

/-- Writing stops at the first device that does not take everything. -/
theorem written_writeAll (t : Text) (ids : List Nat) (o : Outside) :
    Written t ids o (Act.outcome (writeAll t ids) o).1 (Act.outcome (writeAll t ids) o).2 := by
  induction ids generalizing o with
  | nil => exact .whole (.nil o)
  | cons id ids ih =>
    have honly := Outside.only_write id t o
    rw [writeAll, Act.outcome_bind]
    rcases hwrite : Act.outcome (Outside.write id t) o with ⟨stop | ⟨n, error⟩, o₁⟩
    · rw [hwrite] at honly
      exact .stopped (Outside.halts_first hwrite honly)
    · rw [hwrite] at honly
      cases error with
      | some e => exact .failed (Outside.halts_first hwrite honly) (.inl rfl)
      | none =>
        have hle := taken_write_le hwrite
        simp only
        split
        · next hlt => exact .failed (Outside.halts_first hwrite honly) (.inr ⟨rfl, hlt, rfl⟩)
        · next hge =>
          obtain rfl : n = t.length := by omega
          have hrest := ih o₁
          generalize Act.outcome (writeAll t ids) o₁ = all at hrest ⊢
          obtain ⟨result, o₂⟩ := all
          cases hrest with
          | whole h => exact .whole (.cons hwrite h)
          | failed h herror => exact .failed (h.cons hwrite honly) herror
          | stopped h => exact .stopped (h.cons hwrite honly)

theorem flushAll_eq (ids : List Nat) : flushAll ids = Outside.eachInTurn Outside.flush ids := by
  induction ids with
  | nil => rfl
  | cons id ids ih => rw [flushAll, ih, Outside.eachInTurn]

/-- Flushing goes on behind an error. -/
theorem inTurn_flushAll (ids : List Nat) (o : Outside) :
    InTurn Outside.flush ids o (Act.outcome (flushAll ids) o).1
      (Act.outcome (flushAll ids) o).2 := by
  rw [flushAll_eq]
  exact Outside.inTurn_eachInTurn Outside.only_flush ids o

/-- An output is flushed by flushing its devices. -/
theorem flush_eq (out : Output) : out.flush = flushAll out.devices := by
  cases out with
  | discard => rfl
  | device id => simp [flush, devices, flushAll]
  | tee ids => rfl

end Output

/-! ## Any number of calls -/

/-- Work on the device returns. -/
def Device.Returns : Device → Prop
  | pipe _ => True
  | lineLog l => l.Returns

theorem Device.returns_of_make {d d' : Device} (h : d'.make = d.make) (hd : d.Returns) :
    d'.Returns := by
  cases d' with
  | pipe _ => trivial
  | lineLog l' =>
    cases d with
    | pipe _ => cases h
    | lineLog l =>
      intro channel hchannel
      exact hd channel ((Make.lineLog.inj h).1 ▸ hchannel)

namespace Outside

/-- All these devices are there, and work on them returns. -/
def Serves (ids : List Nat) (o : Outside) : Prop :=
  ∀ id, id ∈ ids → ∃ d, o.devices[id]? = some d ∧ d.Returns

variable {ids : List Nat} {o o' : Outside}

theorem Serves.only {changed : List Nat} (h : o.Serves ids) (honly : Only changed o o') :
    o'.Serves ids := by
  intro id hid
  obtain ⟨d, hd, hreturns⟩ := h id hid
  have hmake := honly.make id
  rw [make?, make?, hd] at hmake
  obtain ⟨d', hd', hsame⟩ := Option.map_eq_some_iff.1 hmake
  exact ⟨d', hd', Device.returns_of_make hsame hreturns⟩

theorem Serves.write {id : Nat} (h : o.Serves ids) (hid : id ∈ ids) (t : Text) :
    ∃ x o', Act.outcome (write id t) o = (.ok x, o') := by
  obtain ⟨d, hd, hreturns⟩ := h id hid
  cases d with
  | pipe p =>
    obtain ⟨o', hwrite, -⟩ := outcome_write_pipe hd t
    exact ⟨_, o', hwrite⟩
  | lineLog l =>
    obtain ⟨o', hwrite, -⟩ := outcome_write_log ⟨l, hd, hreturns⟩ t
    exact ⟨_, o', hwrite⟩

theorem Serves.flush {id : Nat} (h : o.Serves ids) (hid : id ∈ ids) :
    ∃ x o', Act.outcome (flush id) o = (.ok x, o') := by
  obtain ⟨d, hd, hreturns⟩ := h id hid
  cases d with
  | pipe p =>
    obtain ⟨o', hflush, -⟩ := outcome_flush_pipe hd
    exact ⟨_, o', hflush⟩
  | lineLog l =>
    obtain ⟨o', hflush, -⟩ := outcome_flush_log ⟨l, hd, hreturns⟩
    exact ⟨_, o', hflush⟩

/-- Work that each of the devices serves is done to all of them. -/
theorem InTurn.returns {act : Nat → Act Outside (Option Error)}
    {result : Except Stop (Option Error)} (hact : ∀ id o, Only [id] o (Act.outcome (act id) o).2)
    (hserve : ∀ {o : Outside} {id : Nat}, o.Serves ids → id ∈ ids →
      ∃ x o', Act.outcome (act id) o = (.ok x, o'))
    (hwork : InTurn act ids o result o') (h : o.Serves ids) : ∃ error, result = .ok error := by
  cases hwork with
  | all _ => exact ⟨_, rfl⟩
  | stopped hhalts =>
    obtain ⟨id, o₁, hk, hchain, hlast, -⟩ := hhalts
    obtain ⟨x, o₂, hok⟩ := hserve (h.only (hchain.only hact)) (List.mem_of_getElem? hk)
    cases hlast.symm.trans hok

end Outside

namespace Output

open Outside (InTurn Only Serves)

/-- A call on an output. -/
inductive Job
  | write (t : Text)
  | flush

/-- Carries out a call, whatever comes of it. -/
def Job.act (out : Output) : Job → Act Outside Unit
  | write t => do
    let _ ← out.write t
    pure ()
  | flush => do
    let _ ← out.flush
    pure ()

variable {ids : List Nat} {o o' : Outside}

theorem Written.only {t : Text} {result : Except Stop (Nat × Option Error)}
    (h : Written t ids o result o') : Only ids o o' := by
  have hact : ∀ id o, Only [id] o (Act.outcome (Outside.write id t) o).2 :=
    fun id o => Outside.only_write id t o
  cases h with
  | whole h => exact h.only hact
  | failed h _ => exact h.only hact
  | stopped h => exact h.only hact

/-- Any number of calls is work on the devices of the output only. -/
theorem only_series (ids : List Nat) (jobs : List Job) (o : Outside) :
    Only ids o (Act.series (·.act (tee ids)) jobs o).2 := by
  induction jobs generalizing o with
  | nil => exact .refl o
  | cons job jobs ih =>
    have hleads : Act.Leads (Only ids o) (job.act (tee ids)) (Only ids o) := by
      cases job with
      | write t =>
        refine .bind (Act.leads_of_outcome fun o₁ honly => ?_) fun _ => .pure ()
        exact honly.trans (written_writeAll t ids o₁).only
      | flush =>
        refine .bind (Act.leads_of_outcome fun o₁ honly => ?_) fun _ => .pure ()
        exact honly.trans ((inTurn_flushAll ids o₁).only Outside.only_flush)
    exact (hleads.outcome (.refl o)).trans (ih _)

theorem exists_ok_writeAll (h : o.Serves ids) (t : Text) :
    ∃ x, (Act.outcome (writeAll t ids) o).1 = .ok x := by
  have hwritten := written_writeAll t ids o
  generalize Act.outcome (writeAll t ids) o = all at hwritten ⊢
  obtain ⟨result, o'⟩ := all
  cases hwritten with
  | whole _ => exact ⟨_, rfl⟩
  | failed _ _ => exact ⟨_, rfl⟩
  | stopped hhalts =>
    -- The device where it stopped is one of those that do not.
    obtain ⟨id, o₁, hk, hchain, hlast, -⟩ := hhalts
    have hserves := h.only (hchain.only fun id o => Outside.only_write id t o)
    obtain ⟨x, o₂, hwrite⟩ := hserves.write (List.mem_of_getElem? hk) t
    cases hlast.symm.trans hwrite

theorem exists_ok_flushAll (h : o.Serves ids) :
    ∃ error, (Act.outcome (flushAll ids) o).1 = .ok error :=
  (inTurn_flushAll ids o).returns Outside.only_flush (fun hserves hid => hserves.flush hid) h

/-- However outputs are nested, joining them is joining their leaves.  What comes out leads to all
devices among the leaves, and what is written to it goes to these one after the other. -/
theorem join_fans_out (parts : List Branching) :
    let joined := join (Branching.outputs parts)
    let leaves := Branching.leavesOfAll parts
    joined = join leaves ∧
      (joined.isDiscard = true ↔ ∀ leaf ∈ leaves, leaf = none ∨ leaf = some discard) ∧
      ∀ ids, joined = tee ids →
        2 ≤ ids.length ∧ leaves.filter leads = ids.map (some <| device ·) ∧
        ∀ (jobs : List Job) (o : Outside),
          let o' := (Act.series (·.act joined) jobs o).2
          (∀ t, Written t ids o' (Act.outcome (joined.write t) o').1
            (Act.outcome (joined.write t) o').2) ∧
          InTurn Outside.flush ids o' (Act.outcome joined.flush o').1
            (Act.outcome joined.flush o').2 ∧
          (o.Serves ids →
            (∀ t, ∃ x, (Act.outcome (joined.write t) o').1 = .ok x) ∧
              ∃ error, (Act.outcome joined.flush o').1 = .ok error) := by
  intro joined leaves
  have hjoined : joined = join leaves := Branching.join_outputs parts
  have hleaves : leaves.filter leads = (leaves.flatMap devices?).map (some <| device ·) :=
    Branching.filter_leavesOfAll parts
  refine ⟨hjoined, ?_, fun ids hids => ?_⟩
  · rw [hjoined]
    show (ofDevices (leaves.flatMap devices?)).isDiscard = true ↔ _
    rw [isDiscard_ofDevices, ← List.map_eq_nil_iff (f := fun id => some (device id)), ← hleaves,
      List.filter_eq_nil_iff]
    refine forall_congr' fun leaf => imp_congr_right fun _ => ?_
    by_cases hnone : leaf = none <;> simp [leads, hnone]
  · have htee : ofDevices (leaves.flatMap devices?) = tee ids := hjoined.symm.trans hids
    obtain ⟨rfl, htwo⟩ := ofDevices_eq_tee htee
    refine ⟨htwo, hleaves, fun jobs o => ?_⟩
    rw [hids]
    intro o'
    refine ⟨fun t => written_writeAll t _ o', inTurn_flushAll _ o', fun hserves => ?_⟩
    have hserves' : o'.Serves _ := hserves.only (only_series _ jobs o)
    exact ⟨exists_ok_writeAll hserves', exists_ok_flushAll hserves'⟩

example :
    join (Branching.outputs
        [.absent, .join [.device 3, .join [.discard, .device 1]], .join [], .device 3]) =
      tee [3, 1, 3] :=
  rfl

end Output
end Birdcall
