import Birdcall.Proofs.Devices

/-!
# What writers accept

A pipe stands between an engine and a writer that may take less than it is offered and may fail at
any time.  What was written to a pipe has been accepted by the writer or is held back for it, so
`accepted` and `pending` together say where every byte is.

* `Pipe.UpTo total`: nothing has failed, and accepted and pending bytes are `total`.
* `Pipe.Flushed total`: the writer has accepted `total`, and nothing is pending.
* `Pipe.Within total`: something may have failed.  The writer has accepted a part of `total` from
  its beginning on, and what is still pending comes next in it.

A write takes the first of these on to a longer total, or to the third if it fails; a flush takes
the first to the second, or to the third.  The same is then proved of outputs that lead to several
pipes at once (`Outside.outcome_write_lanes`, `Outside.outcome_flush_lanes`): where one pipe fails,
some of the others are ahead of it and some behind, but all of them are within the total.
-/

namespace Birdcall

namespace Writer

/-- Gives an error whenever it does not take everything. -/
def Reports (w : Writer) : Prop :=
  ∀ earlier offer, (w.respond earlier offer).taken < offer.length →
    (w.respond earlier offer).error ≠ none

/-- What a writer has taken of its offers, which come latest first. -/
def taken (w : Writer) : List Text → Text
  | [] => []
  | offer :: earlier => w.taken earlier ++ offer.take (w.respond earlier offer).taken

end Writer

/-! ## Pipes -/

namespace Pipe

/-- Everything that the writer has accepted. -/
def accepted (p : Pipe) : Text := p.writer.taken p.offers

/-- What the next flush offers to the writer. -/
def pending (p : Pipe) : Text :=
  match p.manner with
  | .buffered held none => held
  | _ => []

/-- The failure that is final. -/
def fault (p : Pipe) : Option Error :=
  match p.manner with
  | .buffered _ fault => fault
  | .direct => none

/-- Nothing that was written has been lost. -/
structure UpTo (total : Text) (p : Pipe) : Prop where
  faultless : p.fault = none
  eq : p.accepted ++ p.pending = total

/-- The writer has accepted everything that was written. -/
structure Flushed (total : Text) (p : Pipe) : Prop where
  faultless : p.fault = none
  pending : p.pending = []
  accepted : p.accepted = total

/-- What the writer has accepted, and what it is offered next, begins the total. -/
def Within (total : Text) (p : Pipe) : Prop := p.accepted ++ p.pending <+: total

theorem UpTo.within {total : Text} {p : Pipe} (h : p.UpTo total) : p.Within total :=
  ⟨[], (List.append_nil _).trans h.eq⟩

theorem Within.weaken {total total' : Text} {p : Pipe} (h : p.Within total)
    (hle : total <+: total') : p.Within total' :=
  List.IsPrefix.trans h hle

theorem Within.accepted {total : Text} {p : Pipe} (h : p.Within total) : p.accepted <+: total :=
  List.IsPrefix.trans (List.prefix_append _ _) h

theorem Flushed.upTo {total : Text} {p : Pipe} (h : p.Flushed total) : p.UpTo total :=
  ⟨h.faultless, by rw [h.pending, h.accepted, List.append_nil]⟩

theorem flushed_ofWriter (w : Writer) : (ofWriter w).Flushed [] := by
  unfold ofWriter
  split <;> exact ⟨rfl, rfl, rfl⟩

theorem writer_ofWriter (w : Writer) : (ofWriter w).writer = w := by
  unfold ofWriter
  split <;> rfl

/-- An offer changes what is accepted and nothing else. -/
theorem offer_eq {p p' : Pipe} {t : Text} {g : Grant} {e : Event} (h : p.offer t = (g, p', e)) :
    p'.writer = p.writer ∧ p'.manner = p.manner ∧
      p'.accepted = p.accepted ++ t.take g.taken := by
  simp only [offer, Prod.mk.injEq] at h
  obtain ⟨rfl, rfl, -⟩ := h
  refine ⟨rfl, rfl, ?_⟩
  simp only [accepted, Writer.taken, ← List.take_take, List.take_length]

/-- A writer that reports what it does not take has taken an offer that gives no error. -/
theorem take_of_reports {p p' : Pipe} {t : Text} {g : Grant} {e : Event} (hw : p.writer.Reports)
    (h : p.offer t = (g, p', e)) (hnone : g.error = none) : t.take g.taken = t := by
  simp only [offer, Prod.mk.injEq] at h
  obtain ⟨rfl, -, -⟩ := h
  have htaken : ¬ (p.writer.respond p.offers t).taken < t.length :=
    fun hlt => hw p.offers t hlt hnone
  exact List.take_of_length_le (by simp only; omega)

/-- What a write or a flush came to: the writer is the same one, and everything up to `total` is
accounted for. -/
structure Done.Reaches (w : Writer) (total : Text) (d : Done) : Prop where
  writer : d.pipe.writer = w
  upTo : d.error = none → d.pipe.UpTo total
  within : d.pipe.Within total

namespace Done

variable {w : Writer} {total : Text} {d : Done}

theorem reaches_of_upTo (hw : d.pipe.writer = w) (h : d.pipe.UpTo total) : d.Reaches w total :=
  ⟨hw, fun _ => h, h.within⟩

theorem reaches_of_error {e : Error} (hw : d.pipe.writer = w) (herror : d.error = some e)
    (h : d.pipe.Within total) : d.Reaches w total := by
  refine ⟨hw, fun hnone => ?_, h⟩
  rw [herror] at hnone
  cases hnone

end Done

variable {total : Text} {p : Pipe}

/-- What is held back after a failure is never offered again. -/
theorem within_fault {held : Text} {e : Error} (h : p.accepted <+: total)
    (hmanner : p.manner = .buffered held (some e)) : p.Within total := by
  simpa only [Within, pending, hmanner, List.append_nil] using h

theorem take_append_isPrefix (total t : Text) (n : Nat) : total ++ t.take n <+: total ++ t := by
  rw [List.prefix_append_right_inj]
  exact List.take_prefix n t

theorem reaches_writeEmpty (h : p.accepted = total) (t : Text) :
    (p.writeEmpty t).Reaches p.writer (total ++ t) := by
  subst h
  fun_induction writeEmpty p t with
  | case1 p t hle => exact Done.reaches_of_upTo rfl ⟨rfl, rfl⟩
  | case2 p t hle g p' e hoffer err herror =>
    obtain ⟨hwriter, -, haccepted⟩ := offer_eq hoffer
    exact Done.reaches_of_error hwriter rfl
      (within_fault (haccepted ▸ take_append_isPrefix _ _ _) rfl)
  | case3 p t hle g p' e hoffer hnone htaken rest ih =>
    obtain ⟨hwriter, -, haccepted⟩ := offer_eq hoffer
    rw [haccepted, List.append_assoc, List.take_append_drop, hwriter] at ih
    exact ⟨ih.writer, ih.upTo, ih.within⟩
  | case4 p t hle g p' e hoffer hnone htaken =>
    obtain ⟨hwriter, -, haccepted⟩ := offer_eq hoffer
    exact Done.reaches_of_error hwriter rfl
      (within_fault (haccepted ▸ take_append_isPrefix _ _ _) rfl)

/-- Writing out what is held back leaves nothing pending, unless it fails. -/
theorem reaches_flushHeld {held : Text} (hpending : held = [] → p.pending = [])
    (hfault : p.fault = none) (h : p.accepted = total) :
    (p.flushHeld held).Reaches p.writer (total ++ held) ∧
      ((p.flushHeld held).error = none → (p.flushHeld held).pipe.pending = []) := by
  subst h
  unfold flushHeld
  split
  · next hempty =>
    have hnil := hpending (List.isEmpty_iff.1 hempty)
    refine ⟨Done.reaches_of_upTo rfl ⟨hfault, ?_⟩, fun _ => hnil⟩
    simp only [hnil, List.isEmpty_iff.1 hempty]
  · rcases hoffer : p.offer held with ⟨g, p', e⟩
    obtain ⟨hwriter, -, haccepted⟩ := offer_eq hoffer
    simp only
    split
    · next err herr =>
      refine ⟨Done.reaches_of_error hwriter rfl
        (within_fault (haccepted ▸ take_append_isPrefix _ _ _) rfl), fun hnone => ?_⟩
      cases hnone
    · next hnone =>
      have hall : held.take g.taken = held := by
        refine List.take_of_length_le ?_
        cases herror : g.error with
        | some err => simp [herror] at hnone
        | none =>
          simp only [herror, ite_eq_right_iff] at hnone
          have : ¬ g.taken < held.length := fun hlt => by cases hnone hlt
          omega
      rw [hall] at haccepted
      refine ⟨Done.reaches_of_upTo hwriter ⟨rfl, ?_⟩, fun _ => rfl⟩
      show p'.accepted ++ [] = _
      rw [List.append_nil, haccepted]

theorem reaches_write (hw : p.writer.Reports) (h : p.UpTo total) (t : Text) :
    (p.write t).Reaches p.writer (total ++ t) := by
  obtain ⟨hfault, rfl⟩ := h
  unfold write
  split
  · next hmanner =>
    rcases hoffer : p.offer t with ⟨g, p', e⟩
    obtain ⟨hwriter, hmanner', haccepted⟩ := offer_eq hoffer
    have hpending : p.pending = [] ∧ p'.pending = [] := by
      simp only [pending, hmanner', hmanner, and_self]
    rw [hpending.1, List.append_nil]
    refine ⟨hwriter, fun hnone => ⟨?_, ?_⟩, ?_⟩
    · simp only [fault, hmanner', hmanner]
    · rw [haccepted, take_of_reports hw hoffer hnone, hpending.2, List.append_nil]
    · rw [Within, hpending.2, List.append_nil, haccepted]
      exact take_append_isPrefix _ _ _
  · next held err hmanner =>
    simp only [fault, hmanner] at hfault
    cases hfault
  · next held hmanner =>
    have hpending : p.pending = held := by
      simp only [pending, hmanner]
    rw [hpending]
    simp only
    split
    · exact Done.reaches_of_upTo rfl ⟨rfl, (List.append_assoc _ _ _).symm⟩
    · split
      · next hempty =>
        rw [List.isEmpty_iff.1 hempty, List.append_nil]
        exact reaches_writeEmpty rfl t
      · next hempty =>
        -- The buffer is filled up and written out, and the rest is written behind it.
        have hsome : held ++ t.take (capacity - held.length) = [] → p.pending = [] :=
          fun hnil => absurd (List.append_eq_nil_iff.1 hnil).1 (by simpa using hempty)
        obtain ⟨hflushed, hnil⟩ := reaches_flushHeld hsome hfault rfl
        rw [← List.append_assoc] at hflushed
        cases herror : (p.flushHeld (held ++ t.take (capacity - held.length))).error with
        | some err =>
          exact Done.reaches_of_error hflushed.writer rfl
            (hflushed.within.weaken (take_append_isPrefix _ _ _))
        | none =>
          have haccepted := (hflushed.upTo herror).eq
          rw [hnil herror, List.append_nil] at haccepted
          have hrest := reaches_writeEmpty haccepted (t.drop (capacity - held.length))
          rw [hflushed.writer, List.append_assoc, List.take_append_drop] at hrest
          exact ⟨hrest.writer, hrest.upTo, hrest.within⟩

theorem reaches_flush (p : Pipe) :
    p.flush.Reaches p.writer (p.accepted ++ p.pending) ∧
      (p.flush.error = none → p.flush.pipe.pending = []) := by
  unfold flush
  split
  · next hmanner =>
    have hupTo : p.UpTo (p.accepted ++ p.pending) := ⟨by simp only [fault, hmanner], rfl⟩
    have hpending : p.pending = [] := by
      simp only [pending, hmanner]
    split <;> exact ⟨⟨rfl, fun _ => hupTo, hupTo.within⟩, fun _ => hpending⟩
  · next held err hmanner =>
    refine ⟨Done.reaches_of_error rfl rfl List.prefix_rfl, fun hnone => ?_⟩
    cases hnone
  · next held hmanner =>
    have hpending : p.pending = held := by
      simp only [pending, hmanner]
    rw [hpending]
    exact reaches_flushHeld (fun hnil => hpending.trans hnil) (by simp only [fault, hmanner]) rfl

theorem writer_flush (p : Pipe) : p.flush.pipe.writer = p.writer := (reaches_flush p).1.writer

theorem within_flush (h : p.Within total) : p.flush.pipe.Within total :=
  (reaches_flush p).1.within.weaken h

theorem flushed_flush (h : p.UpTo total) (hnone : p.flush.error = none) :
    p.flush.pipe.Flushed total := by
  obtain ⟨hreaches, hnil⟩ := reaches_flush p
  have hupTo := hreaches.upTo hnone
  have haccepted := hupTo.eq
  rw [hnil hnone, List.append_nil, h.eq] at haccepted
  exact ⟨hupTo.faultless, hnil hnone, haccepted⟩

/-- A pipe that was never written to stays as it is. -/
theorem flush_ofWriter (w : Writer) : (ofWriter w).flush.pipe = ofWriter w := by
  unfold ofWriter
  split
  · rfl
  · next hkind => simp [flush, direct, hkind]
  · next hkind => simp [flush, direct, hkind]

end Pipe

/-! ## Devices -/

namespace Outside

variable {o o' : Outside} {id : Nat} {p : Pipe}

theorem devices_forM_record (events : List Event) (o : Outside) :
    ∃ o', Act.outcome (events.forM record) o = (.ok (), o') ∧ o'.devices = o.devices := by
  induction events generalizing o with
  | nil => exact ⟨o, rfl, rfl⟩
  | cons e events ih =>
    obtain ⟨o', hrest, hdevices⟩ := ih { o with events := o.events.push e }
    exact ⟨o', hrest, hdevices⟩

theorem outcome_settle (id : Nat) (d : Pipe.Done) (o : Outside) :
    ∃ o', Act.outcome (settle id d) o = (.ok (d.taken, d.error), o') ∧
      o'.devices = o.devices.setIfInBounds id (.pipe d.pipe) := by
  obtain ⟨o', hevents, hdevices⟩ := devices_forM_record d.events
    { o with devices := o.devices.setIfInBounds id (.pipe d.pipe) }
  refine ⟨o', ?_, hdevices⟩
  show Act.outcome (d.events.forM record >>= fun _ => pure (d.taken, d.error)) _ = _
  rw [Act.outcome_bind, hevents]
  rfl

theorem outcome_write_pipe (h : o.devices[id]? = some (.pipe p)) (t : Text) :
    ∃ o', Act.outcome (write id t) o = (.ok ((p.write t).taken, (p.write t).error), o') ∧
      o'.devices = o.devices.setIfInBounds id (.pipe (p.write t).pipe) := by
  rw [write, Act.outcome_get_bind, h]
  exact outcome_settle id (p.write t) o

theorem outcome_flush_pipe (h : o.devices[id]? = some (.pipe p)) :
    ∃ o', Act.outcome (flush id) o = (.ok p.flush.error, o') ∧
      o'.devices = o.devices.setIfInBounds id (.pipe p.flush.pipe) := by
  obtain ⟨o', hsettle, hdevices⟩ := outcome_settle id p.flush o
  refine ⟨o', ?_, hdevices⟩
  rw [flush, Act.outcome_get_bind, h]
  simp only
  rw [Act.outcome_bind, hsettle]
  rfl

theorem getElem?_setPipe {q : Pipe} (h : o.devices[id]? = some (.pipe p))
    (hset : o'.devices = o.devices.setIfInBounds id (.pipe q)) :
    o'.devices[id]? = some (.pipe q) := by
  have hlt := (Array.getElem?_eq_some_iff.1 h).1
  simp [hset, hlt]

theorem Keeps.mono {changed changed' : List Nat} (h : Keeps changed o o')
    (hsub : changed ⊆ changed') : Keeps changed' o o' :=
  ⟨fun id p hid => h.pipe id p fun hmem => hid (hsub hmem), h.log⟩

end Outside

/-! ## Lanes -/

/-- A device and the writer that it is a pipe to. -/
structure Lane where
  device : Nat
  writer : Writer

namespace Outside

/-- All lanes are there, and `P` holds of their pipes. -/
def Carries (P : Pipe → Prop) (lanes : List Lane) (o : Outside) : Prop :=
  ∀ l ∈ lanes, ∃ p, o.devices[l.device]? = some (.pipe p) ∧ p.writer = l.writer ∧ P p

variable {o o' : Outside} {total : Text} {lanes : List Lane} {l : Lane}

namespace Carries

variable {P Q : Pipe → Prop}

theorem imp (h : o.Carries P lanes) (hPQ : ∀ {p : Pipe}, P p → Q p) : o.Carries Q lanes := by
  intro l hl
  obtain ⟨p, hp, hwriter, hP⟩ := h l hl
  exact ⟨p, hp, hwriter, hPQ hP⟩

theorem within (h : o.Carries (Pipe.UpTo total) lanes) (more : Text) :
    o.Carries (Pipe.Within (total ++ more)) lanes :=
  h.imp fun hp => hp.within.weaken (List.prefix_append _ _)

theorem tail (h : o.Carries P (l :: lanes)) : o.Carries P lanes :=
  fun l' hl' => h l' (List.mem_cons_of_mem _ hl')

/-- Lanes stay as they are while others change. -/
theorem keeps {changed : List Nat} (h : o.Carries P lanes) (hkeeps : Keeps changed o o')
    (hother : ∀ l ∈ lanes, l.device ∉ changed) : o'.Carries P lanes := by
  intro l hl
  obtain ⟨p, hp, hwriter, hP⟩ := h l hl
  exact ⟨p, hkeeps.pipe l.device p (hother l hl) hp, hwriter, hP⟩

theorem nil : o.Carries P [] :=
  fun _ hl => absurd hl List.not_mem_nil

theorem cons {p : Pipe} (hp : o.devices[l.device]? = some (.pipe p)) (hwriter : p.writer = l.writer)
    (hP : P p) (h : o.Carries P lanes) : o.Carries P (l :: lanes) := by
  intro l' hl'
  rcases List.mem_cons.1 hl' with rfl | hl'
  · exact ⟨p, hp, hwriter, hP⟩
  · exact h l' hl'

/-- Work on one lane leaves the lanes behind it alone. -/
theorem behind (h : o.Carries P lanes) (hkeeps : Keeps [l.device] o o')
    (hnodup : ((l :: lanes).map (·.device)).Nodup) : o'.Carries P lanes := by
  refine h.keeps hkeeps fun l' hl' hmem => ?_
  rw [List.map_cons, List.nodup_cons] at hnodup
  exact hnodup.1 (List.mem_singleton.1 hmem ▸ List.mem_map_of_mem hl')

end Carries

/-- Work on one lane and then on the ones behind it is work on all of them. -/
theorem Keeps.cons {o'' : Outside} (h : Keeps [l.device] o o')
    (h' : Keeps (lanes.map (·.device)) o' o'') : Keeps ((l :: lanes).map (·.device)) o o'' :=
  (h.mono (by simp)).trans (h'.mono (by simp))

/-- If writing to all lanes gives no error, none of them has lost anything.  After an error some
have got less than others, but all are within the total. -/
theorem outcome_writeAll_lanes (hnodup : (lanes.map (·.device)).Nodup)
    (hreports : ∀ l ∈ lanes, l.writer.Reports) (h : o.Carries (Pipe.UpTo total) lanes) (t : Text) :
    ∃ r o', Act.outcome (Output.writeAll t (lanes.map (·.device))) o = (.ok r, o') ∧
      Keeps (lanes.map (·.device)) o o' ∧
      (r.2 = none → o'.Carries (Pipe.UpTo (total ++ t)) lanes) ∧
      o'.Carries (Pipe.Within (total ++ t)) lanes := by
  induction lanes generalizing o with
  | nil => exact ⟨(t.length, none), o, rfl, .refl o, fun _ => .nil, .nil⟩
  | cons l lanes ih =>
    obtain ⟨p, hp, hwriter, hupTo⟩ := h l List.mem_cons_self
    obtain ⟨o₁, hwrite, hset⟩ := outcome_write_pipe hp t
    have hp₁ := getElem?_setPipe hp hset
    have hkeeps₁ := keeps_setPipe hp hset
    have hreaches := Pipe.reaches_write (hwriter ▸ hreports l List.mem_cons_self) hupTo t
    have hwriter₁ := hreaches.writer.trans hwriter
    have hrest := h.tail.behind hkeeps₁ hnodup
    have hstop : o₁.Carries (Pipe.Within (total ++ t)) (l :: lanes) :=
      .cons hp₁ hwriter₁ hreaches.within (hrest.within t)
    rw [List.map_cons, Output.writeAll, Act.outcome_bind, hwrite]
    cases herror : (p.write t).error with
    | some e =>
      exact ⟨_, o₁, rfl, hkeeps₁.mono (by simp), fun hnone => absurd hnone (Option.some_ne_none _),
        hstop⟩
    | none =>
      simp only
      split
      · exact ⟨_, o₁, rfl, hkeeps₁.mono (by simp),
          fun hnone => absurd hnone (Option.some_ne_none _), hstop⟩
      · rw [List.map_cons, List.nodup_cons] at hnodup
        obtain ⟨r, o₂, hwriteAll, hkeeps₂, hok, hwithin⟩ := ih hnodup.2
          (fun l' hl' => hreports l' (List.mem_cons_of_mem _ hl')) hrest
        have hp₂ := hkeeps₂.pipe _ _ hnodup.1 hp₁
        exact ⟨r, o₂, hwriteAll, hkeeps₁.cons hkeeps₂,
          fun hnone => .cons hp₂ hwriter₁ (hreaches.upTo herror) (hok hnone),
          .cons hp₂ hwriter₁ hreaches.within hwithin⟩

/-- Every lane is flushed, whatever comes of the others. -/
theorem outcome_flushAll_lanes (hnodup : (lanes.map (·.device)).Nodup)
    (h : o.Carries (Pipe.Within total) lanes) :
    ∃ error o', Act.outcome (Output.flushAll (lanes.map (·.device))) o = (.ok error, o') ∧
      Keeps (lanes.map (·.device)) o o' ∧ o'.Carries (Pipe.Within total) lanes ∧
      (error = none → o.Carries (Pipe.UpTo total) lanes →
        o'.Carries (Pipe.Flushed total) lanes) := by
  induction lanes generalizing o with
  | nil => exact ⟨none, o, rfl, .refl o, .nil, fun _ _ => .nil⟩
  | cons l lanes ih =>
    obtain ⟨p, hp, hwriter, hwithin⟩ := h l List.mem_cons_self
    obtain ⟨o₁, hflush, hset⟩ := outcome_flush_pipe hp
    have hp₁ := getElem?_setPipe hp hset
    have hkeeps₁ := keeps_setPipe hp hset
    have hwriter₁ := p.writer_flush.trans hwriter
    have hrest := h.tail.behind hkeeps₁ hnodup
    have hnodup' := hnodup
    rw [List.map_cons, List.nodup_cons] at hnodup'
    obtain ⟨later, o₂, hflushAll, hkeeps₂, hwithin₂, hflushed₂⟩ := ih hnodup'.2 hrest
    have hp₂ := hkeeps₂.pipe _ _ hnodup'.1 hp₁
    refine ⟨p.flush.error.or later, o₂, ?_, hkeeps₁.cons hkeeps₂,
      .cons hp₂ hwriter₁ (Pipe.within_flush hwithin) hwithin₂, fun hnone hupTo => ?_⟩
    · rw [List.map_cons, Output.flushAll, Act.outcome_bind, hflush]
      simp only
      rw [Act.outcome_bind, hflushAll]
      rfl
    · obtain ⟨herror, hlater⟩ := Option.or_eq_none_iff.1 hnone
      obtain ⟨p', hp', -, hupTo'⟩ := hupTo l List.mem_cons_self
      obtain rfl : p = p' := by simpa [hp] using hp'
      exact .cons hp₂ hwriter₁ (Pipe.flushed_flush hupTo' herror)
        (hflushed₂ hlater (hupTo.tail.behind hkeeps₁ hnodup))

/-- A single lane is written to without counting the bytes it takes. -/
theorem outcome_write_lanes (hnodup : (lanes.map (·.device)).Nodup)
    (hreports : ∀ l ∈ lanes, l.writer.Reports) (h : o.Carries (Pipe.UpTo total) lanes) (t : Text) :
    ∃ r o', Act.outcome ((Output.ofDevices (lanes.map (·.device))).write t) o = (.ok r, o') ∧
      Keeps (lanes.map (·.device)) o o' ∧
      (r.2 = none → o'.Carries (Pipe.UpTo (total ++ t)) lanes) ∧
      o'.Carries (Pipe.Within (total ++ t)) lanes := by
  match lanes with
  | [] => exact outcome_writeAll_lanes hnodup hreports h t
  | l :: l' :: lanes => exact outcome_writeAll_lanes hnodup hreports h t
  | [l] =>
    obtain ⟨p, hp, hwriter, hupTo⟩ := h l List.mem_cons_self
    obtain ⟨o', hwrite, hset⟩ := outcome_write_pipe hp t
    have hp' := getElem?_setPipe hp hset
    have hreaches := Pipe.reaches_write (hwriter ▸ hreports l List.mem_cons_self) hupTo t
    exact ⟨_, o', hwrite, keeps_setPipe hp hset,
      fun hnone => .cons hp' (hreaches.writer.trans hwriter) (hreaches.upTo hnone) .nil,
      .cons hp' (hreaches.writer.trans hwriter) hreaches.within .nil⟩

theorem outcome_flush_lanes (hnodup : (lanes.map (·.device)).Nodup)
    (h : o.Carries (Pipe.Within total) lanes) :
    ∃ error o', Act.outcome (Output.ofDevices (lanes.map (·.device))).flush o = (.ok error, o') ∧
      Keeps (lanes.map (·.device)) o o' ∧ o'.Carries (Pipe.Within total) lanes ∧
      (error = none → o.Carries (Pipe.UpTo total) lanes →
        o'.Carries (Pipe.Flushed total) lanes) := by
  have hflushAll := outcome_flushAll_lanes hnodup h
  match lanes with
  | [] => exact hflushAll
  | l :: l' :: lanes => exact hflushAll
  | [l] =>
    -- Flushing all of one device is flushing it.
    have hone : Act.outcome (Output.flushAll ([l].map (·.device))) o =
        Act.outcome (Outside.flush l.device) o := by
      rw [List.map_singleton, Output.flushAll, Act.outcome_bind]
      rcases Act.outcome (Outside.flush l.device) o with ⟨stop | error, o'⟩
      · rfl
      · simp [Output.flushAll]
    rw [hone] at hflushAll
    exact hflushAll

end Outside
end Birdcall
