import Birdcall.Proofs.Outside

/-!
# What writing leaves alone

An output of an engine leads to one writer and any number of logs.  If the writer takes everything
and logging leads to nothing further, then writing to the output never goes wrong: the writer gets
what was written, and everyone else's writers are left alone.

`Outside.Keeps` says what is left alone.  The lemmas go from logs and pipes up to outputs, and give
for each act how it ends and what it keeps.
-/

namespace Birdcall

/-- Logging a line leads to nothing further. -/
def LineLog.Returns (l : LineLog) : Prop :=
  ∀ channel, l.channel = some channel → ∀ message, channel.reply message = .done

/-- Takes everything it is offered. -/
def Writer.Accepts (w : Writer) : Prop :=
  ∀ earlier offer, offer.length ≤ (w.respond earlier offer).taken ∧
    (w.respond earlier offer).error = none

namespace Outside

/-- A device is a log that leads to nothing further. -/
def HasLog (o : Outside) (id : Nat) : Prop :=
  ∃ l, o.devices[id]? = some (.lineLog l) ∧ l.Returns

/-- A device is a writer that is written straight through, and was offered these texts, latest
first. -/
def HasWriter (o : Outside) (id : Nat) (w : Writer) (offers : List Text) : Prop :=
  o.devices[id]? = some (.pipe ⟨w, .direct, offers⟩)

/-- All pipes but the given ones stay as they are, and logs stay logs. -/
structure Keeps (changed : List Nat) (o o' : Outside) : Prop where
  pipe : ∀ id p, id ∉ changed → o.devices[id]? = some (.pipe p) → o'.devices[id]? = some (.pipe p)
  log : ∀ id, o.HasLog id → o'.HasLog id

namespace Keeps

variable {changed : List Nat} {o o' o'' : Outside}

theorem of_devices (h : o'.devices = o.devices) : Keeps changed o o' := by
  refine ⟨fun id p _ hid => ?_, fun id hid => ?_⟩
  · rw [h]
    exact hid
  · rw [HasLog, h]
    exact hid

theorem refl (o : Outside) : Keeps changed o o :=
  of_devices rfl

theorem trans (h : Keeps changed o o') (h' : Keeps changed o' o'') : Keeps changed o o'' :=
  ⟨fun id p hne hid => h'.pipe id p hne (h.pipe id p hne hid),
    fun id hid => h'.log id (h.log id hid)⟩

/-- What changes no pipe at all changes no other than the given ones. -/
theorem weaken (h : Keeps [] o o') : Keeps changed o o' :=
  ⟨fun id p _ => h.pipe id p List.not_mem_nil, h.log⟩

theorem writer (h : Keeps changed o o') {id : Nat} (hid : id ∉ changed) {w : Writer}
    {offers : List Text} (hw : o.HasWriter id w offers) : o'.HasWriter id w offers :=
  h.pipe id _ hid hw

end Keeps

theorem HasLog.lt {o : Outside} {id : Nat} (h : o.HasLog id) : id < o.devices.size := by
  obtain ⟨l, hl, -⟩ := h
  exact (Array.getElem?_eq_some_iff.1 hl).1

theorem HasWriter.lt {o : Outside} {id : Nat} {w : Writer} {offers : List Text}
    (h : o.HasWriter id w offers) : id < o.devices.size :=
  (Array.getElem?_eq_some_iff.1 h).1

/-- A new device leaves the others alone. -/
theorem keeps_push (o : Outside) (d : Device) :
    Keeps [] o { o with devices := o.devices.push d } := by
  have hpush : ∀ {id : Nat} {d' : Device}, o.devices[id]? = some d' →
      (o.devices.push d)[id]? = some d' := by
    intro id d' hid
    have hne : id ≠ o.devices.size := by
      have := (Array.getElem?_eq_some_iff.1 hid).1
      omega
    simpa [Array.getElem?_push, hne] using hid
  exact ⟨fun id p _ hid => hpush hid, fun id ⟨l, hl, hreturns⟩ => ⟨l, hpush hl, hreturns⟩⟩

theorem hasWriter_push (o : Outside) (w : Writer) :
    HasWriter { o with devices := o.devices.push (.pipe (.direct w)) } o.devices.size w [] := by
  simp [HasWriter, Pipe.direct]

theorem hasLog_push (o : Outside) {l : LineLog} (hl : l.Returns) :
    HasLog { o with devices := o.devices.push (.lineLog l) } o.devices.size :=
  ⟨l, by simp, hl⟩

/-! ## Logs -/

section Logs

variable {o : Outside} {id : Nat} {l : LineLog}

/-- A log may be replaced by a log. -/
theorem keeps_setLog (h : o.HasLog id) (hl : l.Returns) :
    Keeps [] o { o with devices := o.devices.setIfInBounds id (.lineLog l) } := by
  have hlt := h.lt
  obtain ⟨l₀, hl₀, -⟩ := h
  refine ⟨fun j p _ hj => ?_, fun j hj => ?_⟩
  · have hne : id ≠ j := by
      rintro rfl
      rw [hl₀] at hj
      cases hj
    simpa [Array.getElem?_setIfInBounds, hne] using hj
  · by_cases hj' : id = j
    · subst hj'
      exact ⟨l, by simp [hlt], hl⟩
    · obtain ⟨l', hl', hreturns⟩ := hj
      exact ⟨l', by simpa [Array.getElem?_setIfInBounds, hj'] using hl', hreturns⟩

theorem outcome_logLine (hl : l.Returns) (line : Text) (o : Outside) :
    ∃ o', Act.outcome (l.logLine line) o = (.ok (), o') ∧ o'.devices = o.devices := by
  rw [LineLog.logLine]
  cases hchannel : l.channel with
  | none => exact ⟨o, rfl, rfl⟩
  | some channel =>
    obtain ⟨hend, halike⟩ := outcome_log (hl channel hchannel (l.heading ++ line)) o
    exact ⟨_, Prod.ext hend rfl, halike.devices⟩

/-- Logging what is held leaves all pipes alone. -/
theorem outcome_drain (hl : l.Returns) (all : Bool) (held : Text) :
    ∀ o : Outside, o.HasLog id →
      ∃ o', Act.outcome (l.drain id all held) o = (.ok (), o') ∧ Keeps [] o o' := by
  have hset : ∀ held, ({ l with held } : LineLog).Returns := fun _ => hl
  fun_induction LineLog.drain l id all held with
  | case1 held line rest hsplit ih =>
    intro o hid
    have hkeeps := keeps_setLog hid (hset (Text.lineFeed :: rest))
    obtain ⟨o₁, hline, hdevices⟩ := outcome_logLine hl line _
    have hkeeps₁ := hkeeps.trans (.of_devices hdevices)
    obtain ⟨o₂, hrest, hkeeps₂⟩ := ih o₁ (hkeeps₁.log id hid)
    refine ⟨o₂, ?_, hkeeps₁.trans hkeeps₂⟩
    rw [Act.outcome_bind]
    show Act.outcome (l.logLine line >>= fun _ => l.drain id all rest) _ = _
    rw [Act.outcome_bind, hline]
    exact hrest
  | case2 held line hsplit hall =>
    intro o hid
    have hkeeps := keeps_setLog hid (hset [])
    obtain ⟨o₁, hline, hdevices⟩ := outcome_logLine hl held _
    exact ⟨o₁, hline, hkeeps.trans (.of_devices hdevices)⟩
  | case3 held line hsplit hall =>
    intro o hid
    exact ⟨_, rfl, keeps_setLog hid (hset held)⟩

theorem outcome_write_log (h : o.HasLog id) (t : Text) :
    ∃ o', Act.outcome (write id t) o = (.ok (t.length, none), o') ∧ Keeps [] o o' := by
  obtain ⟨l, hl, hreturns⟩ := h
  obtain ⟨o', hdrain, hkeeps⟩ := outcome_drain hreturns false (l.held ++ t) o ⟨l, hl, hreturns⟩
  refine ⟨o', ?_, hkeeps⟩
  rw [write, Act.outcome_get_bind]
  simp only [hl]
  rw [Act.outcome_bind, hdrain]
  rfl

theorem outcome_flush_log (h : o.HasLog id) :
    ∃ o', Act.outcome (flush id) o = (.ok none, o') ∧ Keeps [] o o' := by
  obtain ⟨l, hl, hreturns⟩ := h
  obtain ⟨o', hdrain, hkeeps⟩ := outcome_drain hreturns true l.held o ⟨l, hl, hreturns⟩
  refine ⟨o', ?_, hkeeps⟩
  rw [flush, Act.outcome_get_bind]
  simp only [hl]
  rw [Act.outcome_bind, hdrain]
  rfl

theorem outcome_close_log (h : o.HasLog id) :
    ∃ o', Act.outcome (close id) o = (.ok none, o') ∧ Keeps [] o o' := by
  obtain ⟨l, hl, hreturns⟩ := h
  obtain ⟨o', hdrain, hkeeps⟩ := outcome_drain hreturns true l.held o ⟨l, hl, hreturns⟩
  refine ⟨o', ?_, hkeeps⟩
  rw [close, Act.outcome_get_bind]
  simp only [hl]
  rw [Act.outcome_bind, hdrain]
  rfl

end Logs

/-! ## Writers -/

section Writers

variable {o : Outside} {id : Nat} {w : Writer} {offers : List Text}

/-- Replacing a pipe leaves the other pipes and all logs alone. -/
theorem keeps_setPipe {p q : Pipe} (h : o.devices[id]? = some (.pipe p)) {o' : Outside}
    (hset : o'.devices = o.devices.setIfInBounds id (.pipe q)) : Keeps [id] o o' := by
  refine ⟨fun j r hj hr => ?_, ?_⟩
  · have hne : id ≠ j := fun heq => hj (heq ▸ List.mem_singleton.2 rfl)
    simpa [hset, Array.getElem?_setIfInBounds, hne] using hr
  · rintro j ⟨l, hl, hreturns⟩
    have hne : id ≠ j := by
      rintro rfl
      rw [h] at hl
      cases hl
    exact ⟨l, by simpa [hset, Array.getElem?_setIfInBounds, hne] using hl, hreturns⟩

/-- A writer that is written straight through gets what is written in one offer, and what comes
back is its own. -/
theorem outcome_write_direct (h : o.HasWriter id w offers) (t : Text) :
    ∃ o', Act.outcome (write id t) o =
        (.ok (min (w.respond offers t).taken t.length, (w.respond offers t).error), o') ∧
      o'.HasWriter id w (t :: offers) ∧ Keeps [id] o o' ∧
      o'.devices.size = o.devices.size := by
  have hid : o.devices[id]? = some (.pipe ⟨w, .direct, offers⟩) := h
  refine ⟨⟨o.devices.setIfInBounds id (.pipe ⟨w, .direct, t :: offers⟩), o.sinks,
    o.events.push (.wrote w.label (t.take (min (w.respond offers t).taken t.length)))⟩, ?_, ?_,
    keeps_setPipe hid rfl, Array.size_setIfInBounds⟩
  · rw [write, Act.outcome_get_bind, hid]
    rfl
  · simp [HasWriter, h.lt]

/-- A writer that takes everything gets what is written, and all others are left alone. -/
theorem outcome_write_accepts (h : o.HasWriter id w offers) (hw : w.Accepts) (t : Text) :
    ∃ o', Act.outcome (write id t) o = (.ok (t.length, none), o') ∧
      o'.HasWriter id w (t :: offers) ∧ Keeps [id] o o' ∧
      o'.devices.size = o.devices.size := by
  obtain ⟨htaken, herror⟩ := hw offers t
  have hwrite := outcome_write_direct h t
  rwa [herror, Nat.min_eq_right htaken] at hwrite

/-- A writer that keeps everything in memory has nothing to flush. -/
theorem outcome_flush_memory (h : o.HasWriter id w offers) (hw : w.kind = .memory) :
    ∃ o', Act.outcome (flush id) o = (.ok none, o') ∧ Keeps [] o o' := by
  have hid : o.devices[id]? = some (.pipe ⟨w, .direct, offers⟩) := h
  have hflush : (Pipe.mk w .direct offers).flush = ⟨0, none, ⟨w, .direct, offers⟩, []⟩ := by
    simp [Pipe.flush, hw]
  have hset : Keeps [id] o
      ⟨o.devices.setIfInBounds id (.pipe ⟨w, .direct, offers⟩), o.sinks, o.events⟩ :=
    keeps_setPipe hid rfl
  refine ⟨_, ?_, ⟨fun j p _ hp => ?_, hset.log⟩⟩
  · rw [flush, Act.outcome_get_bind, hid]
    simp only [hflush]
    rfl
  · -- The pipe is put back as it was.
    by_cases hj : j = id
    · subst hj
      rw [hid] at hp
      simpa [h.lt] using hp
    · exact hset.pipe j p (fun hmem => hj (List.mem_singleton.1 hmem)) hp

end Writers

/-! ## Outputs -/

section Outputs

variable {o : Outside} {id : Nat} {logs : List Nat} {w : Writer} {offers : List Text}

theorem outcome_writeAll_logs (hlogs : ∀ id ∈ logs, o.HasLog id) (t : Text) :
    ∃ o', Act.outcome (Output.writeAll t logs) o = (.ok (t.length, none), o') ∧ Keeps [] o o' := by
  induction logs generalizing o with
  | nil => exact ⟨o, rfl, .refl o⟩
  | cons log logs ih =>
    obtain ⟨o₁, hwrite, hkeeps⟩ := outcome_write_log (hlogs log List.mem_cons_self) t
    obtain ⟨o₂, hrest, hkeeps'⟩ := ih (o := o₁) fun id hid =>
      hkeeps.log id (hlogs id (List.mem_cons_of_mem _ hid))
    refine ⟨o₂, ?_, hkeeps.trans hkeeps'⟩
    rw [Output.writeAll, Act.outcome_bind, hwrite]
    simpa using hrest

theorem outcome_flushAll_logs (hlogs : ∀ id ∈ logs, o.HasLog id) :
    ∃ o', Act.outcome (Output.flushAll logs) o = (.ok none, o') ∧ Keeps [] o o' := by
  induction logs generalizing o with
  | nil => exact ⟨o, rfl, .refl o⟩
  | cons log logs ih =>
    obtain ⟨o₁, hflush, hkeeps⟩ := outcome_flush_log (hlogs log List.mem_cons_self)
    obtain ⟨o₂, hrest, hkeeps'⟩ := ih (o := o₁) fun id hid =>
      hkeeps.log id (hlogs id (List.mem_cons_of_mem _ hid))
    refine ⟨o₂, ?_, hkeeps.trans hkeeps'⟩
    rw [Output.flushAll, Act.outcome_bind, hflush]
    simp only
    rw [Act.outcome_bind, hrest]
    rfl

/-- Writing to a writer that takes everything, and to logs next to it, never goes wrong. -/
theorem outcome_write_ofDevices (h : o.HasWriter id w offers) (hw : w.Accepts)
    (hlogs : ∀ id ∈ logs, o.HasLog id) (t : Text) :
    ∃ o', Act.outcome ((Output.ofDevices (id :: logs)).write t) o = (.ok (t.length, none), o') ∧
      o'.HasWriter id w (t :: offers) ∧ Keeps [id] o o' := by
  obtain ⟨o₁, hwrite, hwriter, hkeeps, -⟩ := outcome_write_accepts h hw t
  cases logs with
  | nil => exact ⟨o₁, hwrite, hwriter, hkeeps⟩
  | cons log logs =>
    obtain ⟨o₂, hrest, hkeeps'⟩ := outcome_writeAll_logs (o := o₁)
      (fun id hid => hkeeps.log id (hlogs id hid)) t
    refine ⟨o₂, ?_, hkeeps'.writer List.not_mem_nil hwriter, hkeeps.trans hkeeps'.weaken⟩
    show Act.outcome (Output.writeAll t (id :: log :: logs)) o = _
    rw [Output.writeAll, Act.outcome_bind, hwrite]
    simpa using hrest

/-- Flushing memory, and logs next to it, never goes wrong. -/
theorem outcome_flush_ofDevices (h : o.HasWriter id w offers) (hw : w.kind = .memory)
    (hlogs : ∀ id ∈ logs, o.HasLog id) :
    ∃ o', Act.outcome (Output.ofDevices (id :: logs)).flush o = (.ok none, o') ∧
      Keeps [] o o' := by
  obtain ⟨o₁, hflush, hkeeps⟩ := outcome_flush_memory h hw
  cases logs with
  | nil => exact ⟨o₁, hflush, hkeeps⟩
  | cons log logs =>
    obtain ⟨o₂, hrest, hkeeps'⟩ :=
      outcome_flushAll_logs (o := o₁) fun id hid => hkeeps.log id (hlogs id hid)
    refine ⟨o₂, ?_, hkeeps.trans hkeeps'⟩
    show Act.outcome (Output.flushAll (id :: log :: logs)) o = _
    rw [Output.flushAll, Act.outcome_bind, hflush]
    simp only
    rw [Act.outcome_bind, hrest]
    rfl

/-- Pieces that are written to a log are all taken. -/
theorem outcome_writePieces_log (h : o.HasLog id) (pieces : List Text) :
    ∃ o', Act.outcome ((Output.device id).writePieces pieces) o = (.ok (), o') ∧ Keeps [] o o' := by
  induction pieces generalizing o with
  | nil => exact ⟨o, rfl, .refl o⟩
  | cons t pieces ih =>
    obtain ⟨o₁, hwrite, hkeeps⟩ := outcome_write_log h t
    obtain ⟨o₂, hrest, hkeeps'⟩ := ih (hkeeps.log id h)
    refine ⟨o₂, ?_, hkeeps.trans hkeeps'⟩
    have hshort : (if t.length < t.length then some Error.shortWrite else none) = none :=
      if_neg (Nat.lt_irrefl _)
    rw [Output.writePieces, Output.write, Act.outcome_bind, hwrite]
    simp only [hshort]
    exact hrest

end Outputs

end Outside
end Birdcall
