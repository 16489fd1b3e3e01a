import Birdcall.Proofs.Devices
import Birdcall.Proofs.Splitting

/-!
# Lines that are logged

A line log is written to, flushed and closed, in any order.  What it logs depends on the bytes
between two flushes, and not on how they were cut up for writing.

* `LineLog.Call.due` are the lines that some calls lead to, by the stretches of bytes between
  flushes.
* Logging a line may not return.  `LineLog.passed` are the lines that come through, up to the first
  one that does not.  `Outside.Logs` is about an act that logs some lines, whatever comes of it, and
  acts in a row log their lines in a row (`Outside.Logs.bind`).
* `LineLog.logs_drain` is about one call and `LineLog.Call.logs_all` about any number of them.  What
  the log holds in between is the rest of the last stretch, which is as good as written anew.
-/

namespace Birdcall

/-- How the one who logged a line is stopped. -/
def Reply.stop? : Reply → Option Stop
  | done => none
  | crash m => some (.crashed (.text m))
  | exit => some .exited

namespace LineLog

/-! ## Lines that come through -/

/-- How logging a line stops the one who wrote it. -/
def stop? (l : LineLog) (line : Text) : Option Stop :=
  l.channel.bind fun c => (c.reply (l.heading ++ line)).stop?

/-- The lines that are logged when some are to be, and what stops the one who wrote them: all up to
the first one that logging does not return from. -/
def passed (l : LineLog) : List Text → List Text × Option Stop
  | [] => ([], none)
  | line :: rest =>
    match l.stop? line with
    | some stop => ([line], some stop)
    | none => (line :: (l.passed rest).1, (l.passed rest).2)

/-- What the record shows of lines that are logged; nothing if they go nowhere. -/
def events (l : LineLog) (lines : List Text) : List Event :=
  match l.channel with
  | none => []
  | some c => lines.map fun line => .logged c.name c.level (l.heading ++ line)

variable {l : LineLog} {lines more : List Text} {stop : Stop}

theorem passed_cons_of_some {line : Text} (h : l.stop? line = some stop) (lines : List Text) :
    l.passed (line :: lines) = ([line], some stop) := by
  rw [passed, h]

theorem passed_cons_of_none {line : Text} (h : l.stop? line = none) (lines : List Text) :
    l.passed (line :: lines) = (line :: (l.passed lines).1, (l.passed lines).2) := by
  rw [passed, h]

/-- What a log holds does not matter to the lines it is to log. -/
theorem passed_held (l : LineLog) (held : Text) (lines : List Text) :
    passed { l with held } lines = l.passed lines := by
  induction lines with
  | nil => rfl
  | cons line lines ih =>
    cases hline : l.stop? line with
    | some stop =>
      have hheld : stop? { l with held } line = some stop := hline
      rw [passed_cons_of_some hline, passed_cons_of_some hheld]
    | none =>
      have hheld : stop? { l with held } line = none := hline
      rw [passed_cons_of_none hline, passed_cons_of_none hheld, ih]

theorem passed_singleton (l : LineLog) (line : Text) : l.passed [line] = ([line], l.stop? line) := by
  cases hline : l.stop? line with
  | some stop => exact passed_cons_of_some hline []
  | none => exact passed_cons_of_none hline []

/-- If logging returns, all lines come through. -/
theorem passed_of_returns (h : l.Returns) (lines : List Text) : l.passed lines = (lines, none) := by
  induction lines with
  | nil => rfl
  | cons line lines ih =>
    have hline : l.stop? line = none := by
      rw [stop?, Option.bind_eq_none_iff]
      intro c hc
      rw [h c hc]
      rfl
    rw [passed_cons_of_none hline, ih]

theorem passed_append (h : (l.passed lines).2 = none) (more : List Text) :
    l.passed (lines ++ more) = (lines ++ (l.passed more).1, (l.passed more).2) := by
  induction lines with
  | nil => rfl
  | cons line lines ih =>
    rw [List.cons_append]
    cases hline : l.stop? line with
    | some stop =>
      rw [passed_cons_of_some hline] at h
      cases h
    | none =>
      rw [passed_cons_of_none hline] at h
      rw [passed_cons_of_none hline, ih h, List.cons_append]

theorem passed_eq (h : (l.passed lines).2 = none) : (l.passed lines).1 = lines := by
  have happend := passed_append h []
  rw [List.append_nil] at happend
  rw [happend]
  exact List.append_nil lines

/-- Nothing comes behind a line that logging does not return from. -/
theorem passed_append_stopped (h : (l.passed lines).2 = some stop) (more : List Text) :
    l.passed (lines ++ more) = l.passed lines := by
  induction lines with
  | nil => cases h
  | cons line lines ih =>
    rw [List.cons_append]
    cases hline : l.stop? line with
    | some stop => rw [passed_cons_of_some hline, passed_cons_of_some hline]
    | none =>
      rw [passed_cons_of_none hline] at h
      rw [passed_cons_of_none hline, passed_cons_of_none hline, ih h]

theorem events_nil (l : LineLog) : l.events [] = [] := by
  unfold events
  split <;> rfl

theorem events_append (lines more : List Text) :
    l.events (lines ++ more) = l.events lines ++ l.events more := by
  unfold events
  split
  · rfl
  · exact List.map_append

end LineLog

namespace Outside

variable {α β : Type} {l : LineLog} {id : Nat} {lines more : List Text} {o : Outside}

/-- An act logs lines on behalf of a device: all of them, and then it finishes with `x` and leaves
the device holding a text, or up to one that logging does not return from. -/
structure Logs (l : LineLog) (id : Nat) (o : Outside) (a : Act Outside α) (lines : List Text)
    (x : α) (held : Text) : Prop where
  events : (Act.outcome a o).2.events.toList =
    o.events.toList ++ l.events (l.passed lines).1
  finished : (l.passed lines).2 = none →
    (Act.outcome a o).1 = .ok x ∧
      (Act.outcome a o).2.devices[id]? = some (.lineLog { l with held })
  stopped : ∀ stop, (l.passed lines).2 = some stop → (Act.outcome a o).1 = .error stop

theorem Logs.bind {a : Act Outside α} {f : α → Act Outside β} {x : α} {y : β} {held held' : Text}
    (h : Logs l id o a lines x held)
    (hnext : ∀ o' : Outside, o'.devices[id]? = some (.lineLog { l with held }) →
      Logs l id o' (f x) more y held') : Logs l id o (a >>= f) (lines ++ more) y held' := by
  cases hpassed : (l.passed lines).2 with
  | some stop =>
    have hbind := Act.outcome_bind_error (h.stopped stop hpassed) f
    have happend := LineLog.passed_append_stopped hpassed more
    refine ⟨?_, fun hnone => ?_, fun stop' hstop => ?_⟩
    · rw [hbind, happend]
      exact h.events
    · rw [happend, hpassed] at hnone
      cases hnone
    · rw [happend, hpassed] at hstop
      rw [hbind, Option.some.inj hstop]
  | none =>
    obtain ⟨hend, hdevice⟩ := h.finished hpassed
    have hbind := Act.outcome_bind_ok hend f
    have hrest := hnext _ hdevice
    have happend := LineLog.passed_append hpassed more
    refine ⟨?_, fun hnone => ?_, fun stop' hstop => ?_⟩
    · rw [hbind, happend, hrest.events, h.events, LineLog.passed_eq hpassed, LineLog.events_append,
        List.append_assoc]
    · rw [hbind]
      exact hrest.finished (by rwa [happend] at hnone)
    · rw [hbind]
      exact hrest.stopped stop' (by rwa [happend] at hstop)

/-- All that counts is what comes of an act. -/
theorem Logs.congr {a b : Act Outside α} {x : α} {held : Text}
    (h : Act.outcome a o = Act.outcome b o) (hb : Logs l id o b lines x held) :
    Logs l id o a lines x held := by
  refine ⟨?_, ?_, ?_⟩ <;> rw [h]
  · exact hb.events
  · exact hb.finished
  · exact hb.stopped

theorem Logs.of_held {a : Act Outside α} {x : α} {held held' : Text}
    (h : Logs { l with held := held' } id o a lines x held) : Logs l id o a lines x held := by
  have hpassed := LineLog.passed_held l held' lines
  refine ⟨?_, ?_, ?_⟩ <;> rw [← hpassed]
  · exact h.events
  · exact h.finished
  · exact h.stopped

theorem Logs.pure {held : Text} (hdevice : o.devices[id]? = some (.lineLog { l with held }))
    (x : α) : Logs l id o (Pure.pure x) [] x held := by
  refine ⟨?_, fun _ => ⟨rfl, hdevice⟩, fun stop hstop => ?_⟩
  · have hnil : l.events (l.passed []).1 = [] := l.events_nil
    rw [hnil, List.append_nil]
    rfl
  · cases hstop

/-- What a device holds may change without a line being logged. -/
theorem logs_setDevice {held : Text} (hdevice : o.devices[id]? = some (.lineLog { l with held }))
    (held' : Text) : Logs l id o (setDevice id (.lineLog { l with held := held' })) [] () held' := by
  have hlt : id < o.devices.size := (Array.getElem?_eq_some_iff.1 hdevice).1
  refine ⟨?_, fun _ => ⟨rfl, ?_⟩, fun stop hstop => ?_⟩
  · have hnil : l.events (l.passed []).1 = [] := l.events_nil
    rw [hnil, List.append_nil]
    rfl
  · simp [Act.outcome, setDevice, hlt]
  · cases hstop

theorem outcome_log_eq (c : Channel) (message : Text) (o : Outside) :
    Act.outcome (log c message) o =
      ((c.reply message).stop?.elim (.ok ()) .error,
        { o with events := o.events.push (.logged c.name c.level message) }) := by
  rw [log]
  cases c.reply message <;> rfl

theorem outcome_logLine_eq (l : LineLog) (line : Text) (o : Outside) :
    Act.outcome (l.logLine line) o =
      ((l.stop? line).elim (.ok ()) .error,
        { o with events := o.events ++ (l.events [line]).toArray }) := by
  rw [LineLog.logLine, LineLog.stop?, LineLog.events]
  cases l.channel with
  | none => simp
  | some c =>
    rw [Option.bind_some, outcome_log_eq]
    simp

theorem logs_logLine {held : Text} (hdevice : o.devices[id]? = some (.lineLog { l with held }))
    (line : Text) : Logs l id o (l.logLine line) [line] () held := by
  have hline := outcome_logLine_eq l line o
  refine ⟨?_, fun hnone => ?_, fun stop hstop => ?_⟩
  · rw [hline, LineLog.passed_singleton]
    simp
  · rw [LineLog.passed_singleton] at hnone
    have hnone : l.stop? line = none := hnone
    rw [hline, hnone]
    exact ⟨rfl, hdevice⟩
  · rw [LineLog.passed_singleton] at hstop
    have hstop : l.stop? line = some stop := hstop
    rw [hline, hstop]
    rfl

end Outside

namespace LineLog

open Text Outside

variable {l : LineLog} {id : Nat} {o : Outside}

/-- Draining logs the lines of what is held, and with `all` what comes behind them too. -/
theorem logs_drain (l : LineLog) (all : Bool) (text : Text) :
    ∀ (o : Outside) (held : Text), o.devices[id]? = some (.lineLog { l with held }) →
      Logs l id o (l.drain id all text) (if all then text.allLines else text.lines) ()
        (if all then [] else text.unended) := by
  fun_induction drain l id all text with
  | case1 text line rest hsplit ih =>
    intro o held hdevice
    obtain ⟨rfl, hline⟩ := splitAt_eq_some hsplit
    have hlined := rest.lined.cons hline
    have hlines : (if all then allLines (line ++ lineFeed :: rest) else
        lines (line ++ lineFeed :: rest)) =
        [] ++ ([line] ++ if all then rest.allLines else rest.lines) := by
      rw [allLines, hlined.lines_eq, hlined.unended_eq]
      cases all <;> rfl
    rw [hlines, hlined.unended_eq]
    exact (logs_setDevice hdevice _).bind fun o₁ h₁ =>
      (logs_logLine h₁ line).bind fun o₂ h₂ => ih o₂ _ h₂
  | case2 text line hsplit hall =>
    intro o held hdevice
    obtain ⟨rfl, hne⟩ : all = true ∧ text ≠ [] := by simpa using hall
    have hlined := lined_of_not_mem (splitAt_eq_none hsplit)
    rw [if_pos rfl, if_pos rfl, allLines, hlined.lines_eq, hlined.unended_eq, if_neg hne]
    exact (logs_setDevice hdevice _).bind fun o₁ h₁ => logs_logLine h₁ text
  | case3 text line hsplit hall =>
    intro o held hdevice
    have hlined := lined_of_not_mem (splitAt_eq_none hsplit)
    have hset := logs_setDevice hdevice text
    rw [allLines, hlined.lines_eq, hlined.unended_eq]
    cases all with
    | false => exact hset
    | true =>
      obtain rfl : text = [] := by simpa using hall
      exact hset

/-! ## Calls -/

/-- What a line log may be asked for. -/
inductive Call
  | write (t : Text)
  | flush
  | close

namespace Call

/-- Asks the line log `id` for something: how many bytes were taken, and the error. -/
def act (id : Nat) : Call → Act Outside (Nat × Option Error)
  | write t => Outside.write id t
  | flush => return (0, ← Outside.flush id)
  | close => return (0, ← Outside.close id)

/-- The answer to a call: every byte is taken, and there is no error. -/
def answer : Call → Nat × Option Error
  | write t => (t.length, none)
  | flush | close => (0, none)

/-- The stretches of bytes that a flush or a close ends, and the one that goes on. -/
def stretches : List Call → List Text × Text
  | [] => ([], [])
  | write t :: rest =>
    match stretches rest with
    | ([], last) => ([], t ++ last)
    | (s :: ended, last) => ((t ++ s) :: ended, last)
  | flush :: rest | close :: rest => ([] :: (stretches rest).1, (stretches rest).2)

/-- The lines that calls lead to, in order. -/
def due (calls : List Call) : List Text :=
  (stretches calls).1.flatMap allLines ++ (stretches calls).2.lines

/-- What is left when all lines are logged. -/
def left (calls : List Call) : Text := (stretches calls).2.unended

/-- Calls one after the other, with their answers. -/
def all (id : Nat) : List Call → Act Outside (List (Nat × Option Error))
  | [] => pure []
  | c :: rest => do
    let x ← c.act id
    return x :: (← all id rest)

/-! ### Stretches -/

theorem stretches_write_of_nil {last : Text} {calls : List Call} (h : stretches calls = ([], last))
    (t : Text) : stretches (write t :: calls) = ([], t ++ last) := by
  rw [stretches, h]

theorem stretches_write_of_cons {s last : Text} {ended : List Text} {calls : List Call}
    (h : stretches calls = (s :: ended, last)) (t : Text) :
    stretches (write t :: calls) = ((t ++ s) :: ended, last) := by
  rw [stretches, h]

theorem stretches_write_nil (calls : List Call) :
    stretches (write [] :: calls) = stretches calls := by
  rcases hcalls : stretches calls with ⟨_ | ⟨s, ended⟩, last⟩
  · exact stretches_write_of_nil hcalls []
  · exact stretches_write_of_cons hcalls []

/-- It does not matter where bytes are cut. -/
theorem stretches_write_write (s t : Text) (calls : List Call) :
    stretches (write s :: write t :: calls) = stretches (write (s ++ t) :: calls) := by
  rcases hcalls : stretches calls with ⟨_ | ⟨u, ended⟩, last⟩
  · rw [stretches_write_of_nil (stretches_write_of_nil hcalls t), stretches_write_of_nil hcalls,
      List.append_assoc]
  · rw [stretches_write_of_cons (stretches_write_of_cons hcalls t), stretches_write_of_cons hcalls,
      List.append_assoc]

theorem stretches_append {later later' : List Call} (h : stretches later = stretches later')
    (calls : List Call) : stretches (calls ++ later) = stretches (calls ++ later') := by
  induction calls with
  | nil => exact h
  | cons c calls ih => cases c <;> rw [List.cons_append, List.cons_append, stretches, stretches, ih]

theorem stretches_close (texts : List Text) :
    stretches (texts.map write ++ [close]) = ([texts.flatten], []) := by
  induction texts with
  | nil => rfl
  | cons t texts ih => exact stretches_write_of_cons ih t

/-- The lines of the first write are due at once, and what comes behind them waits. -/
theorem due_write (t : Text) (calls : List Call) :
    due (write t :: calls) = t.lines ++ due (write t.unended :: calls) := by
  rw [due, due]
  rcases hcalls : stretches calls with ⟨_ | ⟨s, ended⟩, last⟩
  · rw [stretches_write_of_nil hcalls, stretches_write_of_nil hcalls]
    exact lines_append t last
  · rw [stretches_write_of_cons hcalls, stretches_write_of_cons hcalls]
    simp only [List.flatMap_cons]
    rw [allLines_append, List.append_assoc, List.append_assoc, List.append_assoc]

theorem left_write (t : Text) (calls : List Call) :
    left (write t :: calls) = left (write t.unended :: calls) := by
  rw [left, left]
  rcases hcalls : stretches calls with ⟨_ | ⟨s, ended⟩, last⟩
  · rw [stretches_write_of_nil hcalls, stretches_write_of_nil hcalls]
    exact unended_append t last
  · rw [stretches_write_of_cons hcalls, stretches_write_of_cons hcalls]

/-- Whether a call is the end of a stretch. -/
def ends : Call → Bool
  | write _ => false
  | flush | close => true

theorem stretches_ends {c : Call} (hc : c.ends = true) (calls : List Call) :
    stretches (c :: calls) = ([] :: (stretches calls).1, (stretches calls).2) := by
  cases c with
  | write => cases hc
  | flush | close => rfl

theorem due_ends {c : Call} (hc : c.ends = true) (held : Text) (calls : List Call) :
    due (write held :: c :: calls) = held.allLines ++ due calls := by
  rw [due, due, stretches_write_of_cons (stretches_ends hc calls)]
  simp only [List.append_nil, List.flatMap_cons, List.append_assoc]

theorem left_ends {c : Call} (hc : c.ends = true) (held : Text) (calls : List Call) :
    left (write held :: c :: calls) = left calls := by
  rw [left, left, stretches_write_of_cons (stretches_ends hc calls)]

/-! ### One call, and any number of them -/

theorem logs_write {held : Text} (hdevice : o.devices[id]? = some (.lineLog { l with held }))
    (t : Text) :
    Logs l id o (act id (write t)) (held ++ t).lines (answer (write t)) (held ++ t).unended := by
  have hact : Act.outcome (act id (write t)) o =
      Act.outcome (do drain { l with held } id false (held ++ t); pure (t.length, none)) o := by
    rw [act, Outside.write, Act.outcome_get_bind, hdevice]
  have hdrain : Logs l id o (drain { l with held } id false (held ++ t)) (held ++ t).lines ()
      (held ++ t).unended := .of_held (logs_drain { l with held } false (held ++ t) o held hdevice)
  rw [← List.append_nil (lines _)]
  exact .congr hact (hdrain.bind fun o₁ h₁ => .pure h₁ _)

theorem logs_ends {c : Call} (hc : c.ends = true) {held : Text}
    (hdevice : o.devices[id]? = some (.lineLog { l with held })) :
    Logs l id o (c.act id) held.allLines c.answer [] := by
  have hact : Act.outcome (c.act id) o =
      Act.outcome (do drain { l with held } id true held; pure (0, none)) o := by
    cases c with
    | write => cases hc
    | flush =>
      rw [act, Act.outcome_bind, Outside.flush, Act.outcome_get_bind, hdevice, ← Act.outcome_bind,
        bind_assoc]
      simp only [pure_bind]
    | close =>
      rw [act, Act.outcome_bind, Outside.close, Act.outcome_get_bind, hdevice, ← Act.outcome_bind,
        bind_assoc]
      simp only [pure_bind]
  have hanswer : c.answer = (0, none) := by
    cases c with
    | write => cases hc
    | flush | close => rfl
  have hdrain : Logs l id o (drain { l with held } id true held) held.allLines () [] :=
    .of_held (logs_drain { l with held } true held o held hdevice)
  rw [← List.append_nil held.allLines, hanswer]
  exact .congr hact (hdrain.bind fun o₁ h₁ => .pure h₁ _)

/-- Calls log the lines that are due.  The log starts with what it holds from earlier calls, as if
that were written first. -/
theorem logs_all (calls : List Call) :
    ∀ (o : Outside) (held : Text), o.devices[id]? = some (.lineLog { l with held }) →
      lineFeed ∉ held →
      Logs l id o (all id calls) (due (write held :: calls)) (calls.map answer)
        (left (write held :: calls)) := by
  induction calls with
  | nil =>
    intro o held hdevice hheld
    have hlined := lined_of_not_mem hheld
    have hdue : due [write held] = [] := by simpa [due, stretches] using hlined.lines_eq
    have hleft : left [write held] = held := by simpa [left, stretches] using hlined.unended_eq
    rw [hdue, hleft]
    exact .pure hdevice []
  | cons c calls ih =>
    intro o held hdevice hheld
    have hnext : ∀ {lines held'}, Logs l id o (c.act id) lines c.answer held' →
        lineFeed ∉ held' →
        Logs l id o (all id (c :: calls)) (lines ++ due (write held' :: calls))
          ((c :: calls).map answer) (left (write held' :: calls)) := by
      intro lines held' hact hheld'
      refine hact.bind fun o₁ h₁ => ?_
      rw [← List.append_nil (due _)]
      exact (ih o₁ held' h₁ hheld').bind fun o₂ h₂ => .pure h₂ _
    by_cases hc : c.ends = true
    · rw [due_ends hc, left_ends hc, due, left, ← stretches_write_nil]
      exact hnext (logs_ends hc hdevice) List.not_mem_nil
    · obtain ⟨t, rfl⟩ : ∃ t, c = write t := by
        cases c with
        | write t => exact ⟨t, rfl⟩
        | flush | close => exact absurd rfl hc
      have hwrite := stretches_write_write held t calls
      rw [due, left, hwrite, ← due, ← left, due_write, left_write]
      exact hnext (logs_write hdevice t) (lined _).unended

/-- The log of some calls does not change if two writes in a row are made one. -/
theorem events_all_merge (hdevice : o.devices[id]? = some (.lineLog { l with held := [] }))
    (before after : List Call) (s t : Text) :
    (Act.outcome (all id (before ++ write s :: write t :: after)) o).2.events =
      (Act.outcome (all id (before ++ write (s ++ t) :: after)) o).2.events := by
  have hmerge := stretches_append (stretches_write_write s t after) before
  have hdue : due (write [] :: (before ++ write s :: write t :: after)) =
      due (write [] :: (before ++ write (s ++ t) :: after)) := by
    rw [due, stretches_write_nil, hmerge, ← stretches_write_nil, ← due]
  rw [← Array.toList_inj, (logs_all _ o [] hdevice List.not_mem_nil).events,
    (logs_all _ o [] hdevice List.not_mem_nil).events, hdue]

/-- A new line log that is written to, flushed and closed takes all that it is given and never holds
a line feed.  It logs, in order and behind its heading, the lines of each stretch of bytes and, if a
flush or a close ends the stretch, the rest behind them unless that is empty; only logging that does
not return ends it before.  So it does not matter how the bytes are cut up, and what was written and
closed can be put together again from the lines. -/
theorem logs_by_stretches (channel : Option Channel) (heading : Text) (o : Outside)
    (calls : List Call) :
    let l : LineLog := ⟨channel, heading, []⟩
    let id := o.devices.size
    let start := (Act.outcome (Outside.addDevice (.lineLog l)) o).2
    let after (calls : List Call) := Act.outcome (Call.all id calls) start
    (after calls).2.events.toList = o.events.toList ++ l.events (l.passed (due calls)).1 ∧
    ((l.passed (due calls)).2 = none → (after calls).1 = .ok (calls.map answer) ∧
      ∃ held, (after calls).2.devices[id]? = some (.lineLog { l with held }) ∧
        lineFeed ∉ held) ∧
    (∀ stop, (l.passed (due calls)).2 = some stop → (after calls).1 = .error stop) ∧
    (l.Returns → l.passed (due calls) = (due calls, none)) ∧
    (∀ before later s t, (after (before ++ write s :: write t :: later)).2.events =
      (after (before ++ write (s ++ t) :: later)).2.events) ∧
    ∀ texts : List Text,
      joinWith [lineFeed] (due (texts.map write ++ [close])) ++
        (if texts.flatten.getLast? = some lineFeed then [lineFeed] else []) = texts.flatten := by
  intro l id start after
  have hdevice : start.devices[id]? = some (.lineLog { l with held := [] }) := by
    show (o.devices.push (.lineLog l))[o.devices.size]? = _
    simp [l]
  have hlogs := logs_all calls start [] hdevice List.not_mem_nil
  have hdue : due (write [] :: calls) = due calls := by rw [due, stretches_write_nil, ← due]
  rw [hdue] at hlogs
  refine ⟨hlogs.events, fun hnone => ?_, hlogs.stopped,
    fun hreturns => passed_of_returns hreturns _, events_all_merge hdevice, fun texts => ?_⟩
  · obtain ⟨hend, hheld⟩ := hlogs.finished hnone
    exact ⟨hend, _, hheld, (lined _).unended⟩
  · have hclose : due (texts.map write ++ [close]) = allLines texts.flatten := by
      rw [due, stretches_close]
      simp [lines, splitOn]
    rw [hclose]
    exact joinWith_allLines _

/-- Two words that are cut up, an empty line, and a word that no line feed ends. -/
theorem logs_by_stretches_cut :
    let c : Channel := ⟨[], .info, fun _ => .done⟩
    let l : LineLog := ⟨some c, ofString "out: ", []⟩
    let calls := [write (ofString "duck\ngo"), write (ofString "ose\n\nswan"), close, flush]
    let run := Act.outcome (Call.all 0 calls) ⟨#[.lineLog l], #[], #[]⟩
    (l.Returns ∧ (l.passed (due calls)).2 = none) ∧
    run.1 = .ok [(7, none), (9, none), (0, none), (0, none)] ∧
    run.2.events.toList = [.logged [] .info (ofString "out: duck"),
      .logged [] .info (ofString "out: goose"), .logged [] .info (ofString "out: "),
      .logged [] .info (ofString "out: swan")] ∧
    ∃ held, run.2.devices[0]? = some (.lineLog { l with held }) ∧ lineFeed ∉ held := by
  intro c l calls run
  have hreturns : l.Returns := by
    intro channel hchannel message
    cases hchannel
    rfl
  obtain ⟨hevents, hfinished, -, hpassed, -⟩ :=
    logs_by_stretches (some c) (ofString "out: ") .empty calls
  have hpassed := hpassed hreturns
  obtain ⟨hend, hheld⟩ := hfinished (by rw [hpassed])
  refine ⟨⟨hreturns, by rw [hpassed]⟩, hend.trans ?_, ?_, hheld⟩
  · rfl
  · refine hevents.trans ?_
    rw [hpassed]
    rfl

end Call
end LineLog
end Birdcall
