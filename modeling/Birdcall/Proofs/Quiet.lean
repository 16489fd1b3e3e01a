import Birdcall.Engine
import Birdcall.Proofs.Compilation
import Birdcall.Proofs.Ensures
import Birdcall.Proofs.Outside

/-!
# Acts that only log and count

Tiers differ in what they log and count, and in nothing else.  An act that does no more than that is
`Machine.Quiet`.  A relation between machines that does not look at logs and counts is
`Machine.Tolerant`.

If such a relation is kept by printing a symbol, then it is kept by interpreting a program
(`matches_interpret`), by running its artifact on the left while it is interpreted on the right
(`matches_invoke`), and so by any execution that a cache decides on (`matches_perform`).
-/

namespace Birdcall

/-! ## Quiet acts -/

namespace Log

/-- Logging a line leads to nothing further. -/
def Returns (l : Log) : Prop :=
  ∀ channel, l.channel = some channel → ∀ message, channel.reply message = .done

theorem Returns.write {l : Log} (h : l.Returns) (mark template : Text) (args : List Text) :
    (l.write mark template args).2.Returns := by
  unfold Log.write
  split <;> exact h

end Log

namespace Machine

@[simp]
theorem outcome_change (f : Engine → Engine) (m : Machine) :
    Act.outcome (change f) m = (.ok (), ⟨f m.engine, m.world⟩) :=
  rfl

@[simp]
theorem outcome_outside {α : Type} (a : Act Outside α) (e : Engine) (o : Outside)
    (caches : Array Cache) (meters : Array Meter) :
    Act.outcome (outside a) ⟨e, o, caches, meters⟩ =
      ((Act.outcome a o).1, ⟨e, (Act.outcome a o).2, caches, meters⟩) := by
  rw [outside, inWorld, World.doing, Act.outcome_on, Act.outcome_on]

/-- Printing a symbol keeps what is kept where the value goes. -/
theorem leads_emit_of {I : Machine → Prop}
    (hlines : ∀ (out : Output) (value : Text), Act.Leads I (outside (out.writeLine value)) I)
    (hsink : ∀ id value, Act.Leads I (outside (Outside.emit id value)) I) (s : Symbol) :
    Act.Leads I (emit s) I := by
  refine .get_bind fun m _ => ?_
  split
  · exact Act.Leads.throw _
  · refine .get_bind fun m _ => ?_
    split
    · exact .bind (hlines _ _) fun _ => Act.Leads.check _
    · exact hsink _ _
    · exact Act.Leads.throw _

/-- An act that finishes, having logged and counted and nothing more. -/
def Quiet (a : Act Machine Unit) : Prop :=
  ∀ e o caches meters, e.log.Returns → ∃ l o' meters', l.Returns ∧ o'.Alike o ∧
    meters'.size = meters.size ∧
    Act.outcome a ⟨e, o, caches, meters⟩ = (.ok (), ⟨{ e with log := l }, o', caches, meters'⟩)

theorem quiet_change {f : Log → Log} (h : ∀ l, (f l).channel = l.channel) :
    Quiet (change fun e => { e with log := f e.log }) := by
  intro e o caches meters hlog
  refine ⟨f e.log, o, meters, ?_, .refl o, rfl, rfl⟩
  unfold Log.Returns
  rw [h]
  exact hlog

theorem quiet_log (mark template : Text) (args : List Text) : Quiet (log mark template args) := by
  intro e o caches meters hlog
  have hwrite := hlog.write mark template args
  cases hchannel : e.log.channel with
  | none =>
    refine ⟨_, o, meters, hwrite, .refl o, rfl, ?_⟩
    simp only [log, Act.outcome_get_bind, Log.write, hchannel]
    rfl
  | some channel =>
    have hreply := hlog channel hchannel (e.log.line mark (Log.message template args))
    obtain ⟨hend, halike⟩ := Outside.outcome_log hreply o
    refine ⟨_, _, meters, hwrite, halike, rfl, ?_⟩
    simp only [log, Act.outcome_get_bind, Log.write, hchannel]
    rw [Act.outcome_bind, outcome_change]
    simp only [outcome_outside, hend]

theorem quiet_count (id : Option Nat) (f : Meter → Meter) : Quiet (inWorld (World.count id f)) := by
  intro e o caches meters hlog
  cases id with
  | none => exact ⟨e.log, o, meters, hlog, .refl o, rfl, rfl⟩
  | some id => exact ⟨e.log, o, meters.modify id f, hlog, .refl o, Array.size_modify, rfl⟩

theorem quiet_push (heading : Text) :
    Quiet (change fun e => { e with log := e.log.push heading }) :=
  quiet_change fun _ => rfl

theorem quiet_pop : Quiet (change fun e => { e with log := e.log.pop }) :=
  quiet_change fun _ => rfl

/-! ## Relations that tolerate them -/

/-- A relation between machines whose logs lead to nothing further, which logging and counting on
either side leave as it is. -/
structure Tolerant (R : Machine → Machine → Prop) : Prop where
  returns : ∀ {m m'}, R m m' → m.engine.log.Returns ∧ m'.engine.log.Returns
  left : ∀ {e o caches meters m' l o' meters'}, R ⟨e, o, caches, meters⟩ m' → l.Returns →
    o'.Alike o → meters'.size = meters.size → R ⟨{ e with log := l }, o', caches, meters'⟩ m'
  right : ∀ {m e o caches meters l o' meters'}, R m ⟨e, o, caches, meters⟩ → l.Returns →
    o'.Alike o → meters'.size = meters.size → R m ⟨{ e with log := l }, o', caches, meters'⟩

section Matches

variable {R : Machine → Machine → Prop} {α : Type}

/-- What is quiet may come first on the left alone. -/
theorem Tolerant.matches_left (hR : Tolerant R) {a : Act Machine Unit} (ha : Quiet a)
    {b c : Act Machine α} (h : Act.Matches R b c) : Act.Matches R (do a; b) c := by
  intro ⟨e, o, caches, meters⟩ m' hm
  obtain ⟨l, o', meters', hl, halike, hsize, houtcome⟩ := ha e o caches meters (hR.returns hm).1
  rw [Act.outcome_bind, houtcome]
  exact h _ _ (hR.left hm hl halike hsize)

/-- What is quiet may come first on the right alone. -/
theorem Tolerant.matches_right (hR : Tolerant R) {a : Act Machine Unit} (ha : Quiet a)
    {b c : Act Machine α} (h : Act.Matches R b c) : Act.Matches R b (do a; c) := by
  intro m ⟨e, o, caches, meters⟩ hm
  obtain ⟨l, o', meters', hl, halike, hsize, houtcome⟩ := ha e o caches meters (hR.returns hm).2
  rw [Act.outcome_bind, houtcome]
  exact h _ _ (hR.right hm hl halike hsize)

/-- Machines with the same outlet print the same, if their outsides go on in the same way. -/
theorem matches_printValue_of {R : Machine → Machine → Prop} {S : Outside → Outside → Prop}
    (hS : Outside.Unseen S) (houtlet : ∀ {m m'}, R m m' → m.engine.outlet = m'.engine.outlet)
    (houtside : ∀ {α : Type} {a : Act Outside α}, Act.Matches S a a →
      Act.Matches R (outside a) (outside a)) (value : Text) :
    Act.Matches R (printValue value) (printValue value) := by
  refine .get_bind fun m m' h => ?_
  rw [houtlet h]
  cases m'.engine.outlet with
  | lines out => exact (houtside (hS.matches_outputWrite out _)).bind fun _ => .check _
  | sink id => exact houtside (hS.matches_emit id value)
  | absent => exact .crash _

/-- Machines with the same symbols print the same for one, if they do for its value. -/
theorem matches_emit_of {R : Machine → Machine → Prop}
    (hsymbols : ∀ {m m'}, R m m' → m.engine.symbols = m'.engine.symbols)
    (hprint : ∀ value, Act.Matches R (printValue value) (printValue value)) (s : Symbol) :
    Act.Matches R (emit s) (emit s) := by
  refine .get_bind fun m m' h => ?_
  rw [hsymbols h]
  cases m'.engine.symbols.get? s with
  | none => exact .fail _
  | some value => exact hprint value

/-! ### Interpreting and running artifacts -/

/-- Interpreting logs an instruction, and running an artifact does not. -/
theorem matches_visit_right (hR : Tolerant R) (index : Nat) (i : Instruction) :
    Act.Matches R (pure ()) (visit index i) := by
  rw [← bind_pure_unit (x := visit index i)]
  exact hR.matches_right (quiet_log _ _ _) (.pure ())

theorem matches_visit (hR : Tolerant R) (index : Nat) (i : Instruction) :
    Act.Matches R (visit index i) (visit index i) := by
  have h : Act.Matches R (do visit index i; pure ()) (visit index i) :=
    hR.matches_left (quiet_log _ _ _) (matches_visit_right hR index i)
  rwa [bind_pure_unit] at h

theorem matches_within (hR : Tolerant R) {a b : Act Machine Unit} (h : Act.Matches R a b) :
    Act.Matches R (within a) (within b) := by
  refine hR.matches_left (quiet_push _) (hR.matches_right (quiet_push _) (h.lastly ?_))
  exact hR.matches_left quiet_pop (hR.matches_right quiet_pop (.pure none))

/-- Only interpreting moves log lines. -/
theorem matches_within_right (hR : Tolerant R) {a b : Act Machine Unit} (h : Act.Matches R a b) :
    Act.Matches R a (within b) := by
  refine hR.matches_right (quiet_push _) ?_
  -- Popping the heading is a last act, so the left side needs one too.
  rw [← Act.lastly_pure_none a]
  exact h.lastly (hR.matches_right quiet_pop (.pure none))

theorem matches_interpret (hR : Tolerant R) (hemit : ∀ s, Act.Matches R (emit s) (emit s))
    (p : Program) : Act.Matches R (interpret p) (interpret p) :=
  Program.matches_walk hemit (matches_visit hR) (matches_within hR) _ _ _ _ _

/-- Running an artifact does what interpreting the program does, less the log lines. -/
theorem matches_invoke (hR : Tolerant R) (hemit : ∀ s, Act.Matches R (emit s) (emit s))
    (p : Program) : Act.Matches R (p.compile.invoke emit) (interpret p) := by
  rw [Program.invoke_compile]
  exact Program.matches_walk hemit (matches_visit_right hR) (matches_within_right hR) _ _ _ _ _

/-! ### Executing -/

theorem matches_proceed (hR : Tolerant R) (hemit : ∀ s, Act.Matches R (emit s) (emit s))
    (p : Program) : Act.Matches R (proceed p none) (proceed p none) := by
  refine .get_bind fun m m' _ => ?_
  exact hR.matches_left (quiet_count _ _)
    (hR.matches_right (quiet_count _ _) (matches_interpret hR hemit p))

/-- However a cache says to execute a program, it comes to interpreting it. -/
theorem matches_perform (hR : Tolerant R) (hemit : ∀ s, Act.Matches R (emit s) (emit s))
    {p : Program} {a : Admission} (ha : a.tier = .compiled → a.artifact = some p.compile) :
    Act.Matches R (perform p a) (proceed p none) := by
  refine .get_bind fun m m' _ => ?_
  refine hR.matches_left (quiet_count _ _) (hR.matches_right (quiet_count _ _) ?_)
  cases htier : a.tier with
  | cold => exact hR.matches_left (quiet_log _ _ _) (matches_interpret hR hemit p)
  | warm =>
    exact hR.matches_left (quiet_count _ _)
      (hR.matches_left (quiet_log _ _ _) (matches_interpret hR hemit p))
  | compiled =>
    refine hR.matches_left (quiet_log _ _ _) ?_
    rw [ha htier]
    exact matches_invoke hR hemit p

end Matches

/-! ## Using the cache -/

section Cache

variable {id : Nat} {α : Type}

/-- The machine with the cache `id` replaced. -/
def setCache (id : Nat) (c : Cache) (m : Machine) : Machine :=
  ⟨m.engine, { m.world with caches := m.world.caches.setIfInBounds id c }⟩

theorem setCache_getElem? {m : Machine} {c : Cache} (hc : m.world.caches[id]? = some c)
    (c' : Cache) : (m.setCache id c').world.caches[id]? = some c' := by
  have hlt : id < m.world.caches.size := (Array.getElem?_eq_some_iff.1 hc).1
  simp [setCache, hlt]

theorem outcome_withCache {f : Cache → Except Error (α × Cache)} {m : Machine} {c c' : Cache}
    {x : α} (hc : m.world.caches[id]? = some c) (hf : f c = .ok (x, c')) :
    Act.outcome (inWorld (World.withCache id f)) m = (.ok x, m.setCache id c') := by
  rw [inWorld, Act.outcome_on, World.withCache, Act.outcome_get_bind]
  simp only [hc, hf]
  rfl

theorem outcome_find {m : Machine} {c : Cache} (htiered : m.engine.tiered = true)
    (hid : m.engine.cache = some id) (hc : m.world.caches[id]? = some c) (p : Program) :
    Act.outcome (find p) m = (.ok (some (c.lookup p).1), m.setCache id (c.lookup p).2) := by
  rw [find, Act.outcome_get_bind]
  simp only [htiered, hid, if_true]
  rw [World.find, Act.outcome_bind, outcome_withCache hc rfl]
  rfl

theorem outcome_find_untiered {m : Machine} (htiered : m.engine.tiered = false) (p : Program) :
    Act.outcome (find p) m = (.ok none, m) := by
  rw [find, Act.outcome_get_bind]
  simp [htiered]

theorem outcome_proceed {m : Machine} {c c' : Cache} {r : EntryRef} {a : Admission}
    (hid : m.engine.cache = some id) (hc : m.world.caches[id]? = some c)
    (henter : c.enter r = .ok (a, c')) (p : Program) :
    Act.outcome (proceed p (some r)) m = Act.outcome (perform p a) (m.setCache id c') := by
  rw [proceed, Act.outcome_get_bind]
  simp only [hid]
  rw [World.enter, Act.outcome_bind, outcome_withCache hc henter]

end Cache
end Machine
end Birdcall
