import Birdcall.Proofs.Ensures
import Birdcall.Proofs.Pipes
import Birdcall.Proofs.Quiet

/-!
# What is printed

What a program prints is told by the program alone: `Program.prints` notes its symbols in order.
How far a machine comes with them is another matter, since any value may be the one that cannot be
printed; `Machine.tries` are the values that it comes to.

`Act.Follows` compares a run on a machine with the run that only notes symbols.
`Program.follows_walk` is the rule for walks: if printing one symbol follows noting it, then a whole
run follows.  Logging and counting do not matter to it, whatever they lead to (`Machine.Aside`).
-/

namespace Birdcall

/-! ## Following a program -/

namespace Act

variable {σ : Type} {R E : σ → List Symbol → Prop}

/-- An act follows another one that only notes symbols: where `R` relates their states, the first
finishes only if the second does, and `R` relates their states again.  If the first stops short,
then `E` relates its state to all that the second notes. -/
def Follows (R E : σ → List Symbol → Prop) (a : Act σ Unit) (b : Act (List Symbol) Unit) : Prop :=
  ∀ l, Ensures (R · l) a (fun _ s => (outcome b l).1 = .ok () ∧ R s (outcome b l).2)
    (E · (outcome b l).2)

namespace Follows

theorem bind {a c : Act σ Unit} {b d : Act (List Symbol) Unit} (hab : Follows R E a b)
    (hcd : Follows R E c d) (hE : ∀ {s l}, E s l → E s (outcome d l).2) :
    Follows R E (do a; c) (do b; d) := by
  intro l s hs
  have hend := hab l s hs
  rw [outcome_bind, outcome_bind]
  rcases hb : outcome b l with ⟨stop | ⟨⟩, l'⟩
  · rcases ha : outcome a s with ⟨stop' | ⟨⟩, t⟩
    · rw [ha, hb] at hend
      exact hend
    · rw [ha, hb] at hend
      cases hend.1
  · rcases ha : outcome a s with ⟨stop' | ⟨⟩, t⟩
    · rw [ha, hb] at hend
      exact hE hend
    · rw [ha, hb] at hend
      exact hcd l' t hend.2

theorem ensures {a : Act σ Unit} {b : Act (List Symbol) Unit} (h : Follows R E a b)
    (l : List Symbol) :
    Ensures (R · l) a (fun _ s => R s (outcome b l).2) (E · (outcome b l).2) := by
  intro s hs
  have hend := h l s hs
  rcases ha : outcome a s with ⟨stop | ⟨⟩, t⟩
  · rw [ha] at hend
    exact hend
  · rw [ha] at hend
    exact hend.2

theorem throw {stop stop' : Stop} (h : ∀ s l, R s l → E s l) :
    Follows R E (MonadExcept.throw stop) (MonadExcept.throw stop') :=
  fun l => .throw fun s hs => h s l hs

theorem pure : Follows R E (Pure.pure ()) (Pure.pure ()) :=
  fun _ => .pure fun _ hs => ⟨rfl, hs⟩

theorem get_bind {f : σ → Act σ Unit} {b : Act (List Symbol) Unit}
    (h : ∀ s, Follows R E (f s) b) : Follows R E (get >>= f) b :=
  fun l => .get_bind fun s _ => h s l

end Follows
end Act

namespace Program

/-- Notes a symbol. -/
def note (s : Symbol) : Act (List Symbol) Unit := modify (· ++ [s])

/-- The symbols that a program prints, in order, up to its end or to where it goes wrong. -/
def prints (p : Program) : List Symbol := (Act.outcome (p.interpret (.printing note)) []).2

/-- Noting symbols keeps those that were noted before. -/
theorem isPrefix_walk_note (code : Array Instruction) (sp : Span) (scope : Scope sp) (index : Nat)
    (hlo : sp.lo ≤ index) (l : List Symbol) :
    l <+: (Act.outcome (walk (.printing note) code sp scope index hlo) l).2 := by
  have hwalk : Act.Leads (l <+: ·) (walk (.printing note) code sp scope index hlo) (l <+: ·) :=
    ensures_walk (fun _ h => h) (fun s => .modify fun _ h => h.trans (List.prefix_append _ _))
      (fun _ _ => Act.Leads.pure ()) (fun h => h) code sp scope index hlo
  exact hwalk.outcome List.prefix_rfl

/-- If printing a symbol follows noting it, then a walk follows the walk that notes all symbols. -/
theorem follows_walk {σ : Type} {R E : σ → List Symbol → Prop} {h : Hooks σ}
    (hRE : ∀ s l, R s l → E s l) (hE : ∀ {s l l'}, l <+: l' → E s l → E s l')
    (hemit : ∀ s, Act.Follows R E (h.emit s) (note s))
    (hvisit : ∀ index i, Act.Follows R E (h.visit index i) (pure ()))
    (hwithin : ∀ {a b}, Act.Follows R E a b → Act.Follows R E (h.within a) b)
    (code : Array Instruction) (sp : Span) (scope : Scope sp) (index : Nat) (hlo : sp.lo ≤ index) :
    Act.Follows R E (walk h code sp scope index hlo)
      (walk (.printing note) code sp scope index hlo) := by
  have hwalk : ∀ {sp scope index hlo s l}, E s l →
      E s (Act.outcome (walk (.printing note) code sp scope index hlo) l).2 :=
    fun hs => hE (isPrefix_walk_note ..) hs
  have hfail : ∀ index i (e : Error), Act.Follows R E (do h.visit index i; Act.fail e)
      (do (Hooks.printing note).visit index i; Act.fail e) :=
    fun index i e => (hvisit index i).bind (.throw hRE) fun hs => hs
  induction sp, scope, index, hlo using walk.induct code with
  | case1 sp scope index hlo hhi hnone =>
    rw [walk_past hhi hnone, walk_past hhi hnone]
    exact .throw hRE
  | case2 sp scope index hlo hhi i hi ih ihdefine ihbody =>
    cases ha : i.action with
    | print s =>
      have hnoted := @hwalk sp scope index hlo
      rw [walk_print hhi hi ha] at hnoted
      rw [walk_print hhi hi ha, walk_print hhi hi ha]
      exact (hvisit index i).bind ((hemit s).bind ih hwalk) hnoted
    | define =>
      cases hb : i.body index sp.hi with
      | ok body =>
        rw [walk_define hhi hi ha hb, walk_define hhi hi ha hb]
        exact (hvisit index i).bind (ihdefine body hb) hwalk
      | error f =>
        rw [walk_define_error hhi hi ha hb, walk_define_error hhi hi ha hb]
        exact hfail index i _
    | run =>
      cases hf : scope.find? i.name with
      | some body =>
        have hnoted := @hwalk sp scope index hlo
        rw [walk_run hhi hi ha hf] at hnoted
        rw [walk_run hhi hi ha hf, walk_run hhi hi ha hf]
        exact (hvisit index i).bind ((hwithin (ihbody body)).bind ih hwalk) hnoted
      | none =>
        rw [walk_run_undefined hhi hi ha hf, walk_run_undefined hhi hi ha hf]
        exact hfail index i _
    | invalid =>
      rw [walk_invalid hhi hi ha, walk_invalid hhi hi ha]
      exact hfail index i _
  | case3 sp scope index hlo hhi =>
    rw [walk_end hhi, walk_end hhi]
    exact .pure

end Program

/-! ## Acts that only log and count -/

/-- Logging changes nothing but the record, whatever it leads to. -/
theorem Outside.alike_log (c : Channel) (message : Text) (o : Outside) :
    (Act.outcome (log c message) o).2.Alike o := by
  have hrecord := alike_record_logged o c.name c.level message
  rw [log, Act.outcome_bind]
  show (Act.outcome (follow (c.reply message)) _).2.Alike o
  cases c.reply message with
  | done => exact hrecord
  | crash m => exact hrecord
  | exit => exact hrecord

namespace Machine

/-- An act that logs and counts and does nothing more, however it ends. -/
def Aside (a : Act Machine Unit) : Prop :=
  ∀ e o caches meters, ∃ l o' meters', o'.Alike o ∧
    (Act.outcome a ⟨e, o, caches, meters⟩).2 = ⟨{ e with log := l }, o', caches, meters'⟩

theorem aside_count (id : Option Nat) (f : Meter → Meter) : Aside (inWorld (World.count id f)) := by
  intro e o caches meters
  cases id with
  | none => exact ⟨e.log, o, meters, .refl o, rfl⟩
  | some id => exact ⟨e.log, o, meters.modify id f, .refl o, rfl⟩

theorem aside_log (mark template : Text) (args : List Text) : Aside (log mark template args) := by
  intro e o caches meters
  rw [log, Act.outcome_get_bind]
  rcases e.log.write mark template args with ⟨_ | ⟨channel, line⟩, l⟩
  · exact ⟨l, o, meters, .refl o, rfl⟩
  · refine ⟨l, _, meters, Outside.alike_log channel line o, ?_⟩
    show (Act.outcome (outside (Outside.log channel line)) ⟨{ e with log := l }, o, _, _⟩).2 = _
    rw [outcome_outside]

/-! ## Values that are tried -/

/-- The values that a machine comes to print when it is to print some symbols: up to the first one
that has no value or that cannot be printed. -/
def tries (m : Machine) : List Symbol → List Text
  | [] => []
  | s :: rest =>
    match m.engine.symbols.get? s with
    | none => []
    | some value =>
      value ::
        match Act.outcome (printValue value) m with
        | (.ok _, m') => tries m' rest
        | (.error _, _) => []

section Tries

variable {m m' : Machine} {s : Symbol} {value : Text}

theorem tries_none (hs : m.engine.symbols.get? s = none) (rest : List Symbol) :
    m.tries (s :: rest) = [] := by
  rw [tries, hs]

theorem tries_ok (hs : m.engine.symbols.get? s = some value)
    (h : Act.outcome (printValue value) m = (.ok (), m')) (rest : List Symbol) :
    m.tries (s :: rest) = value :: m'.tries rest := by
  rw [tries, hs]
  simp only [h]

theorem tries_error {stop : Stop} (hs : m.engine.symbols.get? s = some value)
    (h : Act.outcome (printValue value) m = (.error stop, m')) (rest : List Symbol) :
    m.tries (s :: rest) = [value] := by
  rw [tries, hs]
  simp only [h]

/-- Whatever else is to be printed, it comes later. -/
theorem tries_append_isPrefix (m : Machine) (l more : List Symbol) :
    m.tries l <+: m.tries (l ++ more) := by
  induction l generalizing m with
  | nil => exact List.nil_prefix
  | cons s l ih =>
    rw [List.cons_append]
    cases hs : m.engine.symbols.get? s with
    | none =>
      rw [tries_none hs]
      exact List.nil_prefix
    | some value =>
      rcases h : Act.outcome (printValue value) m with ⟨stop | ⟨⟩, m'⟩
      · exact ⟨[], by rw [List.append_nil, tries_error hs h, tries_error hs h]⟩
      · rw [tries_ok hs h, tries_ok hs h, List.prefix_cons_inj]
        exact ih m'

end Tries

/-- Machines that print alike. -/
structure Alike (m m' : Machine) : Prop where
  symbols : m.engine.symbols = m'.engine.symbols
  outlet : m.engine.outlet = m'.engine.outlet
  outside : m.world.outside.Alike m'.world.outside

theorem matches_outside_alike {α : Type} {a : Act Outside α} (h : Outside.Blind a) :
    Act.Matches Alike (outside a) (outside a) := by
  rintro ⟨e, o, _, _⟩ ⟨e', o', _, _⟩ ⟨hsymbols, houtlet, halike⟩
  obtain ⟨hend, hstate⟩ := h o o' halike
  rw [outcome_outside, outcome_outside]
  exact ⟨hend, hsymbols, houtlet, hstate⟩

theorem Alike.tries_eq {m m' : Machine} (h : m.Alike m') (l : List Symbol) :
    m.tries l = m'.tries l := by
  induction l generalizing m m' with
  | nil => rfl
  | cons s l ih =>
    cases hs : m.engine.symbols.get? s with
    | none => rw [tries_none hs, tries_none (h.symbols ▸ hs)]
    | some value =>
      have hs' : m'.engine.symbols.get? s = some value := h.symbols ▸ hs
      obtain ⟨hend, hstate⟩ :=
        matches_printValue_of Outside.unseen_alike (fun h => h.outlet) matches_outside_alike value
          m m' h
      rcases hm : Act.outcome (printValue value) m with ⟨stop | ⟨⟩, t⟩ <;>
        rcases hm' : Act.outcome (printValue value) m' with ⟨stop' | ⟨⟩, t'⟩ <;>
        rw [hm, hm'] at hend hstate
      · rw [tries_error hs hm, tries_error hs' hm']
      · cases hend
      · cases hend
      · rw [tries_ok hs hm, tries_ok hs' hm', ih hstate]

end Machine

end Birdcall
