import Birdcall.Program.Interpret
import Birdcall.Proofs.Act

/-!
# One step of a walk

A walk over a range looks at one instruction and goes on.  The lemmas here say where it goes on and
what it does for each action an instruction can have, so that no other proof opens `Program.walk`.
The last one, `matches_walk`, compares two walks over the same instructions whose hooks match. -/

namespace Birdcall

namespace Instruction

theorem action_print {s : Symbol} (hs : s.known = true) : (print s).action = .print s := by
  simp [action, print, Op.print, hs]

/-- A definition that ends inside its range has the body that follows it. -/
theorem body_define {name : Text} {index size hi : Nat} (hhi : index + size < hi) :
    (define name (index + size : Nat)).body index hi = .ok ⟨index + 1, index + 1 + size⟩ := by
  rw [body, if_pos]
  · congr 2
    simp only [define]
    omega
  · refine ⟨rfl, ?_, ?_⟩ <;> simp only [define] <;> omega

end Instruction

/-! ## Ranges

The places a walk goes on from are not before its range.
-/

theorem Span.le_start (sp : Span) : sp.lo ≤ sp.lo :=
  Nat.le_refl _

theorem Span.le_succ {sp : Span} {index : Nat} (hlo : sp.lo ≤ index) : sp.lo ≤ index + 1 :=
  Nat.le_succ_of_le hlo

theorem Span.le_body_hi {sp body : Span} {index : Nat} {i : Instruction} (hlo : sp.lo ≤ index)
    (hb : i.body index sp.hi = .ok body) : sp.lo ≤ body.hi := by
  have := Instruction.body_eq_ok hb
  omega

theorem Inner.le_start {sp : Span} (body : Inner sp) : body.span.lo ≤ body.span.lo :=
  Nat.le_refl _

/-! ## Steps -/

/-- A function defined later hides one of the same name. -/
theorem Scope.find?_cons {outer : Span} (name other : Text) (body : Inner outer)
    (scope : Scope outer) :
    Scope.find? ((name, body) :: scope) other =
      if other = name then some body else scope.find? other := by
  rw [find?, List.lookup_cons]
  split <;> simp_all [find?]

/-- Printing hooks do nothing at an instruction. -/
theorem Hooks.printing_visit_bind {σ α : Type} (emit : Symbol → Act σ Unit) (index : Nat)
    (i : Instruction) (next : Act σ α) :
    (do (Hooks.printing emit).visit index i; next) = next :=
  rfl

namespace Program

section Steps

variable {σ : Type} {h : Hooks σ} {code : Array Instruction} {sp : Span} {scope : Scope sp}
  {index : Nat} {hlo : sp.lo ≤ index} {i : Instruction}

/-- A walk stops at the end of its range. -/
theorem walk_end (hhi : ¬ index < sp.hi) : walk h code sp scope index hlo = pure () := by
  rw [walk, dif_neg hhi]

/-- A walk crashes where its range goes past the end of the program. -/
theorem walk_past (hhi : index < sp.hi) (hi : code[index]? = none) :
    walk h code sp scope index hlo = Act.crash .nothing := by
  rw [walk, dif_pos hhi]
  simp only [hi]

theorem walk_print {s : Symbol} (hhi : index < sp.hi) (hi : code[index]? = some i)
    (ha : i.action = .print s) :
    walk h code sp scope index hlo = (do
      h.visit index i
      h.emit s
      walk h code sp scope (index + 1) (Span.le_succ hlo)) := by
  rw [walk, dif_pos hhi]
  simp only [hi, ha]

theorem walk_define {body : Span} (hhi : index < sp.hi) (hi : code[index]? = some i)
    (ha : i.action = .define) (hb : i.body index sp.hi = .ok body) :
    walk h code sp scope index hlo = (do
      h.visit index i
      walk h code sp ((i.name, ⟨body, Span.size_body_lt hlo hb⟩) :: scope) body.hi
        (Span.le_body_hi hlo hb)) := by
  rw [walk, dif_pos hhi]
  simp only [hi, ha]
  congr 1
  funext _
  split
  · rename_i body' hb'
    obtain rfl : body' = body := Except.ok.inj (hb'.symm.trans hb)
    rfl
  · rename_i hb'
    rw [hb] at hb'
    cases hb'

theorem walk_define_error {f : Fault} (hhi : index < sp.hi) (hi : code[index]? = some i)
    (ha : i.action = .define) (hb : i.body index sp.hi = .error f) :
    walk h code sp scope index hlo = (do
      h.visit index i
      Act.fail (.running f)) := by
  rw [walk, dif_pos hhi]
  simp only [hi, ha]
  congr 1
  funext _
  split
  · rename_i hb'
    rw [hb] at hb'
    cases hb'
  · rename_i f' hb'
    obtain rfl : f' = f := Except.error.inj (hb'.symm.trans hb)
    rfl

theorem walk_run {body : Inner sp} (hhi : index < sp.hi) (hi : code[index]? = some i)
    (ha : i.action = .run) (hf : scope.find? i.name = some body) :
    walk h code sp scope index hlo = (do
      h.visit index i
      h.within (walk h code body.span [] body.span.lo body.le_start)
      walk h code sp scope (index + 1) (Span.le_succ hlo)) := by
  rw [walk, dif_pos hhi]
  simp only [hi, ha, hf]

theorem walk_run_undefined (hhi : index < sp.hi) (hi : code[index]? = some i)
    (ha : i.action = .run) (hf : scope.find? i.name = none) :
    walk h code sp scope index hlo = (do
      h.visit index i
      Act.fail (.running (.undefinedFunction i.name index))) := by
  rw [walk, dif_pos hhi]
  simp only [hi, ha, hf]

theorem walk_invalid (hhi : index < sp.hi) (hi : code[index]? = some i)
    (ha : i.action = .invalid) :
    walk h code sp scope index hlo = (do
      h.visit index i
      Act.fail (.running (.invalidInstruction index i))) := by
  rw [walk, dif_pos hhi]
  simp only [hi, ha]

end Steps

/-- Walks match if their hooks do. -/
theorem matches_walk {σ τ : Type} {R : σ → τ → Prop} {h : Hooks σ} {g : Hooks τ}
    (hemit : ∀ s, Act.Matches R (h.emit s) (g.emit s))
    (hvisit : ∀ index i, Act.Matches R (h.visit index i) (g.visit index i))
    (hwithin : ∀ {a b}, Act.Matches R a b → Act.Matches R (h.within a) (g.within b))
    (code : Array Instruction) (sp : Span) (scope : Scope sp) (index : Nat) (hlo : sp.lo ≤ index) :
    Act.Matches R (walk h code sp scope index hlo) (walk g code sp scope index hlo) := by
  induction sp, scope, index, hlo using walk.induct code with
  | case1 sp scope index hlo hhi hnone =>
    rw [walk_past hhi hnone, walk_past hhi hnone]
    exact .crash _
  | case2 sp scope index hlo hhi i hi ih ihdefine ihbody =>
    cases ha : i.action with
    | print s =>
      rw [walk_print hhi hi ha, walk_print hhi hi ha]
      exact (hvisit index i).bind fun _ => (hemit s).bind fun _ => ih
    | define =>
      cases hb : i.body index sp.hi with
      | ok body =>
        rw [walk_define hhi hi ha hb, walk_define hhi hi ha hb]
        exact (hvisit index i).bind fun _ => ihdefine body hb
      | error f =>
        rw [walk_define_error hhi hi ha hb, walk_define_error hhi hi ha hb]
        exact (hvisit index i).bind fun _ => .fail _
    | run =>
      cases hf : scope.find? i.name with
      | some body =>
        rw [walk_run hhi hi ha hf, walk_run hhi hi ha hf]
        exact (hvisit index i).bind fun _ => (hwithin (ihbody body)).bind fun _ => ih
      | none =>
        rw [walk_run_undefined hhi hi ha hf, walk_run_undefined hhi hi ha hf]
        exact (hvisit index i).bind fun _ => .fail _
    | invalid =>
      rw [walk_invalid hhi hi ha, walk_invalid hhi hi ha]
      exact (hvisit index i).bind fun _ => .fail _
  | case3 sp scope index hlo hhi =>
    rw [walk_end hhi, walk_end hhi]
    exact .pure ()

end Program
end Birdcall
