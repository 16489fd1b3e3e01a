import Birdcall.Act

/-!
# Interpreting programs

A program is run by walking over its instructions.  A definition only binds its name to its body;
running a name walks over the body bound to it, with no names bound at first.  So a body sees the
functions defined in it and no others.

What a run does outside is given by `Hooks`: what a symbol leads to, what is done at every
instruction, and what is put around the run of a body.
-/

namespace Birdcall

/-- What a run does outside. -/
structure Hooks (σ : Type) where
  /-- Prints a symbol. -/
  emit : Symbol → Act σ Unit
  /-- Is told of every instruction that is met, before it is carried out. -/
  visit : Nat → Instruction → Act σ Unit
  /-- Is put around the run of a body. -/
  within : Act σ Unit → Act σ Unit

/-- Hooks that do nothing but print. -/
def Hooks.printing {σ : Type} (emit : Symbol → Act σ Unit) : Hooks σ :=
  ⟨emit, fun _ _ => pure (), id⟩

/-- A range smaller than another one. -/
structure Inner (outer : Span) where
  span : Span
  smaller : span.size < outer.size

/-- The functions defined so far in a walk over a range, latest first. -/
abbrev Scope (outer : Span) := List (Text × Inner outer)

namespace Scope

/-- The body bound to a name. -/
def find? {outer : Span} (s : Scope outer) (name : Text) : Option (Inner outer) := s.lookup name

end Scope

/-- The body of a function defined inside a range is smaller than the range. -/
theorem Span.size_body_lt {sp body : Span} {i : Instruction} {index : Nat}
    (hlo : sp.lo ≤ index) (hb : i.body index sp.hi = .ok body) : body.size < sp.size := by
  obtain ⟨hlo', hhi, hlimit⟩ := Instruction.body_eq_ok hb
  simp only [Span.size]
  omega

/-- How much is left of a walk over a range, more than all walks over smaller ranges.  A number, so
that walks can be computed. -/
def Span.left (sp : Span) (index : Nat) : Nat := sp.size * (sp.size + 1) + (sp.hi - index)

theorem Span.left_lt {sp : Span} {index next : Nat} (hhi : index < sp.hi) (hnext : index < next) :
    sp.left next < sp.left index := by
  simp only [left]
  omega

theorem Span.left_inner {sp body : Span} (h : body.size < sp.size) (index : Nat) :
    body.left body.lo < sp.left index := by
  have hsize : body.hi - body.lo = body.size := rfl
  have hle : (body.size + 1) * (body.size + 1) ≤ sp.size * (sp.size + 1) :=
    Nat.mul_le_mul h (by omega)
  have hsquare : body.size * (body.size + 1) + (body.size + 1) =
      (body.size + 1) * (body.size + 1) := (Nat.succ_mul _ _).symm
  simp only [left, hsize]
  omega

namespace Program

variable {σ : Type}

/-- Walks over the instructions of a range from `index` on, with the given functions defined. -/
def walk (h : Hooks σ) (code : Array Instruction) (sp : Span) (scope : Scope sp) (index : Nat)
    (hlo : sp.lo ≤ index) : Act σ Unit :=
  if hhi : index < sp.hi then
    match code[index]? with
    | none => Act.crash .nothing
    | some i => do
      h.visit index i
      match i.action with
      | .print s =>
        h.emit s
        walk h code sp scope (index + 1) (by omega)
      | .define =>
        match hb : i.body index sp.hi with
        | .ok body =>
          walk h code sp ((i.name, ⟨body, Span.size_body_lt hlo hb⟩) :: scope) body.hi
            (by have := Instruction.body_eq_ok hb; omega)
        | .error f => Act.fail (.running f)
      | .run =>
        match scope.find? i.name with
        | some body =>
          h.within (walk h code body.span [] body.span.lo (Nat.le_refl _))
          walk h code sp scope (index + 1) (by omega)
        | none => Act.fail (.running (.undefinedFunction i.name index))
      | .invalid => Act.fail (.running (.invalidInstruction index i))
  else pure ()
termination_by sp.left index
decreasing_by
  · exact Span.left_lt hhi (Nat.lt_succ_self index)
  · exact Span.left_lt hhi (Instruction.body_eq_ok hb).2.1
  · exact Span.left_inner body.smaller index
  · exact Span.left_lt hhi (Nat.lt_succ_self index)

/-- Runs the instructions of a range, with no functions defined at first. -/
def interpretSpan (h : Hooks σ) (p : Program) (sp : Span) : Act σ Unit :=
  walk h p.toArray sp [] sp.lo (Nat.le_refl _)

/-- Runs a program. -/
def interpret (h : Hooks σ) (p : Program) : Act σ Unit := interpretSpan h p p.whole

end Program
end Birdcall
