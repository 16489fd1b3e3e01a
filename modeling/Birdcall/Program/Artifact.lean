import Birdcall.Program.Interpret

/-!
# Artifacts

An artifact is a program with every run bound to the steps of the body it runs.  Making one never
fails: an instruction that cannot be carried out becomes a step that fails in the same way.

A body is compiled once however many runs lead to it, and its steps are shared.  The memo knows of
a range from the moment its compiling begins, when it has no steps yet.
-/

namespace Birdcall

/-- A step of an artifact. -/
inductive Step
  | emit (s : Symbol)
  /-- Takes all the steps of a body. -/
  | call (body : List Step)
  | fail (f : Fault)

/-- A program ready to be run step by step. -/
structure Artifact where
  steps : List Step

/-- How far the compiling of a range has come. -/
inductive Progress
  | begun
  | finished (steps : List Step)

/-- The steps that are known so far. -/
def Progress.steps : Progress → List Step
  | begun => []
  | finished steps => steps

/-- How far the compiling of each range has come, latest first. -/
abbrev Memo := List (Span × Progress)

namespace Memo

/-- How far the compiling of a range has come, if it has begun. -/
def find? (m : Memo) (sp : Span) : Option Progress := m.lookup sp

/-- Enters a range whose compiling begins. -/
def begin (m : Memo) (sp : Span) : Memo := (sp, .begun) :: m

/-- Enters the steps of a range. -/
def finish (m : Memo) (sp : Span) (steps : List Step) : Memo := (sp, .finished steps) :: m

end Memo

namespace Program

/-- Compiles the instructions of a range from `index` on, with the given functions defined.  A body
is looked up before it is compiled, and nothing follows a step that fails. -/
def compileFrom (code : Array Instruction) (sp : Span) (memo : Memo) (scope : Scope sp)
    (index : Nat) (hlo : sp.lo ≤ index) : List Step × Memo :=
  if hhi : index < sp.hi then
    match code[index]? with
    | none => ([], memo)
    | some i =>
      match i.action with
      | .print s =>
        let (steps, memo) := compileFrom code sp memo scope (index + 1) (by omega)
        (.emit s :: steps, memo)
      | .define =>
        match hb : i.body index sp.hi with
        | .ok body =>
          compileFrom code sp memo ((i.name, ⟨body, Span.size_body_lt hlo hb⟩) :: scope) body.hi
            (by have := Instruction.body_eq_ok hb; omega)
        | .error f => ([.fail f], memo)
      | .run =>
        match scope.find? i.name with
        | some body =>
          let (inner, memo) :=
            match memo.find? body.span with
            | some progress => (progress.steps, memo)
            | none =>
              let (inner, memo) :=
                compileFrom code body.span (memo.begin body.span) [] body.span.lo (Nat.le_refl _)
              (inner, memo.finish body.span inner)
          let (steps, memo) := compileFrom code sp memo scope (index + 1) (by omega)
          (.call inner :: steps, memo)
        | none => ([.fail (.undefinedFunction i.name index)], memo)
      | .invalid => ([.fail (.invalidInstruction index i)], memo)
  else ([], memo)
termination_by sp.left index
decreasing_by
  · exact Span.left_lt hhi (Nat.lt_succ_self index)
  · exact Span.left_lt hhi (Instruction.body_eq_ok hb).2.1
  · exact Span.left_inner body.smaller index
  · exact Span.left_lt hhi (Nat.lt_succ_self index)

/-- Compiles a program. -/
def compile (p : Program) : Artifact :=
  ⟨(compileFrom p.toArray p.whole (Memo.begin [] p.whole) [] p.whole.lo (Nat.le_refl _)).1⟩

end Program

namespace Step

variable {σ : Type}

mutual

/-- Takes a step. -/
def invoke (emit : Symbol → Act σ Unit) : Step → Act σ Unit
  | .emit s => emit s
  | .call body => invokeAll emit body
  | .fail f => Act.fail (.running f)

/-- Takes steps in order. -/
def invokeAll (emit : Symbol → Act σ Unit) : List Step → Act σ Unit
  | [] => pure ()
  | s :: rest => do
    invoke emit s
    invokeAll emit rest

end

end Step

namespace Artifact

/-- How many steps an artifact has at its top. -/
def size (a : Artifact) : Nat := a.steps.length

/-- Runs an artifact. -/
def invoke {σ : Type} (emit : Symbol → Act σ Unit) (a : Artifact) : Act σ Unit :=
  Step.invokeAll emit a.steps

end Artifact
end Birdcall
