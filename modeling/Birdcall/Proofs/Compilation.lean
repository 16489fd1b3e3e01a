import Birdcall.Program.Artifact
import Birdcall.Proofs.Walk

/-!
# Compiling programs

An artifact does what interpreting its program does.  The proof goes by way of the steps that a
compiler without a memo would make (`Program.steps`).

* The plain compiler.  `Program.stepsFrom` compiles a body anew at every run of it.
* The memo.  A range is in the memo from the moment its compiling begins, when it has no steps yet.
  `Memo.Sound` says that ranges smaller than the one being compiled have their steps, and
  `Memo.SameFrom` that the others are left alone.  A body is smaller than the range it is run in,
  so what is found in the memo is finished.
* The steps.  `invokeAll_stepsFrom` takes the steps of a range along with a walk over it.
  `invoke_compile` follows, and `series_invoke_compile` for any number of runs of one artifact.
-/

namespace Birdcall

namespace Program

/-! ## The plain compiler -/

/-- The steps of a range from `index` on, with the given functions defined. -/
def stepsFrom (code : Array Instruction) (sp : Span) (scope : Scope sp) (index : Nat)
    (hlo : sp.lo ≤ index) : List Step :=
  if hhi : index < sp.hi then
    match code[index]? with
    | none => []
    | some i =>
      match i.action with
      | .print s => .emit s :: stepsFrom code sp scope (index + 1) (by omega)
      | .define =>
        match hb : i.body index sp.hi with
        | .ok body =>
          stepsFrom code sp ((i.name, ⟨body, Span.size_body_lt hlo hb⟩) :: scope) body.hi
            (by have := Instruction.body_eq_ok hb; omega)
        | .error f => [.fail f]
      | .run =>
        match scope.find? i.name with
        | some body =>
          .call (stepsFrom code body.span [] body.span.lo (Nat.le_refl _)) ::
            stepsFrom code sp scope (index + 1) (by omega)
        | none => [.fail (.undefinedFunction i.name index)]
      | .invalid => [.fail (.invalidInstruction index i)]
  else []
termination_by sp.left index
decreasing_by
  · exact Span.left_lt hhi (Nat.lt_succ_self index)
  · exact Span.left_lt hhi (Instruction.body_eq_ok hb).2.1
  · exact Span.left_inner body.smaller index
  · exact Span.left_lt hhi (Nat.lt_succ_self index)

/-- The steps of a range, with no functions defined at first. -/
def steps (code : Array Instruction) (sp : Span) : List Step :=
  stepsFrom code sp [] sp.lo sp.le_start

section Define

variable {code : Array Instruction} {sp : Span} {scope : Scope sp} {index : Nat}
  {hlo : sp.lo ≤ index} {i : Instruction} {memo : Memo}

theorem stepsFrom_define {body : Span} (hhi : index < sp.hi) (hi : code[index]? = some i)
    (ha : i.action = .define) (hb : i.body index sp.hi = .ok body) :
    stepsFrom code sp scope index hlo =
      stepsFrom code sp ((i.name, ⟨body, Span.size_body_lt hlo hb⟩) :: scope) body.hi
        (Span.le_body_hi hlo hb) := by
  rw [stepsFrom, dif_pos hhi]
  simp only [hi, ha]
  split
  · rename_i body' hb'
    obtain rfl : body' = body := Except.ok.inj (hb'.symm.trans hb)
    rfl
  · rename_i hb'
    cases hb.symm.trans hb'

theorem stepsFrom_define_error {f : Fault} (hhi : index < sp.hi) (hi : code[index]? = some i)
    (ha : i.action = .define) (hb : i.body index sp.hi = .error f) :
    stepsFrom code sp scope index hlo = [.fail f] := by
  rw [stepsFrom, dif_pos hhi]
  simp only [hi, ha]
  split
  · rename_i hb'
    cases hb.symm.trans hb'
  · rename_i f' hb'
    rw [Except.error.inj (hb'.symm.trans hb)]

theorem compileFrom_define {body : Span} (hhi : index < sp.hi) (hi : code[index]? = some i)
    (ha : i.action = .define) (hb : i.body index sp.hi = .ok body) :
    compileFrom code sp memo scope index hlo =
      compileFrom code sp memo ((i.name, ⟨body, Span.size_body_lt hlo hb⟩) :: scope) body.hi
        (Span.le_body_hi hlo hb) := by
  rw [compileFrom, dif_pos hhi]
  simp only [hi, ha]
  split
  · rename_i body' hb'
    obtain rfl : body' = body := Except.ok.inj (hb'.symm.trans hb)
    rfl
  · rename_i hb'
    cases hb.symm.trans hb'

theorem compileFrom_define_error {f : Fault} (hhi : index < sp.hi) (hi : code[index]? = some i)
    (ha : i.action = .define) (hb : i.body index sp.hi = .error f) :
    compileFrom code sp memo scope index hlo = ([.fail f], memo) := by
  rw [compileFrom, dif_pos hhi]
  simp only [hi, ha]
  split
  · rename_i hb'
    cases hb.symm.trans hb'
  · rename_i f' hb'
    rw [Except.error.inj (hb'.symm.trans hb)]

end Define

end Program

/-! ## The memo -/

namespace Memo

theorem find?_begin (m : Memo) (sp s : Span) :
    (m.begin sp).find? s = if s = sp then some .begun else m.find? s := by
  rw [find?, begin, List.lookup_cons]
  split <;> simp_all [find?]

theorem find?_finish (m : Memo) (sp s : Span) (steps : List Step) :
    (m.finish sp steps).find? s = if s = sp then some (.finished steps) else m.find? s := by
  rw [find?, finish, List.lookup_cons]
  split <;> simp_all [find?]

/-- Every range below a size that is in the memo is finished, with the right steps. -/
def Sound (code : Array Instruction) (size : Nat) (m : Memo) : Prop :=
  ∀ sp progress, sp.size < size → m.find? sp = some progress →
    progress = .finished (Program.steps code sp)

/-- Beginning a range says nothing of smaller ones. -/
theorem Sound.begin {code : Array Instruction} {size : Nat} {m : Memo} (hm : m.Sound code size)
    {sp : Span} (hsize : sp.size < size) : (m.begin sp).Sound code sp.size := by
  intro s progress hs hfind
  have hne : s ≠ sp := fun heq => absurd hs (heq ▸ Nat.lt_irrefl _)
  rw [find?_begin, if_neg hne] at hfind
  exact hm s progress (by omega) hfind

/-- Two memos know the same of all ranges from a size on. -/
def SameFrom (size : Nat) (m m' : Memo) : Prop :=
  ∀ sp, size ≤ sp.size → m'.find? sp = m.find? sp

end Memo

namespace Program

/-- Compiles a range, unless the memo knows of it. -/
def compileSpan (code : Array Instruction) (memo : Memo) (sp : Span) : List Step × Memo :=
  match memo.find? sp with
  | some progress => (progress.steps, memo)
  | none =>
    let (inner, memo) := compileFrom code sp (memo.begin sp) [] sp.lo sp.le_start
    (inner, memo.finish sp inner)

/-- What compiling does to a memo that is sound below a size: it gives the right steps, keeps the
memo sound, and leaves the larger ranges alone. -/
structure Compiles (code : Array Instruction) (size : Nat) (memo : Memo) (right : List Step)
    (result : List Step × Memo) : Prop where
  steps_eq : result.1 = right
  sound : result.2.Sound code size
  same : memo.SameFrom size result.2

/-- A range that compiles as it should from the beginning also does with the memo in front, seen
from any larger size. -/
theorem Compiles.compileSpan {code : Array Instruction} {sp : Span} {size : Nat} {memo : Memo}
    (h : ∀ m : Memo, m.Sound code sp.size →
      Compiles code sp.size m (steps code sp) (compileFrom code sp m [] sp.lo (Nat.le_refl _)))
    (hsize : sp.size < size) (hmemo : memo.Sound code size) :
    Compiles code size memo (steps code sp) (compileSpan code memo sp) := by
  rw [Program.compileSpan]
  cases hfound : memo.find? sp with
  | some progress =>
    -- The range is smaller than what is being compiled, so it is finished.
    rw [hmemo sp progress hsize hfound]
    exact ⟨rfl, hmemo, fun _ _ => rfl⟩
  | none =>
    have hne : ∀ {s : Span}, s.size ≠ sp.size → s ≠ sp := fun h heq => h (heq ▸ rfl)
    obtain ⟨hsteps, hsound, hsame⟩ := h _ (hmemo.begin hsize)
    refine ⟨hsteps, ?_, ?_⟩
    · intro s progress hs hfind
      rw [Memo.find?_finish] at hfind
      split at hfind
      · rename_i heq
        rw [← Option.some.inj hfind, heq, hsteps]
      · rename_i heq
        by_cases hlt : s.size < sp.size
        · exact hsound s progress hlt hfind
        · rw [hsame s (by omega), Memo.find?_begin, if_neg heq] at hfind
          exact hmemo s progress hs hfind
    · intro s hs
      rw [Memo.find?_finish, if_neg (hne (by omega)), hsame s (by omega), Memo.find?_begin,
        if_neg (hne (by omega))]

/-- Compiling with a memo gives the steps that compiling without one gives. -/
theorem compiles_compileFrom (code : Array Instruction) (sp : Span) (scope : Scope sp)
    (index : Nat) (hlo : sp.lo ≤ index) :
    ∀ memo : Memo, memo.Sound code sp.size →
      Compiles code sp.size memo (stepsFrom code sp scope index hlo)
        (compileFrom code sp memo scope index hlo) := by
  induction sp, scope, index, hlo using walk.induct code with
  | case1 sp scope index hlo hhi hnone =>
    intro memo hmemo
    rw [stepsFrom, compileFrom, dif_pos hhi, dif_pos hhi]
    simp only [hnone]
    exact ⟨rfl, hmemo, fun _ _ => rfl⟩
  | case2 sp scope index hlo hhi i hi ih ihdefine ihbody =>
    intro memo hmemo
    cases ha : i.action with
    | print s =>
      obtain ⟨hsteps, hsound, hsame⟩ := ih memo hmemo
      rw [stepsFrom, compileFrom, dif_pos hhi, dif_pos hhi]
      simp only [hi, ha]
      exact ⟨congrArg (Step.emit s :: ·) hsteps, hsound, hsame⟩
    | define =>
      cases hb : i.body index sp.hi with
      | ok body =>
        rw [stepsFrom_define hhi hi ha hb, compileFrom_define hhi hi ha hb]
        exact ihdefine body hb memo hmemo
      | error f =>
        rw [stepsFrom_define_error hhi hi ha hb, compileFrom_define_error hhi hi ha hb]
        exact ⟨rfl, hmemo, fun _ _ => rfl⟩
    | run =>
      rw [stepsFrom, compileFrom, dif_pos hhi, dif_pos hhi]
      simp only [hi, ha]
      cases hf : scope.find? i.name with
      | some body =>
        have hinner := Compiles.compileSpan (ihbody body) body.smaller hmemo
        have hrest := ih _ hinner.sound
        refine ⟨?_, hrest.sound, fun s hs => (hrest.same s hs).trans (hinner.same s hs)⟩
        show Step.call (compileSpan code memo body.span).1 ::
          (compileFrom code sp (compileSpan code memo body.span).2 scope (index + 1) _).1 =
            Step.call (steps code body.span) :: stepsFrom code sp scope (index + 1) _
        rw [hinner.steps_eq, hrest.steps_eq]
      | none => exact ⟨rfl, hmemo, fun _ _ => rfl⟩
    | invalid =>
      rw [stepsFrom, compileFrom, dif_pos hhi, dif_pos hhi]
      simp only [hi, ha]
      exact ⟨rfl, hmemo, fun _ _ => rfl⟩
  | case3 sp scope index hlo hhi =>
    intro memo hmemo
    rw [stepsFrom, compileFrom, dif_neg hhi, dif_neg hhi]
    exact ⟨rfl, hmemo, fun _ _ => rfl⟩

/-- An artifact has the steps of its program. -/
theorem compile_eq (p : Program) : p.compile = ⟨steps p.toArray p.whole⟩ := by
  have hempty : Memo.Sound p.toArray (p.whole.size + 1) [] := by
    intro _ _ _ hfind
    cases hfind
  have h := Compiles.compileSpan
    (compiles_compileFrom p.toArray p.whole [] p.whole.lo (Nat.le_refl _))
    (Nat.lt_succ_self _) hempty
  rw [← h.steps_eq]
  rfl

/-! ## The steps -/

section Steps

variable {σ : Type} (emit : Symbol → Act σ Unit)

/-- Every function that is defined ends inside the program. -/
def ScopeWithin (size : Nat) {sp : Span} (scope : Scope sp) : Prop :=
  ∀ name body, scope.find? name = some body → body.span.hi ≤ size

/-- Taking the steps of a range is walking over it. -/
theorem invokeAll_stepsFrom (code : Array Instruction) (sp : Span) (scope : Scope sp)
    (index : Nat) (hlo : sp.lo ≤ index) (hsp : sp.hi ≤ code.size)
    (hscope : ScopeWithin code.size scope) :
    Step.invokeAll emit (stepsFrom code sp scope index hlo) =
      walk (.printing emit) code sp scope index hlo := by
  induction sp, scope, index, hlo using walk.induct code with
  | case1 sp scope index hlo hhi hnone =>
    have := Array.getElem?_eq_none_iff.1 hnone
    omega
  | case2 sp scope index hlo hhi i hi ih ihdefine ihbody =>
    cases ha : i.action with
    | print s =>
      rw [walk_print hhi hi ha, Hooks.printing_visit_bind, ← ih hsp hscope]
      rw [stepsFrom, dif_pos hhi]
      simp only [hi, ha]
      rfl
    | define =>
      cases hb : i.body index sp.hi with
      | ok body =>
        rw [walk_define hhi hi ha hb, Hooks.printing_visit_bind, stepsFrom_define hhi hi ha hb]
        refine ihdefine body hb hsp ?_
        intro name found hf
        rw [Scope.find?_cons] at hf
        split at hf
        · cases hf
          have := Instruction.body_eq_ok hb
          simp only
          omega
        · exact hscope name found hf
      | error f =>
        rw [walk_define_error hhi hi ha hb, Hooks.printing_visit_bind,
          stepsFrom_define_error hhi hi ha hb]
        rfl
    | run =>
      rw [stepsFrom, dif_pos hhi]
      simp only [hi, ha]
      cases hf : scope.find? i.name with
      | some body =>
        have hbody := ihbody body (hscope _ _ hf) (by intro _ _ hfind; cases hfind)
        rw [walk_run hhi hi ha hf, Hooks.printing_visit_bind, ← ih hsp hscope, ← hbody]
        rfl
      | none =>
        rw [walk_run_undefined hhi hi ha hf, Hooks.printing_visit_bind]
        rfl
    | invalid =>
      rw [stepsFrom, dif_pos hhi, walk_invalid hhi hi ha, Hooks.printing_visit_bind]
      simp only [hi, ha]
      rfl
  | case3 sp scope index hlo hhi =>
    rw [stepsFrom, dif_neg hhi, walk_end hhi]
    rfl

/-- Running an artifact is interpreting its program. -/
theorem invoke_compile (p : Program) :
    p.compile.invoke emit = p.interpret (.printing emit) := by
  rw [compile_eq]
  exact invokeAll_stepsFrom emit p.toArray p.whole [] p.whole.lo (Nat.le_refl _) (by simp [whole])
    (by intro _ _ hfind; cases hfind)

/-- Prints symbols and notes down which it was asked to print, in order. -/
def noting (s : Symbol) : Act (List Symbol × σ) Unit := do
  modify fun (noted, rest) => (noted ++ [s], rest)
  Act.on (fun (noted, rest) => (rest, fun rest => (noted, rest))) (emit s)

end Steps

/-- Running one artifact again and again, with any printers, prints the same symbols and ends in the
same ways as interpreting its program as often. -/
theorem series_invoke_compile {σ : Type} (p : Program) (printers : List (Symbol → Act σ Unit))
    (start : List Symbol × σ) :
    Act.series (fun emit => p.compile.invoke (noting emit)) printers start =
      Act.series (fun emit => p.interpret (.printing (noting emit))) printers start := by
  simp only [invoke_compile]

end Program
end Birdcall
