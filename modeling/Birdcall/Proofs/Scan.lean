import Birdcall.Proofs.Compilation

/-!
# Scans stay inside their ranges

Interpreting and compiling both scan a range of instructions, and scan the body of a function when
they come to a run of it.  This module lays such a scan out with everything it reads, as a tree
(`Scan`), and proves that no program can lead it astray, whatever its instructions hold.

* Laying out.  `Program.scanFrom` scans with any way to remember bodies (`Recall`).
  `walk_eq_perform` says that interpreting is scanning without a memory and performing what was
  read, and `compileFrom_eq_scanFrom` that compiling is scanning with the memo.  Performing a scan
  needs no program any more, so the tree holds all that was read.
* Staying inside.  `Scan.Confined` lists what each reading may do, and `confined_scanFrom` proves it
  from the bounds that `Instruction.body` checks.
* The memo.  `settled_scanFrom` says that what is taken from the memo is finished.
* Nothing else counts.  `scanFrom_congr` compares programs that agree inside the range.
-/

namespace Birdcall

/-! ## Laying out -/

/-- A scan over a range from some index on, with all that it reads.  A constructor is a reading and
what it leads to. -/
inductive Scan
  /-- The scan is over. -/
  | done (index : Nat)
  /-- There is nothing to read. -/
  | past (index : Nat)
  | fail (index : Nat) (i : Instruction) (f : Fault)
  | print (index : Nat) (i : Instruction) (s : Symbol) (rest : Scan)
  | define (index : Nat) (i : Instruction) (body : Span) (rest : Scan)
  /-- A body is scanned, and then the scan goes on. -/
  | call (index : Nat) (i : Instruction) (body : Span) (inner rest : Scan)
  /-- What is known of a body is taken, and then the scan goes on. -/
  | reuse (index : Nat) (i : Instruction) (body : Span) (known : Progress) (rest : Scan)

namespace Scan

/-- The steps that a scan comes to. -/
def steps : Scan → List Step
  | done _ | past _ => []
  | fail _ _ f => [.fail f]
  | print _ _ s rest => .emit s :: rest.steps
  | define _ _ _ rest => rest.steps
  | call _ _ _ inner rest => .call inner.steps :: rest.steps
  | reuse _ _ _ known rest => .call known.steps :: rest.steps

/-- Carries out what was read. -/
def perform {σ : Type} (h : Hooks σ) : Scan → Act σ Unit
  | done _ => pure ()
  | past _ => Act.crash .nothing
  | fail index i f => do
    h.visit index i
    Act.fail (.running f)
  | print index i s rest => do
    h.visit index i
    h.emit s
    rest.perform h
  | define index i _ rest => do
    h.visit index i
    rest.perform h
  | call index i _ inner rest => do
    h.visit index i
    h.within (inner.perform h)
    rest.perform h
  | reuse index i _ known rest => do
    h.visit index i
    h.within (Step.invokeAll h.emit known.steps)
    rest.perform h

/-- The indices that are read, those in bodies included. -/
def reads : Scan → List Nat
  | done _ => []
  | past index | fail index _ _ => [index]
  | print index _ _ rest | define index _ _ rest | reuse index _ _ _ rest => index :: rest.reads
  | call index _ _ inner rest => index :: inner.reads ++ rest.reads

/-- The definitions that are taken, those in bodies included. -/
def definitions : Scan → List Instruction
  | done _ | past _ | fail .. => []
  | print _ _ _ rest | reuse _ _ _ _ rest => rest.definitions
  | define _ i _ rest => i :: rest.definitions
  | call _ _ _ inner rest => inner.definitions ++ rest.definitions

/-- How deep scans of bodies are nested. -/
def depth : Scan → Nat
  | done _ | past _ | fail .. => 0
  | print _ _ _ rest | define _ _ _ rest | reuse _ _ _ _ rest => rest.depth
  | call _ _ _ inner rest => max (inner.depth + 1) rest.depth

end Scan

/-- A way to remember the bodies that were scanned. -/
structure Recall (μ : Type) where
  find? : μ → Span → Option Progress
  begin : μ → Span → μ
  finish : μ → Span → List Step → μ

namespace Recall

/-- Remembers nothing. -/
def nothing : Recall Unit := ⟨fun _ _ => none, fun _ _ => (), fun _ _ _ => ()⟩

/-- Remembers bodies in a memo. -/
def memo : Recall Memo := ⟨Memo.find?, Memo.begin, Memo.finish⟩

end Recall

namespace Program

section Scanning

variable {μ : Type}

/-- Scans a range from `index` on, with the given functions defined. -/
def scanFrom (k : Recall μ) (code : Array Instruction) (sp : Span) (memory : μ) (scope : Scope sp)
    (index : Nat) (hlo : sp.lo ≤ index) : Scan × μ :=
  if hhi : index < sp.hi then
    match code[index]? with
    | none => (.past index, memory)
    | some i =>
      match i.action with
      | .print s =>
        let rest := scanFrom k code sp memory scope (index + 1) (by omega)
        (.print index i s rest.1, rest.2)
      | .define =>
        match hb : i.body index sp.hi with
        | .ok body =>
          let rest :=
            scanFrom k code sp memory ((i.name, ⟨body, Span.size_body_lt hlo hb⟩) :: scope) body.hi
              (by have := Instruction.body_eq_ok hb; omega)
          (.define index i body rest.1, rest.2)
        | .error f => (.fail index i f, memory)
      | .run =>
        match scope.find? i.name with
        | some body =>
          match k.find? memory body.span with
          | some known =>
            let rest := scanFrom k code sp memory scope (index + 1) (by omega)
            (.reuse index i body.span known rest.1, rest.2)
          | none =>
            let inner :=
              scanFrom k code body.span (k.begin memory body.span) [] body.span.lo (Nat.le_refl _)
            let rest :=
              scanFrom k code sp (k.finish inner.2 body.span inner.1.steps) scope (index + 1)
                (by omega)
            (.call index i body.span inner.1 rest.1, rest.2)
        | none => (.fail index i (.undefinedFunction i.name index), memory)
      | .invalid => (.fail index i (.invalidInstruction index i), memory)
  else (.done index, memory)
termination_by sp.left index
decreasing_by
  · exact Span.left_lt hhi (Nat.lt_succ_self index)
  · exact Span.left_lt hhi (Instruction.body_eq_ok hb).2.1
  · exact Span.left_lt hhi (Nat.lt_succ_self index)
  · exact Span.left_inner body.smaller index
  · exact Span.left_lt hhi (Nat.lt_succ_self index)

variable {k : Recall μ} {code : Array Instruction} {sp : Span} {memory : μ} {scope : Scope sp}
  {index : Nat} {hlo : sp.lo ≤ index} {i : Instruction}

theorem scanFrom_end (hhi : ¬ index < sp.hi) :
    scanFrom k code sp memory scope index hlo = (.done index, memory) := by
  rw [scanFrom, dif_neg hhi]

theorem scanFrom_past (hhi : index < sp.hi) (hi : code[index]? = none) :
    scanFrom k code sp memory scope index hlo = (.past index, memory) := by
  rw [scanFrom, dif_pos hhi]
  simp only [hi]

theorem scanFrom_print {s : Symbol} (hhi : index < sp.hi) (hi : code[index]? = some i)
    (ha : i.action = .print s) :
    scanFrom k code sp memory scope index hlo =
      (.print index i s (scanFrom k code sp memory scope (index + 1) (Span.le_succ hlo)).1,
        (scanFrom k code sp memory scope (index + 1) (Span.le_succ hlo)).2) := by
  rw [scanFrom, dif_pos hhi]
  simp only [hi, ha]

theorem scanFrom_define {body : Span} (hhi : index < sp.hi) (hi : code[index]? = some i)
    (ha : i.action = .define) (hb : i.body index sp.hi = .ok body) :
    scanFrom k code sp memory scope index hlo =
      (.define index i body
          (scanFrom k code sp memory ((i.name, ⟨body, Span.size_body_lt hlo hb⟩) :: scope) body.hi
            (Span.le_body_hi hlo hb)).1,
        (scanFrom k code sp memory ((i.name, ⟨body, Span.size_body_lt hlo hb⟩) :: scope) body.hi
          (Span.le_body_hi hlo hb)).2) := by
  rw [scanFrom, dif_pos hhi]
  simp only [hi, ha]
  split
  · rename_i body' hb'
    obtain rfl : body' = body := Except.ok.inj (hb'.symm.trans hb)
    rfl
  · rename_i hb'
    cases hb.symm.trans hb'

theorem scanFrom_define_error {f : Fault} (hhi : index < sp.hi) (hi : code[index]? = some i)
    (ha : i.action = .define) (hb : i.body index sp.hi = .error f) :
    scanFrom k code sp memory scope index hlo = (.fail index i f, memory) := by
  rw [scanFrom, dif_pos hhi]
  simp only [hi, ha]
  split
  · rename_i hb'
    cases hb.symm.trans hb'
  · rename_i f' hb'
    rw [Except.error.inj (hb'.symm.trans hb)]

theorem scanFrom_run_known {body : Inner sp} {known : Progress} (hhi : index < sp.hi)
    (hi : code[index]? = some i) (ha : i.action = .run) (hf : scope.find? i.name = some body)
    (hknown : k.find? memory body.span = some known) :
    scanFrom k code sp memory scope index hlo =
      (.reuse index i body.span known
          (scanFrom k code sp memory scope (index + 1) (Span.le_succ hlo)).1,
        (scanFrom k code sp memory scope (index + 1) (Span.le_succ hlo)).2) := by
  rw [scanFrom, dif_pos hhi]
  simp only [hi, ha, hf, hknown]

/-- Scans a body and remembers it. -/
def scanBody (k : Recall μ) (code : Array Instruction) (memory : μ) (body : Span) : Scan × μ :=
  let inner := scanFrom k code body (k.begin memory body) [] body.lo body.le_start
  (inner.1, k.finish inner.2 body inner.1.steps)

theorem scanFrom_run_new {body : Inner sp} (hhi : index < sp.hi) (hi : code[index]? = some i)
    (ha : i.action = .run) (hf : scope.find? i.name = some body)
    (hknown : k.find? memory body.span = none) :
    scanFrom k code sp memory scope index hlo =
      (.call index i body.span (scanBody k code memory body.span).1
          (scanFrom k code sp (scanBody k code memory body.span).2 scope (index + 1)
            (Span.le_succ hlo)).1,
        (scanFrom k code sp (scanBody k code memory body.span).2 scope (index + 1)
          (Span.le_succ hlo)).2) := by
  rw [scanFrom, dif_pos hhi]
  simp only [hi, ha, hf, hknown]
  rfl

theorem scanFrom_run_undefined (hhi : index < sp.hi) (hi : code[index]? = some i)
    (ha : i.action = .run) (hf : scope.find? i.name = none) :
    scanFrom k code sp memory scope index hlo =
      (.fail index i (.undefinedFunction i.name index), memory) := by
  rw [scanFrom, dif_pos hhi]
  simp only [hi, ha, hf]

theorem scanFrom_invalid (hhi : index < sp.hi) (hi : code[index]? = some i)
    (ha : i.action = .invalid) :
    scanFrom k code sp memory scope index hlo =
      (.fail index i (.invalidInstruction index i), memory) := by
  rw [scanFrom, dif_pos hhi]
  simp only [hi, ha]

end Scanning

/-! ### Interpreting -/

/-- Interpreting is scanning without a memory, and carrying out what was read. -/
theorem walk_eq_perform {σ : Type} (h : Hooks σ) (code : Array Instruction) (sp : Span)
    (scope : Scope sp) (index : Nat) (hlo : sp.lo ≤ index) :
    walk h code sp scope index hlo =
      (scanFrom .nothing code sp () scope index hlo).1.perform h := by
  induction sp, scope, index, hlo using walk.induct code with
  | case1 sp scope index hlo hhi hnone =>
    rw [walk_past hhi hnone, scanFrom_past hhi hnone, Scan.perform]
  | case2 sp scope index hlo hhi i hi ih ihdefine ihbody =>
    cases ha : i.action with
    | print s => rw [walk_print hhi hi ha, scanFrom_print hhi hi ha, Scan.perform, ih]
    | define =>
      cases hb : i.body index sp.hi with
      | ok body =>
        rw [walk_define hhi hi ha hb, scanFrom_define hhi hi ha hb, Scan.perform, ihdefine body hb]
      | error f =>
        rw [walk_define_error hhi hi ha hb, scanFrom_define_error hhi hi ha hb, Scan.perform]
    | run =>
      cases hf : scope.find? i.name with
      | some body =>
        rw [walk_run hhi hi ha hf, scanFrom_run_new hhi hi ha hf rfl, Scan.perform, ihbody body, ih]
        rfl
      | none =>
        rw [walk_run_undefined hhi hi ha hf, scanFrom_run_undefined hhi hi ha hf, Scan.perform]
    | invalid => rw [walk_invalid hhi hi ha, scanFrom_invalid hhi hi ha, Scan.perform]
  | case3 sp scope index hlo hhi => rw [walk_end hhi, scanFrom_end hhi, Scan.perform]

/-! ### Compiling -/

/-- Compiling is scanning with the memo. -/
theorem compileFrom_eq_scanFrom (code : Array Instruction) (sp : Span) (scope : Scope sp)
    (index : Nat) (hlo : sp.lo ≤ index) :
    ∀ memo, compileFrom code sp memo scope index hlo =
      ((scanFrom .memo code sp memo scope index hlo).1.steps,
        (scanFrom .memo code sp memo scope index hlo).2) := by
  induction sp, scope, index, hlo using walk.induct code with
  | case1 sp scope index hlo hhi hnone =>
    intro memo
    rw [scanFrom_past hhi hnone, compileFrom, dif_pos hhi]
    simp only [hnone, Scan.steps]
  | case2 sp scope index hlo hhi i hi ih ihdefine ihbody =>
    intro memo
    cases ha : i.action with
    | print s =>
      rw [scanFrom_print hhi hi ha, compileFrom, dif_pos hhi]
      simp only [hi, ha, ih, Scan.steps]
    | define =>
      cases hb : i.body index sp.hi with
      | ok body =>
        rw [scanFrom_define hhi hi ha hb, compileFrom_define hhi hi ha hb, ihdefine body hb,
          Scan.steps]
      | error f =>
        rw [scanFrom_define_error hhi hi ha hb, compileFrom_define_error hhi hi ha hb, Scan.steps]
    | run =>
      cases hf : scope.find? i.name with
      | some body =>
        cases hknown : memo.find? body.span with
        | some known =>
          rw [scanFrom_run_known hhi hi ha hf hknown, compileFrom, dif_pos hhi]
          simp only [hi, ha, hf, hknown, ih, Scan.steps]
        | none =>
          rw [scanFrom_run_new hhi hi ha hf hknown, compileFrom, dif_pos hhi]
          simp only [hi, ha, hf, hknown, ih, ihbody body, Scan.steps]
          rfl
      | none =>
        rw [scanFrom_run_undefined hhi hi ha hf, compileFrom, dif_pos hhi]
        simp only [hi, ha, hf, Scan.steps]
    | invalid =>
      rw [scanFrom_invalid hhi hi ha, compileFrom, dif_pos hhi]
      simp only [hi, ha, Scan.steps]
  | case3 sp scope index hlo hhi =>
    intro memo
    rw [scanFrom_end hhi, compileFrom, dif_neg hhi, Scan.steps]

/-- Compiling a range is scanning it with the memo. -/
theorem compileSpan_eq_scanBody {code : Array Instruction} {sp : Span} {memo : Memo}
    (hnew : memo.find? sp = none) :
    compileSpan code memo sp =
      ((scanBody .memo code memo sp).1.steps, (scanBody .memo code memo sp).2) := by
  simp only [compileSpan, hnew, compileFrom_eq_scanFrom]
  rfl

end Program

/-! ## Staying inside -/

/-- A range lies inside another one, and begins later. -/
def Span.Inside (body outer : Span) : Prop :=
  outer.lo < body.lo ∧ body.lo ≤ body.hi ∧ body.hi ≤ outer.hi

/-- The body of a function defined in a range lies inside it. -/
theorem Span.inside_body {sp body : Span} {i : Instruction} {index : Nat} (hlo : sp.lo ≤ index)
    (hb : i.body index sp.hi = .ok body) : body.Inside sp := by
  obtain ⟨hbody, hle, hlimit⟩ := Instruction.body_eq_ok hb
  refine ⟨?_, ?_, ?_⟩ <;> omega

theorem Instruction.last_of_body {i : Instruction} {index : Nat} {limit : Int} {s : Span}
    (h : i.body index limit = .ok s) : i.last + 1 = s.hi := by
  simp only [body] at h
  split at h
  · cases h
    simp only
    omega
  · cases h

/-- Every function that is defined has its body inside the range. -/
def Scope.Inside {sp : Span} (scope : Scope sp) : Prop :=
  ∀ name body, scope.find? name = some body → body.span.Inside sp

theorem Scope.inside_nil (sp : Span) : Scope.Inside ([] : Scope sp) := by
  intro _ _ hfind
  cases hfind

/-- One more function may be defined. -/
theorem Scope.Inside.define {sp body : Span} {scope : Scope sp} (hscope : scope.Inside)
    {i : Instruction} {index : Nat} (hlo : sp.lo ≤ index) (hb : i.body index sp.hi = .ok body) :
    Scope.Inside ((i.name, ⟨body, Span.size_body_lt hlo hb⟩) :: scope) := by
  intro name found hf
  rw [Scope.find?_cons] at hf
  split at hf
  · cases hf
    exact Span.inside_body hlo hb
  · exact hscope name found hf

namespace Scan

/-- What a scan of `sp` from `index` on may do.  It reads inside the range what stands there, goes
on further up without leaving the range, and is over at the end of the range.  A definition goes on
right after its last instruction.  A body that is scanned or known lies inside, and scanning it
keeps to the body in the same way. -/
inductive Confined (code : Array Instruction) : Span → Nat → Scan → Prop
  | done {sp : Span} : Confined code sp sp.hi (.done sp.hi)
  | fail {sp : Span} {index : Nat} {i : Instruction} {f : Fault}
      (hlo : sp.lo ≤ index) (hhi : index < sp.hi) (hread : code[index]? = some i) :
      Confined code sp index (.fail index i f)
  | print {sp : Span} {index : Nat} {i : Instruction} {s : Symbol} {rest : Scan}
      (hlo : sp.lo ≤ index) (hhi : index < sp.hi) (hread : code[index]? = some i)
      (hrest : Confined code sp (index + 1) rest) :
      Confined code sp index (.print index i s rest)
  | define {sp : Span} {index : Nat} {i : Instruction} {body : Span} {rest : Scan}
      (hlo : sp.lo ≤ index) (hhi : index < sp.hi) (hread : code[index]? = some i)
      (hbody : body.Inside sp) (hstart : body.lo = index + 1) (hlast : i.last + 1 = body.hi)
      (hrest : Confined code sp body.hi rest) :
      Confined code sp index (.define index i body rest)
  | call {sp : Span} {index : Nat} {i : Instruction} {body : Span} {inner rest : Scan}
      (hlo : sp.lo ≤ index) (hhi : index < sp.hi) (hread : code[index]? = some i)
      (hbody : body.Inside sp) (hinner : Confined code body body.lo inner)
      (hrest : Confined code sp (index + 1) rest) :
      Confined code sp index (.call index i body inner rest)
  | reuse {sp : Span} {index : Nat} {i : Instruction} {body : Span} {known : Progress} {rest : Scan}
      (hlo : sp.lo ≤ index) (hhi : index < sp.hi) (hread : code[index]? = some i)
      (hbody : body.Inside sp) (hrest : Confined code sp (index + 1) rest) :
      Confined code sp index (.reuse index i body known rest)

namespace Confined

variable {code : Array Instruction} {sp : Span} {index : Nat} {t : Scan}

/-- A confined scan reads inside its range only. -/
theorem reads (h : t.Confined code sp index) : ∀ j ∈ t.reads, sp.lo ≤ j ∧ j < sp.hi := by
  induction h with
  | done => simp [Scan.reads]
  | fail hlo hhi _ => simp [Scan.reads, hlo, hhi]
  | print hlo hhi _ _ ih => simpa [Scan.reads, hlo, hhi] using ih
  | define hlo hhi _ _ _ _ _ ih => simpa [Scan.reads, hlo, hhi] using ih
  | call hlo hhi _ hbody _ _ ihinner ih =>
    obtain ⟨hlow, -, hhigh⟩ := hbody
    intro j hj
    simp only [Scan.reads, List.cons_append, List.mem_cons, List.mem_append] at hj
    obtain rfl | hj | hj := hj
    · exact ⟨hlo, hhi⟩
    · have := ihinner j hj
      omega
    · exact ih j hj
  | reuse hlo hhi _ _ _ ih => simpa [Scan.reads, hlo, hhi] using ih

/-- Every definition that is taken ends inside the range. -/
theorem definitions (h : t.Confined code sp index) :
    ∀ i ∈ t.definitions, 0 ≤ i.last ∧ i.last < sp.hi := by
  induction h with
  | done => simp [Scan.definitions]
  | fail => simp [Scan.definitions]
  | print _ _ _ _ ih => exact ih
  | define hlo hhi _ hbody _ hlast _ ih =>
    obtain ⟨hlow, hle, hhigh⟩ := hbody
    intro i hi
    obtain rfl | hi := List.mem_cons.1 hi
    · omega
    · exact ih i hi
  | call _ _ _ hbody _ _ ihinner ih =>
    obtain ⟨-, -, hhigh⟩ := hbody
    intro i hi
    obtain hi | hi := List.mem_append.1 hi
    · have := ihinner i hi
      omega
    · exact ih i hi
  | reuse _ _ _ _ _ ih => exact ih

/-- Bodies lie in bodies at most as deep as the range is long, since each begins later than the one
around it. -/
theorem depth_le (h : t.Confined code sp index) : t.depth ≤ sp.size := by
  induction h with
  | done => exact Nat.zero_le _
  | fail => exact Nat.zero_le _
  | print _ _ _ _ ih => exact ih
  | define _ _ _ _ _ _ _ ih => exact ih
  | call hlo hhi _ hbody _ _ ihinner ih =>
    obtain ⟨hlow, hle, hhigh⟩ := hbody
    simp only [Scan.depth, Span.size] at *
    omega
  | reuse _ _ _ _ _ ih => exact ih

end Confined

end Scan

namespace Program

section Confinement

variable {μ : Type} {k : Recall μ} {code : Array Instruction}

/-- A scan is confined, however bodies are remembered. -/
theorem confined_scanFrom (sp : Span) (scope : Scope sp) (index : Nat) (hlo : sp.lo ≤ index) :
    ∀ memory, sp.hi ≤ code.size → index ≤ sp.hi → scope.Inside →
      (scanFrom k code sp memory scope index hlo).1.Confined code sp index := by
  induction sp, scope, index, hlo using walk.induct code with
  | case1 sp scope index hlo hhi hnone =>
    intro _ hsp
    have := Array.getElem?_eq_none_iff.1 hnone
    omega
  | case2 sp scope index hlo hhi i hi ih ihdefine ihbody =>
    intro memory hsp _ hscope
    have hrest := fun memory => ih memory hsp hhi hscope
    cases ha : i.action with
    | print s =>
      rw [scanFrom_print hhi hi ha]
      exact .print hlo hhi hi (hrest _)
    | define =>
      cases hb : i.body index sp.hi with
      | ok body =>
        have hinside := Span.inside_body hlo hb
        rw [scanFrom_define hhi hi ha hb]
        exact .define hlo hhi hi hinside (Instruction.body_eq_ok hb).1 (Instruction.last_of_body hb)
          (ihdefine body hb _ hsp hinside.2.2 (hscope.define hlo hb))
      | error f =>
        rw [scanFrom_define_error hhi hi ha hb]
        exact .fail hlo hhi hi
    | run =>
      cases hf : scope.find? i.name with
      | some body =>
        have hinside := hscope _ _ hf
        cases hknown : k.find? memory body.span with
        | some known =>
          rw [scanFrom_run_known hhi hi ha hf hknown]
          exact .reuse hlo hhi hi hinside (hrest _)
        | none =>
          obtain ⟨-, hle, hhigh⟩ := hinside
          rw [scanFrom_run_new hhi hi ha hf hknown]
          exact .call hlo hhi hi (hscope _ _ hf)
            (ihbody body _ (by omega) hle (Scope.inside_nil _)) (hrest _)
      | none =>
        rw [scanFrom_run_undefined hhi hi ha hf]
        exact .fail hlo hhi hi
    | invalid =>
      rw [scanFrom_invalid hhi hi ha]
      exact .fail hlo hhi hi
  | case3 sp scope index hlo hhi =>
    intro _ _ hle _
    obtain rfl : index = sp.hi := by omega
    rw [scanFrom_end hhi]
    exact .done

theorem confined_scanBody {sp : Span} {memory : μ} (hle : sp.lo ≤ sp.hi) (hsp : sp.hi ≤ code.size) :
    (scanBody k code memory sp).1.Confined code sp sp.lo :=
  confined_scanFrom sp [] sp.lo sp.le_start _ hsp hle (Scope.inside_nil sp)

end Confinement

end Program

/-! ## The memo -/

/-- Whatever is known of a body when it is taken is all its steps. -/
def Scan.Settled (code : Array Instruction) : Scan → Prop
  | done _ | past _ | fail .. => True
  | print _ _ _ rest | define _ _ _ rest => rest.Settled code
  | call _ _ _ inner rest => inner.Settled code ∧ rest.Settled code
  | reuse _ _ body known rest => known = .finished (Program.steps code body) ∧ rest.Settled code

namespace Program

/-- What is taken from the memo is finished: a body is smaller than the range it is run in, and
ranges smaller than the one being compiled are sound. -/
theorem settled_scanFrom (code : Array Instruction) (sp : Span) (scope : Scope sp) (index : Nat)
    (hlo : sp.lo ≤ index) :
    ∀ memo : Memo, memo.Sound code sp.size →
      (scanFrom .memo code sp memo scope index hlo).1.Settled code := by
  induction sp, scope, index, hlo using walk.induct code with
  | case1 sp scope index hlo hhi hnone =>
    intro _ _
    rw [scanFrom_past hhi hnone]
    trivial
  | case2 sp scope index hlo hhi i hi ih ihdefine ihbody =>
    intro memo hmemo
    cases ha : i.action with
    | print s =>
      rw [scanFrom_print hhi hi ha]
      exact ih memo hmemo
    | define =>
      cases hb : i.body index sp.hi with
      | ok body =>
        rw [scanFrom_define hhi hi ha hb]
        exact ihdefine body hb memo hmemo
      | error f =>
        rw [scanFrom_define_error hhi hi ha hb]
        trivial
    | run =>
      cases hf : scope.find? i.name with
      | some body =>
        cases hknown : memo.find? body.span with
        | some known =>
          rw [scanFrom_run_known hhi hi ha hf hknown]
          exact ⟨hmemo _ _ body.smaller hknown, ih memo hmemo⟩
        | none =>
          have hinner := Compiles.compileSpan
            (compiles_compileFrom code body.span [] body.span.lo body.le_start) body.smaller hmemo
          rw [compileSpan_eq_scanBody hknown] at hinner
          rw [scanFrom_run_new hhi hi ha hf hknown]
          exact ⟨ihbody body _ (hmemo.begin body.smaller), ih _ hinner.sound⟩
      | none =>
        rw [scanFrom_run_undefined hhi hi ha hf]
        trivial
    | invalid =>
      rw [scanFrom_invalid hhi hi ha]
      trivial
  | case3 sp scope index hlo hhi =>
    intro _ _
    rw [scanFrom_end hhi]
    trivial

/-! ## Nothing else counts -/

section Congruence

variable {μ : Type} {k : Recall μ} {code code' : Array Instruction}

/-- Programs that agree inside a range are scanned alike there. -/
theorem scanFrom_congr (sp : Span) (scope : Scope sp) (index : Nat) (hlo : sp.lo ≤ index) :
    ∀ memory, (∀ j, sp.lo ≤ j → j < sp.hi → code'[j]? = code[j]?) → scope.Inside →
      scanFrom k code' sp memory scope index hlo = scanFrom k code sp memory scope index hlo := by
  induction sp, scope, index, hlo using walk.induct code with
  | case1 sp scope index hlo hhi hnone =>
    intro _ hsame _
    rw [scanFrom_past hhi hnone, scanFrom_past hhi ((hsame _ hlo hhi).trans hnone)]
  | case2 sp scope index hlo hhi i hi ih ihdefine ihbody =>
    intro memory hsame hscope
    have hi' := (hsame _ hlo hhi).trans hi
    have hrest := fun memory => ih memory hsame hscope
    cases ha : i.action with
    | print s => rw [scanFrom_print hhi hi ha, scanFrom_print hhi hi' ha, hrest]
    | define =>
      cases hb : i.body index sp.hi with
      | ok body =>
        rw [scanFrom_define hhi hi ha hb, scanFrom_define hhi hi' ha hb,
          ihdefine body hb _ hsame (hscope.define hlo hb)]
      | error f => rw [scanFrom_define_error hhi hi ha hb, scanFrom_define_error hhi hi' ha hb]
    | run =>
      cases hf : scope.find? i.name with
      | some body =>
        cases hknown : k.find? memory body.span with
        | some known =>
          rw [scanFrom_run_known hhi hi ha hf hknown, scanFrom_run_known hhi hi' ha hf hknown,
            hrest]
        | none =>
          obtain ⟨hlow, -, hhigh⟩ := hscope _ _ hf
          have hbody : scanBody k code' memory body.span = scanBody k code memory body.span := by
            rw [scanBody, scanBody, ihbody body _
              (fun j hlo hhi => hsame j (by omega) (by omega)) (Scope.inside_nil _)]
          rw [scanFrom_run_new hhi hi ha hf hknown, scanFrom_run_new hhi hi' ha hf hknown, hbody,
            hrest]
      | none => rw [scanFrom_run_undefined hhi hi ha hf, scanFrom_run_undefined hhi hi' ha hf]
    | invalid => rw [scanFrom_invalid hhi hi ha, scanFrom_invalid hhi hi' ha]
  | case3 sp scope index hlo hhi =>
    intro _ _ _
    rw [scanFrom_end hhi, scanFrom_end hhi]

theorem scanBody_congr {sp : Span} (hsame : ∀ j, sp.lo ≤ j → j < sp.hi → code'[j]? = code[j]?)
    (memory : μ) : scanBody k code' memory sp = scanBody k code memory sp := by
  rw [scanBody, scanBody, scanFrom_congr sp [] sp.lo sp.le_start _ hsame (Scope.inside_nil sp)]

end Congruence

/-- The largest program has an index to spare: adding one to where an accepted definition ends does
not leave 64 bits. -/
theorem last_succ_toInt {i : Instruction} {limit : Nat} (hlast : 0 ≤ i.last ∧ i.last < limit)
    (hlimit : (limit : Int) ≤ Int64.maxValue.toInt) :
    (Int64.ofInt i.last + 1).toInt = i.last + 1 := by
  have hmax : Int64.maxValue.toInt = 9223372036854775807 := rfl
  have hi : (Int64.ofInt i.last).toInt = i.last :=
    Int64.toInt_ofInt_of_le (by omega) (by omega)
  have hone : (1 : Int64).toInt = 1 := rfl
  rw [Int64.toInt_add, hi, hone, Int.bmod_eq_of_le (by omega) (by omega)]

/-- Whatever a program holds, interpreting and compiling a range of it stay inside the range.

Interpreting performs a scan, and compiling takes the steps of one.  These are finite, whatever the
range.  Both read inside the range only, each time further up, and scan or take only bodies that
begin later than the range around them and end inside it (`Scan.Confined`); so bodies are nested no
deeper than the range is long.  Adding one to where a definition ends stays inside 64 bits.  What
compiling takes from the memo is finished.  Programs that agree on the range are interpreted and
compiled alike there. -/
theorem scans_confined (p : Program) (sp : Span) (hle : sp.lo ≤ sp.hi) (hhi : sp.hi ≤ p.length) :
    let interpreting := (scanBody .nothing p.toArray () sp).1
    let compiling := scanBody .memo p.toArray [] sp
    (∀ (σ : Type) (h : Hooks σ), p.interpretSpan h sp = interpreting.perform h) ∧
    compileSpan p.toArray [] sp = (compiling.1.steps, compiling.2) ∧
    (∀ t, t = interpreting ∨ t = compiling.1 →
      t.Confined p.toArray sp sp.lo ∧ (∀ j ∈ t.reads, sp.lo ≤ j ∧ j < sp.hi) ∧
      t.depth ≤ sp.hi - sp.lo ∧
      ((p.length : Int) ≤ Int64.maxValue.toInt →
        ∀ i ∈ t.definitions, (Int64.ofInt i.last + 1).toInt = i.last + 1)) ∧
    compiling.1.Settled p.toArray ∧
    ∀ q : Program, (∀ j, sp.lo ≤ j → j < sp.hi → q[j]? = p[j]?) →
      (∀ (σ : Type) (h : Hooks σ), q.interpretSpan h sp = p.interpretSpan h sp) ∧
      compileSpan q.toArray [] sp = compileSpan p.toArray [] sp := by
  intro interpreting compiling
  have hsp : sp.hi ≤ p.toArray.size := by simpa using hhi
  have hinterpret : ∀ (q : Program) (σ : Type) (h : Hooks σ), q.interpretSpan h sp =
      (scanBody .nothing q.toArray () sp).1.perform h :=
    fun q _ h => walk_eq_perform h q.toArray sp [] sp.lo sp.le_start
  refine ⟨hinterpret p, compileSpan_eq_scanBody rfl, ?_, ?_, ?_⟩
  · intro t ht
    have hconfined : t.Confined p.toArray sp sp.lo := by
      obtain rfl | rfl := ht
      · exact confined_scanBody hle hsp
      · exact confined_scanBody hle hsp
    refine ⟨hconfined, hconfined.reads, hconfined.depth_le, ?_⟩
    intro hlength i hi
    exact last_succ_toInt (hconfined.definitions i hi) (by omega)
  · have hempty : Memo.Sound p.toArray (sp.size + 1) [] := by
      intro _ _ _ hfind
      cases hfind
    exact settled_scanFrom p.toArray sp [] sp.lo sp.le_start _ (hempty.begin (Nat.lt_succ_self _))
  · intro q hsame
    have hsame' : ∀ j, sp.lo ≤ j → j < sp.hi → q.toArray[j]? = p.toArray[j]? := by
      simpa using hsame
    refine ⟨fun σ h => ?_, ?_⟩
    · rw [hinterpret, hinterpret, scanBody_congr hsame']
    · rw [compileSpan_eq_scanBody rfl, compileSpan_eq_scanBody rfl, scanBody_congr hsame']

open Instruction in
/-- A function that defines its own name again and is run twice, and then one that never ends. -/
def tangle : Program :=
  [define [97] 2, define [97] 1, run [97], run [97], run [97], define [98] 9223372036854775807]

open Instruction in
theorem scans_confined_tangle :
    tangle.whole.lo ≤ tangle.whole.hi ∧ tangle.whole.hi ≤ tangle.length ∧
    let compiling := (scanBody .memo tangle.toArray [] tangle.whole).1
    compiling =
      .define 0 (define [97] 2) ⟨1, 3⟩
        (.call 3 (run [97]) ⟨1, 3⟩
          (.define 1 (define [97] 1) ⟨2, 2⟩ (.call 2 (run [97]) ⟨2, 2⟩ (.done 2) (.done 3)))
          (.reuse 4 (run [97]) ⟨1, 3⟩ (.finished [.call []])
            (.fail 5 (define [98] 9223372036854775807)
              (.invalidInstruction 5 (define [98] 9223372036854775807))))) ∧
    compiling.Confined tangle.toArray tangle.whole 0 ∧ compiling.depth ≤ 6 ∧
    compiling.Settled tangle.toArray := by
  have hle : tangle.whole.lo ≤ tangle.whole.hi := by decide
  have hhi : tangle.whole.hi ≤ tangle.length := by decide
  obtain ⟨-, -, hscan, hsettled, -⟩ := scans_confined tangle tangle.whole hle hhi
  obtain ⟨hconfined, -, hdepth, -⟩ := hscan _ (.inr rfl)
  refine ⟨hle, hhi, ?_, hconfined, hdepth, hsettled⟩
  have hempty : ∀ sp, Memo.find? [] sp = none := fun _ => rfl
  simp [scanBody, scanFrom, tangle, whole, define, run, action, Op.define, Op.run, body,
    Scope.find?_cons, Recall.memo, Memo.find?_begin, Memo.find?_finish, hempty, Scan.steps]

end Program
end Birdcall
