import Birdcall.Proofs.Act
import Birdcall.Proofs.Grammar
import Birdcall.Proofs.Walk

/-!
# Evaluating statements

What a program means is said by its statements: `Statement.evaluate` goes through them from left to
right with a table of functions that is empty at first, for the program and again for every body
that is run.  This module proves that interpreting the laid out instructions is the same act.

There are three groups.

* The evaluator.  Statements are numbered in preorder, and a run of a function that is not in the
  table fails with its own number.
* Statements in a program.  `Placed` says that the instructions of statements stand at an index of
  a program, and `Bound` that the ranges a walk has found are the bodies the evaluator has.
* The two runs together.  `walk_eq_evalFrom` is the induction, over the steps of the evaluator.
-/

namespace Birdcall

open Statement (flatten size length_flatten)

/-! ## The evaluator -/

/-- The functions defined so far, latest first.  A body comes with the number of its first
statement. -/
abbrev Table := List (Text × Nat × List Statement)

namespace Table

/-- How many statements the bodies of a table hold. -/
def size : Table → Nat
  | [] => 0
  | (_, _, body) :: rest => Statement.size body + size rest

/-- A body is no larger than its table. -/
theorem size_lookup {t : Table} {name : Text} {start : Nat} {body : List Statement}
    (h : t.lookup name = some (start, body)) : Statement.size body ≤ t.size := by
  induction t with
  | nil => simp at h
  | cons f t ih =>
    obtain ⟨name', start', body'⟩ := f
    rw [List.lookup_cons] at h
    simp only [size]
    split at h
    · cases h
      omega
    · have := ih h
      omega

end Table

namespace Statement

variable {σ : Type}

/-- Evaluates statements of which the first has the given number, with the given functions
defined. -/
def evalFrom (emit : Symbol → Act σ Unit) (number : Nat) (table : Table) :
    List Statement → Act σ Unit
  | [] => pure ()
  | .print s :: rest => do
    emit s
    evalFrom emit (number + 1) table rest
  | .run name :: rest =>
    match h : table.lookup name with
    | none => Act.fail (.running (.undefinedFunction name number))
    | some (start, body) => do
      evalFrom emit start [] body
      evalFrom emit (number + 1) table rest
  | .define name body :: rest =>
    evalFrom emit (number + 1 + size body) ((name, number + 1, body) :: table) rest
termination_by t => table.size + size t
decreasing_by
  · simp only [size]; omega
  · have := Table.size_lookup h
    simp [size, Table.size] at *; omega
  · simp only [size]; omega
  · simp [size, Table.size]; omega

/-- Evaluates the statements of a program. -/
def evaluate (emit : Symbol → Act σ Unit) (t : List Statement) : Act σ Unit :=
  evalFrom emit 0 [] t

end Statement

/-! ## Statements in a program -/

/-- The instructions of statements that some tokens spell stand at an index of a program. -/
structure Placed (code : Array Instruction) (index : Nat) (t : List Statement) : Prop where
  spelled : ∃ tokens, Spells tokens t
  code_eq : flatten index t <+: code.toList.drop index

namespace Placed

variable {code : Array Instruction} {index : Nat} {rest : List Statement}

/-- The first of some instructions that stand at an index is the one at the index. -/
theorem getElem?_of_isPrefix_drop {i : Instruction} {after : Program}
    (h : i :: after <+: code.toList.drop index) : code[index]? = some i := by
  obtain ⟨tail, h⟩ := h
  rw [← Array.getElem?_toList, ← List.head?_drop, ← h]
  rfl

theorem isPrefix_drop_succ {i : Instruction} {after : Program}
    (h : i :: after <+: code.toList.drop index) : after <+: code.toList.drop (index + 1) := by
  rw [← List.tail_drop]
  obtain ⟨tail, h⟩ := h
  exact ⟨tail, by rw [← h]; rfl⟩

theorem print {s : Symbol} (h : Placed code index (.print s :: rest)) :
    s.known = true ∧ code[index]? = some (.print s) ∧ Placed code (index + 1) rest := by
  obtain ⟨⟨_, ht⟩, hcode⟩ := h
  cases ht with
  | print _ hs ht =>
    rw [flatten] at hcode
    exact ⟨hs, getElem?_of_isPrefix_drop hcode, ⟨_, ht⟩, isPrefix_drop_succ hcode⟩

theorem run {name : Text} (h : Placed code index (.run name :: rest)) :
    code[index]? = some (.run name) ∧ Placed code (index + 1) rest := by
  obtain ⟨⟨_, ht⟩, hcode⟩ := h
  cases ht with
  | run _ _ ht =>
    rw [flatten] at hcode
    exact ⟨getElem?_of_isPrefix_drop hcode, ⟨_, ht⟩, isPrefix_drop_succ hcode⟩

theorem define {name : Text} {body : List Statement}
    (h : Placed code index (.define name body :: rest)) :
    code[index]? = some (.define name (index + size body : Nat)) ∧
      Placed code (index + 1) body ∧ Placed code (index + 1 + size body) rest := by
  obtain ⟨⟨_, ht⟩, hcode⟩ := h
  cases ht with
  | define _ _ hb _ ht =>
    rw [flatten] at hcode
    have htail := isPrefix_drop_succ hcode
    refine ⟨getElem?_of_isPrefix_drop hcode, ⟨⟨_, hb⟩, ?_⟩, ⟨_, ht⟩, ?_⟩
    · exact (List.prefix_append _ _).trans htail
    obtain ⟨tail, htail⟩ := htail
    refine ⟨tail, ?_⟩
    rw [← List.drop_drop, ← htail, List.append_assoc, ← length_flatten (index + 1) body,
      List.drop_left]

/-- Statements stand at the start of their own instructions. -/
theorem flatten_zero {tokens : List Token} {t : List Statement} (ht : Spells tokens t) :
    Placed (flatten 0 t).toArray 0 t :=
  ⟨⟨tokens, ht⟩, List.prefix_rfl⟩

end Placed

/-- The bodies that a walk has found are those that the evaluator has in its table. -/
inductive Bound (code : Array Instruction) {sp : Span} : Scope sp → Table → Prop
  | nil : Bound code [] []
  | cons {name : Text} {found : Inner sp} {start : Nat} {body : List Statement} {scope : Scope sp}
      {table : Table} (hspan : found.span = ⟨start, start + size body⟩)
      (hbody : Placed code start body) (h : Bound code scope table) :
      Bound code ((name, found) :: scope) ((name, start, body) :: table)

namespace Bound

variable {code : Array Instruction} {sp : Span} {scope : Scope sp} {table : Table} {name : Text}

theorem find?_eq_none (h : Bound code scope table) (hn : table.lookup name = none) :
    scope.find? name = none := by
  induction h with
  | nil => rfl
  | @cons name' found start body scope table hspan hbody h ih =>
    rw [List.lookup_cons] at hn
    rw [Scope.find?, List.lookup_cons]
    split at hn
    · cases hn
    · exact ih hn

theorem find?_eq_some {start : Nat} {body : List Statement} (h : Bound code scope table)
    (hn : table.lookup name = some (start, body)) :
    ∃ found : Inner sp, scope.find? name = some found ∧
      found.span = ⟨start, start + size body⟩ ∧ Placed code start body := by
  induction h with
  | nil => cases hn
  | @cons name' found start' body' scope table hspan hbody h ih =>
    rw [List.lookup_cons] at hn
    rw [Scope.find?, List.lookup_cons]
    split at hn
    · cases hn
      exact ⟨found, rfl, hspan, hbody⟩
    · exact ih hn

end Bound

/-! ## The two runs together -/

namespace Program

variable {σ : Type}

/-- A walk over placed statements is their evaluation. -/
theorem walk_eq_evalFrom {code : Array Instruction} (emit : Symbol → Act σ Unit) {number : Nat}
    {table : Table} {t : List Statement} {sp : Span} {scope : Scope sp} (hlo : sp.lo ≤ number)
    (hhi : sp.hi = number + size t) (ht : Placed code number t) (hb : Bound code scope table) :
    walk (.printing emit) code sp scope number hlo = Statement.evalFrom emit number table t := by
  fun_induction Statement.evalFrom emit number table t generalizing sp with
  | case1 number table =>
    exact walk_end (by simp only [size] at hhi; omega)
  | case2 number table s rest ih =>
    obtain ⟨hs, hi, hrest⟩ := ht.print
    simp only [size] at hhi
    rw [walk_print (by omega) hi (Instruction.action_print hs),
      Hooks.printing_visit_bind, ih (by omega) (by omega) hrest hb]
    rfl
  | case3 number table name rest hn =>
    obtain ⟨hi, hrest⟩ := ht.run
    simp only [size] at hhi
    rw [walk_run_undefined (by omega) hi rfl (hb.find?_eq_none hn)]
    rfl
  | case4 number table name rest start body hn ihb ih =>
    obtain ⟨hi, hrest⟩ := ht.run
    obtain ⟨found, hf, hspan, hbody⟩ := hb.find?_eq_some hn
    simp only [size] at hhi
    obtain ⟨found, hsmaller⟩ := found
    subst hspan
    rw [walk_run (by omega) hi rfl hf, Hooks.printing_visit_bind, ih (by omega) (by omega) hrest hb,
      ihb (Nat.le_refl start) rfl hbody .nil]
    rfl
  | case5 number table name body rest ih =>
    obtain ⟨hi, hbody, hrest⟩ := ht.define
    simp only [size] at hhi
    rw [walk_define (by omega) hi rfl (Instruction.body_define (by omega)),
      Hooks.printing_visit_bind]
    exact ih (by omega) (by omega) hrest (.cons rfl hbody hb)

/-- Interpreting laid out statements is evaluating them. -/
theorem interpret_flatten {tokens : List Token} {t : List Statement} (ht : Spells tokens t)
    (emit : Symbol → Act σ Unit) :
    (flatten 0 t).interpret (.printing emit) = Statement.evaluate emit t := by
  have hhi : (whole (flatten 0 t)).hi = 0 + size t := by simp [whole]
  exact walk_eq_evalFrom emit (Nat.le_refl 0) hhi (.flatten_zero ht) .nil

end Program

/-! ## What can go wrong -/

/-- An evaluation is stopped by what prints, or by a run of a function that is not defined.  Such a
run stands at the index that its fault names. -/
theorem Statement.evalFrom_eq_error {σ : Type} {code : Array Instruction}
    {emit : Symbol → Act σ Unit} {number : Nat} {table : Table} {t : List Statement} {s : σ}
    {stop : Stop} (ht : Placed code number t)
    (htable : ∀ {name start body}, table.lookup name = some (start, body) →
      Placed code start body)
    (h : (Act.outcome (evalFrom emit number table t) s).1 = .error stop) :
    (∃ symbol r, symbol.known = true ∧ (Act.outcome (emit symbol) r).1 = .error stop) ∨
      ∃ name, ∃ k : Nat, stop = .failed (.running (.undefinedFunction name k)) ∧
        code[k]? = some (.run name) := by
  fun_induction evalFrom emit number table t generalizing s with
  | case1 => cases h
  | case2 number table symbol rest ih =>
    obtain ⟨hs, _, hrest⟩ := ht.print
    rcases Act.outcome_bind_eq_error h with h | ⟨_, _, h⟩
    · exact .inl ⟨symbol, s, hs, h⟩
    · exact ih hrest htable h
  | case3 number table name rest hn =>
    cases h
    exact .inr ⟨name, number, rfl, ht.run.1⟩
  | case4 number table name rest start body hn ihb ih =>
    rcases Act.outcome_bind_eq_error h with h | ⟨_, _, h⟩
    · exact ihb (htable hn) (by simp) h
    · exact ih ht.run.2 htable h
  | case5 number table name body rest ih =>
    obtain ⟨_, hbody, hrest⟩ := ht.define
    refine ih hrest ?_ h
    intro name' start' body' hn
    rw [List.lookup_cons] at hn
    split at hn
    · cases hn
      exact hbody
    · exact htable hn

namespace Program

/-- Interpreting a program that tokens spell is evaluating the statements they spell, whatever
prints and whenever it fails.  Only what prints and runs of functions that are not defined can stop
it, and the fault of such a run names the index of its instruction. -/
theorem interpret_eq_evaluate {tokens : List Token} {p : Program} (h : ofTokens tokens = .ok p) :
    ∃ t, Spells tokens t ∧ (∀ u, Spells tokens u → u = t) ∧
      ∀ {σ : Type} (emit : Symbol → Act σ Unit),
        p.interpret (.printing emit) = Statement.evaluate emit t ∧
        ∀ s stop, (Act.outcome (p.interpret (.printing emit)) s).1 = .error stop →
          (∃ symbol r, symbol.known = true ∧ (Act.outcome (emit symbol) r).1 = .error stop) ∨
          ∃ name, ∃ k : Nat, stop = .failed (.running (.undefinedFunction name k)) ∧
            p[k]? = some (.run name) := by
  obtain ⟨t, ht, rfl⟩ := ofTokens_eq_ok_iff.1 h
  refine ⟨t, ht, fun u hu => hu.unique ht, fun emit => ?_⟩
  have heval := interpret_flatten ht emit
  refine ⟨heval, fun s stop hstop => ?_⟩
  rw [heval] at hstop
  simpa using Statement.evalFrom_eq_error (.flatten_zero ht) (by simp) hstop

/-- `FUN f A FUN g END END RUN f RUN g`: the function `g` is defined in the body of `f` only. -/
def hiddenTokens : List Token :=
  [⟨.opener, [70, 85, 78], .zero⟩, ⟨.identifier, [102], .zero⟩, ⟨.symbol ⟨0⟩, [65], .zero⟩,
    ⟨.opener, [70, 85, 78], .zero⟩, ⟨.identifier, [103], .zero⟩, ⟨.closer, [69, 78, 68], .zero⟩,
    ⟨.closer, [69, 78, 68], .zero⟩, ⟨.runner, [82, 85, 78], .zero⟩, ⟨.identifier, [102], .zero⟩,
    ⟨.runner, [82, 85, 78], .zero⟩, ⟨.identifier, [103], .zero⟩]

theorem interpret_eq_evaluate_hidden :
    let p : Program := [.define [102] 2, .print ⟨0⟩, .define [103] 2, .run [102], .run [103]]
    ofTokens hiddenTokens = .ok p ∧
      ∃ t, Spells hiddenTokens t ∧ (∀ u, Spells hiddenTokens u → u = t) ∧
        ∀ {σ : Type} (emit : Symbol → Act σ Unit),
          p.interpret (.printing emit) = Statement.evaluate emit t ∧
          ∀ s stop, (Act.outcome (p.interpret (.printing emit)) s).1 = .error stop →
            (∃ symbol r, symbol.known = true ∧ (Act.outcome (emit symbol) r).1 = .error stop) ∨
            ∃ name, ∃ k : Nat, stop = .failed (.running (.undefinedFunction name k)) ∧
              p[k]? = some (.run name) :=
  ⟨rfl, interpret_eq_evaluate rfl⟩

end Program
end Birdcall
