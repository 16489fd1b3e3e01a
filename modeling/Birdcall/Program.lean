import Birdcall.Symbol
import Birdcall.Text.Quoted

/-!
# Programs

A program is a flat list of instructions.  The body of a function stands right after the
instruction that defines it, which holds the index of the body's last instruction (its own index
if the body is empty).

Programs may be built by hand, so an instruction can hold any operation, symbol and end.
`Instruction.action` says what an instruction does when it is met, and `Instruction.body` where
the body of a definition lies.
-/

namespace Birdcall

/-- What an instruction is for, as a byte. -/
structure Op where
  code : UInt8
  deriving DecidableEq, Repr

namespace Op

/-- Prints a symbol. -/
def print : Op := ⟨1⟩

/-- Defines a function. -/
def define : Op := ⟨2⟩

/-- Runs a function. -/
def run : Op := ⟨3⟩

/-- The name of an operation, or its number. -/
def text (op : Op) : Text :=
  match op.code.toNat with
  | 1 => Text.ofString "print"
  | 2 => Text.ofString "fun"
  | 3 => Text.ofString "run"
  | n => Text.ofString "Op(" ++ Text.ofNat n ++ Text.ofString ")"

end Op

/-- One instruction.  Only the fields its operation uses are set by the library itself. -/
structure Instruction where
  op : Op
  symbol : Symbol
  name : Text
  /-- The index of the last instruction of the body that a definition has. -/
  last : Int
  deriving DecidableEq, Repr

/-- A flat list of instructions. -/
abbrev Program := List Instruction

/-- What happens when an instruction is met. -/
inductive Action
  | print (s : Symbol)
  | define
  | run
  /-- The instruction cannot be carried out. -/
  | invalid
  deriving DecidableEq, Repr

/-- A range of instructions, without its end. -/
structure Span where
  lo : Nat
  hi : Nat
  deriving DecidableEq, Repr

/-- How many instructions a range holds. -/
def Span.size (s : Span) : Nat := s.hi - s.lo

/-- Why a program cannot be run on. -/
inductive Fault
  /-- An unknown operation or symbol, or a function that ends outside the body it stands in. -/
  | invalidInstruction (index : Int) (i : Instruction)
  /-- A function that is not defined earlier in the same body. -/
  | undefinedFunction (name : Text) (index : Int)
  deriving DecidableEq, Repr

namespace Instruction

/-- The instruction that prints a symbol. -/
def print (s : Symbol) : Instruction := ⟨.print, s, [], 0⟩

/-- The instruction that defines a function. -/
def define (name : Text) (last : Int) : Instruction := ⟨.define, ⟨0⟩, name, last⟩

/-- The instruction that runs a function. -/
def run (name : Text) : Instruction := ⟨.run, ⟨0⟩, name, 0⟩

/-- What happens when an instruction is met. -/
def action (i : Instruction) : Action :=
  match i.op.code.toNat with
  | 1 => if i.symbol.known then .print i.symbol else .invalid
  | 2 => .define
  | 3 => .run
  | _ => .invalid

/-- An instruction as listings and messages show it. -/
def text (i : Instruction) : Text :=
  match i.op.code.toNat with
  | 1 => Text.ofString "print " ++ i.symbol.text
  | 2 => Text.ofString "fun " ++ i.name ++ Text.ofString " ..@" ++ Text.ofInt i.last
  | 3 => Text.ofString "run " ++ i.name
  | _ =>
    Text.joinWith (Text.ofString " ") [i.op.text, i.symbol.text, i.name.quote, Text.ofInt i.last]

/-- The body of the function that the instruction at `index` defines, which must end before
`limit` and not before the instruction itself. -/
def body (i : Instruction) (index : Nat) (limit : Int) : Except Fault Span :=
  if i.op = .define ∧ (index : Int) ≤ i.last ∧ i.last < limit then
    .ok ⟨index + 1, (i.last + 1).toNat⟩
  else .error (.invalidInstruction index i)

theorem body_eq_ok {i : Instruction} {index : Nat} {limit : Int} {s : Span}
    (h : i.body index limit = .ok s) :
    s.lo = index + 1 ∧ index + 1 ≤ s.hi ∧ (s.hi : Int) ≤ limit := by
  simp only [body] at h
  split at h
  · cases h
    refine ⟨rfl, ?_, ?_⟩ <;> simp only <;> omega
  · cases h

end Instruction

namespace Fault

/-- A fault as messages show it. -/
def message : Fault → Text
  | invalidInstruction index i =>
    Text.ofString "invalid instruction @" ++ Text.ofInt index ++ Text.ofString ": " ++ i.text
  | undefinedFunction name index =>
    Text.ofString "undefined function " ++ name.quote ++ Text.ofString " run @" ++ Text.ofInt index

end Fault

namespace Program

/-- The range of all instructions. -/
def whole (p : Program) : Span := ⟨0, p.length⟩

/-- The body of the function defined at `index`, if there is an instruction there. -/
def body? (p : Program) (index limit : Int) : Option (Except Fault Span) :=
  if index < 0 then none else (p[index.toNat]?).map (·.body index.toNat limit)

end Program
end Birdcall
