import Birdcall.Text.Utf8

/-!
# Symbols

A program prints symbols; what a symbol shows as is decided by the symbol table of the engine that
runs it.  Four symbols are known, and an instruction may still hold any byte.
-/

namespace Birdcall

/-- A symbol, known or not. -/
structure Symbol where
  code : UInt8
  deriving DecidableEq, Repr

namespace Symbol

/-- How many symbols are known. -/
def count : Nat := 4

/-- Whether a symbol is one of the known ones. -/
def known (s : Symbol) : Bool := s.code.toNat < count

/-- The letter of a known symbol, or the number of an unknown one. -/
def text (s : Symbol) : Text :=
  if s.known then [97 + s.code]
  else Text.ofString "Symbol(" ++ Text.ofNat s.code.toNat ++ Text.ofString ")"

end Symbol

/-- What each symbol shows as. -/
structure SymbolTable where
  a : Text
  b : Text
  c : Text
  d : Text
  deriving DecidableEq, Repr

namespace SymbolTable

/-- The stock table. -/
def default : SymbolTable :=
  ⟨Text.ofString "duck", Text.ofString "goose", Text.ofString "swan", Text.ofString "finch"⟩

/-- The table without any words. -/
def empty : SymbolTable := ⟨[], [], [], []⟩

/-- What a symbol shows as, if it is known. -/
def get? (t : SymbolTable) (s : Symbol) : Option Text :=
  match s.code.toNat with
  | 0 => some t.a
  | 1 => some t.b
  | 2 => some t.c
  | 3 => some t.d
  | _ => none

/-- The table with the word of a known symbol replaced. -/
def set (t : SymbolTable) (s : Symbol) (word : Text) : SymbolTable :=
  match s.code.toNat with
  | 0 => { t with a := word }
  | 1 => { t with b := word }
  | 2 => { t with c := word }
  | 3 => { t with d := word }
  | _ => t

/-- The words in the order of their symbols. -/
def toList (t : SymbolTable) : List Text := [t.a, t.b, t.c, t.d]

end SymbolTable
end Birdcall
