import Birdcall.Output
import Birdcall.Program

/-!
# Listings

A listing shows a program one instruction a line, after a heading, each with its index and indented
under the functions it stands in.  The heading travels with the first line, so a listing is a list
of pieces, each of which is written at once.
-/

namespace Birdcall.Program

/-- The heading of a listing. -/
def heading (p : Program) : Text :=
  Text.ofString "# Program (" ++ Text.ofNat p.length ++ Text.ofString " instructions)\n"

/-- The width of the indices in the listing of `n` instructions. -/
def indexWidth (n : Nat) : Nat := (Text.ofNat n).length

/-- The ends of the open functions, innermost first, that are still open at `index`. -/
def stillOpen (index : Nat) (opened : List Int) : List Int :=
  opened.dropWhile (· < index)

/-- The ends of the open functions after the instruction at `index`. -/
def openAfter (index : Nat) (i : Instruction) (opened : List Int) : List Int :=
  if i.op = .define ∧ (index : Int) < i.last then i.last :: opened else opened

/-- The line of the instruction at `index`, inside `depth` functions. -/
def listingLine (width index depth : Nat) (i : Instruction) : Text :=
  Text.ofString "  @" ++ Text.padLeft width (Text.ofNat index) ++ Text.ofString " " ++
    Text.blanks (2 * depth) ++ i.text ++
    (if i.op = .define ∧ i.last = index then Text.ofString " (empty)" else []) ++ [Text.lineFeed]

/-- The lines of the instructions from `index` on. -/
def listingLines (width index : Nat) (opened : List Int) : Program → List Text
  | [] => []
  | i :: rest =>
    let here := stillOpen index opened
    listingLine width index here.length i ::
      listingLines width (index + 1) (openAfter index i here) rest

/-- The listing in the pieces it is written in. -/
def listingPieces (p : Program) : List Text :=
  match listingLines (indexWidth p.length) 0 [] p with
  | [] => [p.heading]
  | first :: rest => (p.heading ++ first) :: rest

/-- The listing of a program. -/
def listing (p : Program) : Text := p.listingPieces.flatten

/-- Writes the listing to an output, up to the first piece that is not taken whole. -/
def dump (p : Program) (out : Output) : Act Outside Unit := out.writePieces p.listingPieces

/-- Writes the listing straight to a target, which has to be there. -/
def dumpTo (p : Program) (t : Target) : Act Outside Unit := do
  p.dump (← Output.present (← Output.straight t))

end Birdcall.Program
