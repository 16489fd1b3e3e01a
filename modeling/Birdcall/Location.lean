import Birdcall.Text.Utf8

/-!
# Locations

Where a character stands: the name of its source, its line and its column, both counted from one.
A column of zero or less is not shown.
-/

namespace Birdcall

/-- A position in a named source. -/
structure Location where
  name : Text
  line : Int
  column : Int
  deriving DecidableEq, Repr

namespace Location

/-- The location of nothing yet. -/
def zero : Location := ⟨[], 0, 0⟩

/-- The first position of a source. -/
def start (name : Text) : Location := ⟨name, 1, 1⟩

/-- The position after a character. -/
def after (l : Location) (c : Char) : Location :=
  if c = '\n' then { l with line := l.line + 1, column := 1 }
  else { l with column := l.column + 1 }

/-- A location as messages show it. -/
def text (l : Location) : Text :=
  let place := l.name ++ Text.ofString ":" ++ Text.ofInt l.line
  if 0 < l.column then place ++ Text.ofString ":" ++ Text.ofInt l.column else place

/-- The characters of a source with their positions, the first one at `l`. -/
def locate (l : Location) : List Char → List (Char × Location)
  | [] => []
  | c :: cs => (c, l) :: locate (l.after c) cs

end Location
end Birdcall
