import Birdcall.Config
import Birdcall.Yaml.Written

/-!
# Writing configurations

A configuration is written with all its keys, four columns further in at each level.
-/

namespace Birdcall.Config

/-- How far in a level is. -/
def step : Nat := 4

/-- The line of a key and its value, and the further lines of the value. -/
def writePair (depth : Nat) (key : Text) (value : Text) : Text :=
  let line := Text.blanks (step * depth) ++ key ++ Text.ofString ": " ++ value
  if Yaml.Written.endsLine value then line else line ++ [Text.lineFeed]

/-- The line of a symbol. -/
def writeSymbol (name word : Text) : Text :=
  writePair 1 name (Yaml.Written.scalar step (2 * step) word)

/-- A configuration as text. -/
def render (c : Config) : Text :=
  writePair 0 (Text.ofString "threshold") (Text.ofInt c.threshold) ++
    writePair 0 (Text.ofString "tiered") (Text.ofString (if c.tiered then "true" else "false")) ++
    Text.ofString "symbols:\n" ++
    writeSymbol (Text.ofString "a") c.symbols.a ++ writeSymbol (Text.ofString "b") c.symbols.b ++
    writeSymbol (Text.ofString "c") c.symbols.c ++ writeSymbol (Text.ofString "d") c.symbols.d

end Birdcall.Config
