import Birdcall.Text.Quoted

/-!
# Configuration errors

Why a configuration cannot be used.
-/

namespace Birdcall

/-- Why a configuration cannot be used. -/
inductive ConfigError
  /-- The text is no YAML, or YAML without a meaning. -/
  | malformed
  /-- Values that do not fit their places, a line of explanation for each. -/
  | mismatches (notes : List Text)
  /-- A symbol mapping names a symbol that is not known. -/
  | unknownSymbol (line : Nat) (key : Text)
  | negativeThreshold (threshold : Int)
  deriving DecidableEq, Repr

/-- A configuration error as messages show it. -/
def ConfigError.message : ConfigError → Text
  | malformed => Text.ofString "yaml: malformed text"
  | mismatches notes =>
    Text.ofString "yaml: unmarshal errors:" ++ notes.flatMap (Text.ofString "\n  " ++ ·)
  | unknownSymbol line key =>
    Text.ofString "line " ++ Text.ofNat line ++ Text.ofString ": unknown symbol " ++ key.quote
  | negativeThreshold threshold =>
    Text.ofString "invalid threshold " ++ Text.ofInt threshold ++
      Text.ofString ", must not be negative"

end Birdcall
