import Birdcall.Error
import Birdcall.Symbol

/-!
# Configurations

What can be tuned about an engine.  `Config.Reading` reads a configuration and `Config.Rendering`
writes one.
-/

namespace Birdcall

/-- What can be tuned about an engine. -/
structure Config where
  /-- How many executions of a program are interpreted before it is promoted. -/
  threshold : Int
  /-- Whether programs are promoted at all. -/
  tiered : Bool
  symbols : SymbolTable
  deriving DecidableEq, Repr

namespace Config

/-- The stock configuration. -/
def default : Config := ⟨10, true, .default⟩

/-- The configuration with nothing set. -/
def blank : Config := ⟨0, false, .empty⟩

/-- Refuses a negative threshold. -/
def validate (c : Config) : Except ConfigError Unit :=
  if c.threshold < 0 then .error (.negativeThreshold c.threshold) else .ok ()

end Config
end Birdcall
