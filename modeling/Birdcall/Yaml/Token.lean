import Birdcall.Yaml.Cursor

/-!
# YAML tokens

The pieces a YAML text falls into.  Some of them stand for no characters: the beginning and the end
of a block, and the mark of a key that only the colon after it gives away.
-/

namespace Birdcall.Yaml

/-- How a scalar is written. -/
inductive Style
  | plain
  | quoted
  | block
  deriving DecidableEq, Repr

/-- What a token is. -/
inductive TokenKind
  | streamStart
  | streamEnd
  /-- A directive that names a version of the format. -/
  | version (major minor : Nat)
  /-- A directive that gives a handle its meaning. -/
  | handle (name meaning : Text)
  | documentStart
  | documentEnd
  | blockSequence
  | blockMapping
  | blockEnd
  | openSequence
  | closeSequence
  | openMapping
  | closeMapping
  /-- The hyphen before an item of a block sequence. -/
  | entry
  /-- The comma between items. -/
  | comma
  | key
  | value
  | reference (name : Text)
  | anchor (name : Text)
  /-- A tag, by its handle and what follows it. -/
  | tag (handle rest : Text)
  | scalar (value : Text) (style : Style)
  deriving DecidableEq, Repr

/-- A token and where it begins. -/
structure Token where
  kind : TokenKind
  start : Mark
  deriving DecidableEq, Repr

end Birdcall.Yaml
