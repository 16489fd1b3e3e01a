import Birdcall.Location
import Birdcall.Symbol
import Birdcall.Text.Classes
import Birdcall.Text.Quoted

/-!
# Tokens

A program is a sequence of words.  Seven words are reserved: the four letters that print a symbol,
`FUN` and `END` around a function body, and `RUN`.  They are recognised whatever the case they are
written in; every other word is an identifier and is kept as it stands.
-/

namespace Birdcall

/-- What a token is, as a byte: tokens built by hand may hold any. -/
structure Kind where
  code : UInt8
  deriving DecidableEq, Repr

/-- What a token does in a program. -/
inductive Role
  /-- Names a function. -/
  | identifier
  /-- Prints a symbol. -/
  | symbol (s : Symbol)
  /-- Opens a function. -/
  | opener
  /-- Closes a function. -/
  | closer
  /-- Runs a function. -/
  | runner
  /-- Nothing: the kind of no word. -/
  | unknown
  deriving DecidableEq, Repr

namespace Kind

/-- The kind of a word that is not reserved. -/
def identifier : Kind := ⟨0⟩

/-- The kind of the word that prints a known symbol. -/
def symbol (s : Symbol) : Kind := ⟨s.code + 1⟩

/-- The kind of `FUN`. -/
def opener : Kind := ⟨5⟩

/-- The kind of `END`. -/
def closer : Kind := ⟨6⟩

/-- The kind of `RUN`. -/
def runner : Kind := ⟨7⟩

/-- What a token of this kind does. -/
def role (k : Kind) : Role :=
  match k.code.toNat with
  | 0 => .identifier
  | 1 => .symbol ⟨0⟩
  | 2 => .symbol ⟨1⟩
  | 3 => .symbol ⟨2⟩
  | 4 => .symbol ⟨3⟩
  | 5 => .opener
  | 6 => .closer
  | 7 => .runner
  | _ => .unknown

/-- Whether a kind is that of a reserved word. -/
def reserved (k : Kind) : Bool := k.role != .identifier && k.role != .unknown

/-- The symbol that a token of this kind prints. -/
def symbol? (k : Kind) : Option Symbol :=
  match k.role with
  | .symbol s => some s
  | _ => none

/-- The reserved words in capitals. -/
def words : List (Text × Kind) :=
  [(Text.ofString "A", ⟨1⟩), (Text.ofString "B", ⟨2⟩), (Text.ofString "C", ⟨3⟩),
    (Text.ofString "D", ⟨4⟩), (Text.ofString "FUN", opener), (Text.ofString "END", closer),
    (Text.ofString "RUN", runner)]

/-- The kind of a word in capitals, if it is reserved. -/
def ofWord? (capitals : Text) : Option Kind := words.lookup capitals

/-- The name of a kind. -/
def text (k : Kind) : Text :=
  match k.role with
  | .identifier => Text.ofString "identifier"
  | .unknown => Text.ofString "Kind(" ++ Text.ofNat k.code.toNat ++ Text.ofString ")"
  | _ => ((words.find? (·.2 = k)).map (·.1)).getD []

end Kind

/-- A word of a program and where it begins. -/
structure Token where
  kind : Kind
  text : Text
  loc : Location
  deriving DecidableEq, Repr

namespace Token

/-- The token of a word: a reserved word in capitals, any other word as it stands. -/
def classify (word : Text) (loc : Location) : Token :=
  let capitals := word.capitals
  match Kind.ofWord? capitals with
  | some kind => ⟨kind, capitals, loc⟩
  | none => ⟨.identifier, word, loc⟩

/-- A token as messages show it. -/
def shown (t : Token) : Text := t.loc.text ++ Text.ofString " " ++ t.text.quote

end Token
end Birdcall
