import Birdcall.Config
import Birdcall.Token
import Birdcall.Yaml.Decode

/-!
# Reading configurations

A configuration is a YAML mapping laid over the stock configuration.  Its keys are `threshold`,
`tiered` and `symbols`; the last one maps letters, in either case, to words.
-/

namespace Birdcall

namespace SymbolTable

/-- The symbol that a letter in either case stands for. -/
def symbolOf? (key : Text) : Option Symbol := (Token.classify key .zero).kind.symbol?

/-- Sets the words of letters in order, up to a key that is no letter of a symbol. -/
def setAll (t : SymbolTable) : List (Text × Text) → Except Text SymbolTable
  | [] => .ok t
  | (key, word) :: rest =>
    match symbolOf? key with
    | some s => (t.set s word).setAll rest
    | none => .error key

end SymbolTable

namespace Config

open Yaml

/-- Takes the pairs of a mapping from letters to words.  Null stands for the empty word, unless it
is taken over and there is a word already. -/
def wordReceiver (root : Node) : Decode.Receiver (List (Text × Text)) where
  pair merged _ key _ v words := do
    let word ← Decode.text root v
    let blank := Decode.isNull root v && !(merged && words.any (·.1 = key))
    match word.or (if blank then some [] else none) with
    | some word => pure (words.filter (·.1 ≠ key) ++ [(key, word)])
    | none => pure words

/-- Decodes a mapping from letters to words. -/
def decodeWords (root n : Node) : Decode (List (Text × Text)) :=
  Decode.entering root n fun
    | .mapping _ _ _ pairs =>
      Decode.mapping root (wordReceiver root) pairs []
    | n => do
      let _ ← Decode.scalar n "map[string]string" fun _ _ _ => (none : Option Unit)
      pure []

/-- Decodes symbols that are said to be null: a list of all words, of which the ones that do not fit
are left out, or nothing. -/
def decodeNullSymbols (root n : Node) (before : SymbolTable) : Decode SymbolTable := do
  match n with
  | .sequence _ _ _ items =>
    if items.length ≠ Symbol.count then Decode.malformed
    let words ← items.filterMapM (Decode.text root)
    return words.zipIdx.foldl (fun t (word, i) => t.set ⟨i.toUInt8⟩ word) before
  | n =>
    let _ ← Decode.scalar n "main.SymbolTable" fun _ _ _ => (none : Option Unit)
    return before

/-- Decodes the symbols, laid over the ones before.  They are counted by themselves, and left alone
if something in them does not fit. -/
def decodeSymbols (root n : Node) (before : SymbolTable) : Decode SymbolTable :=
  Decode.entering root n fun n => do
    if Decode.isNull root n then decodeNullSymbols root n before
    else
      match (decodeWords root n).run .empty with
      | .error stop _ => throw stop
      | .ok entries tally =>
        if tally.notes.isEmpty then
          match before.setAll entries with
          | .ok t => pure t
          | .error key => Act.fail (.config (.unknownSymbol n.line key))
        else
          modify fun t => { t with notes := tally.notes ++ t.notes }
          pure before

/-- The keys of a configuration. -/
def fields : List Text :=
  [Text.ofString "threshold", Text.ofString "tiered", Text.ofString "symbols"]

/-- Takes the pairs of a configuration.  Other keys are noted, and so is a key met before. -/
def receiver (root : Node) : Decode.Receiver Config where
  pair _ earlier key k v c := do
    if !fields.contains key then
      Decode.note k.line <|
        Text.ofString "field " ++ key ++ Text.ofString " not found in type main.Config"
      pure c
    else if earlier.contains key then
      Decode.note k.line <|
        Text.ofString "field " ++ key ++ Text.ofString " already set in type main.Config"
      pure c
    else if key = Text.ofString "threshold" then
      return { c with threshold := (← Decode.integer root v).getD c.threshold }
    else if key = Text.ofString "tiered" then
      return { c with tiered := (← Decode.truth root v).getD c.tiered }
    else return { c with symbols := ← decodeSymbols root v c.symbols }

/-- Decodes a document, laid over a configuration. -/
def ofNode (root : Node) (c : Config) : Decode Config := do
  Decode.visit
  Decode.entering root root fun
    | .mapping _ _ _ pairs => Decode.mapping root (receiver root) pairs c
    | n => do
      let _ ← Decode.scalar n "main.Config" fun _ _ _ => (none : Option Unit)
      pure c

/-- Decodes the first document of a text, if there is one, laid over the stock configuration. -/
def decode (t : Text) : Except Stop Config :=
  match firstDocument? t with
  | none => .error (.failed (.config .malformed))
  | some none => .ok .default
  | some (some root) =>
    match (ofNode root .default).run .empty with
    | .error stop _ => .error stop
    | .ok c tally =>
      if tally.notes.isEmpty then .ok c
      else .error (.failed (.config (.mismatches tally.notes.reverse)))

/-- Reads a configuration. -/
def parse (t : Text) : Except Stop Config := do
  let c ← (decode t).mapError (·.during (Text.ofString "failed to decode config"))
  match c.validate with
  | .error e => .error (.failed (.config e))
  | .ok _ => .ok c

/-- Reads a configuration from a file. -/
def load (fetch : Text → Except Error Text) (name : Text) : Except Stop Config :=
  match fetch name with
  | .error e => .error (.failed (.during (Text.ofString "failed to read config " ++ name) e))
  | .ok t => (parse t).mapError (·.during (Text.ofString "config " ++ name))

end Config
end Birdcall
