import Birdcall.Text.Base64
import Birdcall.Text.Utf8
import Birdcall.Yaml.Double
import Birdcall.Yaml.Timestamp

/-!
# Values of scalars

A plain scalar means null, a truth value, a number, a timestamp or a text, by the look of it.  A tag
says which of these it must be.
-/

namespace Birdcall.Yaml

/-- What a node is said to be. -/
inductive Tag
  | null
  | bool
  | str
  | int
  | float
  | timestamp
  | binary
  | merge
  | seq
  | map
  | other (name : Text)
  deriving DecidableEq, Repr

namespace Tag

/-- What the tags of the format begin with in full. -/
def longForm : Text := Text.ofString "tag:yaml.org,2002:"

/-- A tag in its short form. -/
def text : Tag → Text
  | null => Text.ofString "!!null"
  | bool => Text.ofString "!!bool"
  | str => Text.ofString "!!str"
  | int => Text.ofString "!!int"
  | float => Text.ofString "!!float"
  | timestamp => Text.ofString "!!timestamp"
  | binary => Text.ofString "!!binary"
  | merge => Text.ofString "!!merge"
  | seq => Text.ofString "!!seq"
  | map => Text.ofString "!!map"
  | other name => name

/-- The tags of the format. -/
def known : List Tag := [null, bool, str, int, float, timestamp, binary, merge, seq, map]

/-- The tag that a text in short or in full form stands for. -/
def ofText (t : Text) : Tag :=
  let short :=
    if longForm.isPrefixOf t then Text.ofString "!!" ++ t.drop longForm.length else t
  (known.find? (·.text = short)).getD (other short)

end Tag

/-- What a scalar means. -/
inductive Value
  | null
  | bool (b : Bool)
  | integer (n : Int)
  | float (d : Double)
  | text (t : Text)
  | time (t : Timestamp)
  deriving DecidableEq, Repr

namespace Value

/-- Whether two values count as one key. -/
def same : Value → Value → Bool
  | float a, float b => a.equals b
  | time a, time b => a.same b
  | a, b => a = b

/-- The words with a meaning of their own. -/
def words : List (List String × Tag × Value) :=
  [(["true", "True", "TRUE"], .bool, bool true),
    (["false", "False", "FALSE"], .bool, bool false),
    (["", "~", "null", "Null", "NULL"], .null, null),
    ([".nan", ".NaN", ".NAN"], .float, float .nan),
    ([".inf", ".Inf", ".INF", "+.inf", "+.Inf", "+.INF"], .float, float (.infinite false)),
    (["-.inf", "-.Inf", "-.INF"], .float, float (.infinite true))]

/-- The meaning of a word that has one of its own. -/
def ofWord? (t : Text) : Option (Tag × Value) :=
  (words.find? fun (spellings, _) => spellings.any (Text.ofString · = t)).map (·.2)

/-- The integer that digits in a given base mean, after a beginning that names the base. -/
def ofDigits? (base : Nat) (name : String) (t : Text) : Option Int :=
  let name := Text.ofString name
  let rest := t.drop name.length
  if name.isPrefixOf t then
    match Text.integerIn base rest, Text.naturalIn base rest with
    | .ok n, _ => some n
    | _, .ok n => some n
    | _, _ => none
  else none

/-- The same with a minus sign in front. -/
def ofNegativeDigits? (base : Nat) (name : String) (t : Text) : Option Int :=
  match t with
  | [] => none
  | b :: rest =>
    let name := Text.ofString name
    if b = Text.byte '-' ∧ name.isPrefixOf rest then
      (Text.integerIn base (b :: rest.drop name.length)).toOption
    else none

/-- The number that a text without separators means. -/
def ofNumber? (t : Text) : Option (Tag × Value) :=
  match Text.integer t, Text.natural t with
  | .ok n, _ => some (.int, integer n)
  | _, .ok n => some (.int, integer n)
  | _, _ =>
    match Double.read t with
    | some d => some (.float, float d)
    | none =>
      let n :=
        (ofDigits? 2 "0b" t).or <| (ofNegativeDigits? 2 "0b" t).or <|
          (ofDigits? 8 "0o" t).or (ofNegativeDigits? 8 "0o" t)
      n.map fun n => (.int, integer n)

/-- What a plain scalar that begins like a number means.  It is taken for a timestamp only where
nothing else is asked for. -/
def ofNumeral (timestamps : Bool) (t : Text) : Tag × Value :=
  match if timestamps then Timestamp.read? t else none with
  | some moment => (.timestamp, time moment)
  | none => (ofNumber? (Text.dropSeparators t)).getD (.str, text t)

/-- What a plain scalar that begins with a point means. -/
def ofFraction (t : Text) : Tag × Value :=
  match if Text.separated t then Double.read (Text.dropSeparators t) else none with
  | some d => (.float, float d)
  | none => (.str, text t)

/-- What a plain scalar means, judging by its first character. -/
def ofPlain (timestamps : Bool) (t : Text) : Tag × Value :=
  match t with
  | [] => (.null, null)
  | b :: _ =>
    if Text.isDigit b || b = Text.byte '+' || b = Text.byte '-' then
      (ofWord? t).getD (ofNumeral timestamps t)
    else if b = Text.byte '.' then (ofWord? t).getD (ofFraction t)
    else if (Text.ofString "yYnNtTfFoO~").any (· = b) then (ofWord? t).getD (.str, text t)
    else (.str, text t)

/-- What a scalar under a tag means; nothing if the tag does not suit it. -/
def ofTagged? (tag : Tag) (t : Text) : Option (Tag × Value) :=
  match tag with
  | .null | .bool | .int | .timestamp =>
    let (found, v) := ofPlain (tag = .timestamp) t
    if found = tag then some (tag, v) else none
  | .float =>
    match ofPlain false t with
    | (.float, v) => some (.float, v)
    | (.int, .integer n) =>
      if n = 0 then some (.float, float (.finite false 0 0))
      else if n < Text.integerLimit then
        (Double.ofFraction (decide (n < 0)) n.natAbs 1).map fun d => (.float, float d)
      else none
    | _ => none
  | .binary => (Text.Base64.decode t).map fun data => (.binary, text data)
  | tag => some (tag, text t)

end Value
end Birdcall.Yaml
