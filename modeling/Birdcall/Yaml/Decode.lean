import Birdcall.Act
import Birdcall.Yaml.Node

/-!
# Decoding nodes

How nodes become texts, integers, truth values and mappings.  A node that does not fit is noted, and
decoding goes on; only a malformed node stops it.  A document may not consist of the same nodes over
and over, so nodes are counted, and those inside aliases once more.

A mapping may take over the pairs of others under the key `<<`.  Its own pairs come first, and of
several pairs with one key the first one counts.  For that its keys are decoded into whatever they
are, and must be single values: decoding crashes on a collection among them.
-/

namespace Birdcall.Yaml

/-- What decoding has come to. -/
structure Tally where
  /-- What does not fit, latest first. -/
  notes : List Text
  /-- How many nodes were decoded. -/
  visits : Nat
  /-- How many of them inside an alias. -/
  repeats : Nat
  /-- Where the aliases begin that decoding is inside of. -/
  active : List Nat
  /-- The keys that are taken, while one mapping takes over others. -/
  taken : Option (List Value)

namespace Tally

/-- Before anything is decoded. -/
def empty : Tally := ⟨[], 0, 0, [], none⟩

/-- Whether too many nodes are inside of aliases: more than 99 of 100 in a small document, more than
one of ten in a large one, and in between the share falls evenly. -/
def isExcessive (t : Tally) : Bool :=
  let n := t.visits
  100 < t.repeats && 1000 < n &&
    if n ≤ 400000 then 99 * n < 100 * t.repeats
    else if 4000000 ≤ n then n < 10 * t.repeats
    else n * (99 * 3600000 - 89 * (n - 400000)) < 100 * 3600000 * t.repeats

end Tally

/-- Decodes something. -/
abbrev Decode := Act Tally

namespace Decode

variable {σ α : Type}

/-- Stops at a malformed node. -/
def malformed : Decode α := Act.fail (.config .malformed)

/-- Notes something about a line. -/
def note (line : Nat) (t : Text) : Decode Unit :=
  modify fun tally =>
    { tally with
      notes :=
        (Text.ofString "line " ++ Text.ofNat line ++ Text.ofString ": " ++ t) :: tally.notes }

/-- How a note shows the text of a node: cut if it is long, and bare under the tag of a
collection. -/
def shown (tag : Tag) (value : Text) : Text :=
  if tag = .seq || tag = .map then value
  else
    let value := if 10 < value.length then value.take 7 ++ Text.ofString "..." else value
    Text.ofString " `" ++ value ++ Text.ofString "`"

/-- Notes that a node does not fit. -/
def mismatch (n : Node) (tag : Tag) (type : String) : Decode Unit :=
  note n.line <|
    Text.ofString "cannot unmarshal " ++ tag.text ++ shown tag n.value ++ Text.ofString " into " ++
      Text.ofString type

/-- Notes the keys that a mapping has twice. -/
def noteRepeats : List (Node × Node) → Decode Unit
  | [] => pure ()
  | (k, _) :: rest => do
    for (k', _) in rest do
      if k.sameKind k' && k.value = k'.value then
        note k'.line <|
          Text.ofString "mapping key " ++ k'.value.quote ++
            Text.ofString " already defined at line " ++ Text.ofNat k.line
    noteRepeats rest

/-- Whether a mapping has no key twice; the ones it has twice are noted. -/
def distinct (pairs : List (Node × Node)) : Decode Bool := do
  let before := (← get).notes.length
  noteRepeats pairs
  return (← get).notes.length = before

/-! ## Aliases -/

/-- The node that an alias in a document stands for, and any other node itself. -/
def follow (root : Node) : Node → Node
  | .reference start name target => (root.find? target).getD (.reference start name target)
  | n => n

/-- The tag of a node, or of the one that an alias stands for. -/
def tagOf? (root n : Node) : Option Tag :=
  match follow root n with
  | .scalar _ _ tag _ | .sequence _ _ tag _ | .mapping _ _ tag _ => some tag
  | .reference .. => none

/-- Whether a node is null. -/
def isNull (root n : Node) : Bool := tagOf? root n = some .null

/-- Counts a node. -/
def visit : Decode Unit := do
  modify fun t =>
    { t with
      visits := t.visits + 1
      repeats := if t.active.isEmpty then t.repeats else t.repeats + 1 }
  if (← get).isExcessive then malformed

/-- Decodes a node, or the one that an alias stands for, which the alias may not be inside of. -/
def entering (root n : Node) (decode : Node → Decode α) : Decode α := do
  visit
  match n with
  | .reference start .. =>
    let active := (← get).active
    if active.contains start.index then malformed
    modify fun t => { t with active := start.index :: active }
    visit
    let x ← decode (follow root n)
    modify fun t => { t with active := active }
    pure x
  | n => decode n

/-! ## Scalars -/

/-- What a scalar means. -/
def scalarValue (tag : Tag) (value : Text) : Decode Value :=
  match Value.ofTagged? tag value with
  | some (_, v) => pure v
  | none => malformed

/-- Decodes a scalar by what it means; anything else does not fit, and null counts as nothing. -/
def scalar (n : Node) (type : String) (fit : Tag → Text → Value → Option α) :
    Decode (Option α) := do
  match n with
  | .scalar _ _ tag value =>
    match ← scalarValue tag value with
    | .null => pure none
    | v =>
      match fit tag value v with
      | some x => pure (some x)
      | none =>
        mismatch n tag type
        pure none
  | .sequence _ _ tag _ =>
    mismatch n tag type
    pure none
  | .mapping _ _ tag pairs =>
    if ← distinct pairs then mismatch n tag type
    pure none
  | .reference .. => malformed

/-- Decodes a text: every scalar is one as it is written, except that binary data is decoded. -/
def text (root n : Node) : Decode (Option Text) :=
  entering root n fun n => scalar n "string" fun tag value v =>
    match tag, v with
    | .binary, .text data => some data
    | _, _ => some value

/-- Decodes an integer of 64 bits; a fraction is dropped. -/
def integer (root n : Node) : Decode (Option Int) :=
  entering root n fun n => scalar n "int" fun _ _ v =>
    match v with
    | .integer n => if n < Text.integerLimit then some n else none
    | .float d => d.toInteger?
    | _ => none

/-- The words that also count as true. -/
def trueWords : List String := ["y", "Y", "yes", "Yes", "YES", "on", "On", "ON"]

/-- The words that also count as false. -/
def falseWords : List String := ["n", "N", "no", "No", "NO", "off", "Off", "OFF"]

/-- The truth value of a word that is none of the words for it. -/
def truthOf? (t : Text) : Option Bool :=
  if trueWords.any (Text.ofString · = t) then some true
  else if falseWords.any (Text.ofString · = t) then some false
  else none

/-- Decodes a truth value. -/
def truth (root n : Node) : Decode (Option Bool) :=
  entering root n fun n => scalar n "bool" fun _ _ v =>
    match v with
    | .bool b => some b
    | .text t => truthOf? t
    | _ => none

/-! ## Mappings -/

/-- What a node comes to that may be anything: a value, or a collection, of which the parts do not
matter. -/
inductive Thing
  | value (v : Value)
  | collection

/-- Whether a key takes over the pairs of other mappings. -/
def isMerge : Node → Bool
  | .scalar _ _ tag value => tag = .merge && value = Text.ofString "<<"
  | _ => false

/-- Says which keys are taken. -/
def setTaken (taken : Option (List Value)) : Decode Unit :=
  modify fun t => { t with taken := taken }

/-- Whether a key is taken. -/
def isTaken (taken : Option (List Value)) (key : Value) : Bool :=
  taken.any fun keys => keys.any key.same

/-- Takes all keys of a mapping, which must be single values. -/
def takeKeys (any : Node → Decode (Option Thing)) (pairs : List (Node × Node)) : Decode Unit := do
  setTaken (some [])
  for (k, _) in pairs do
    match ← any k with
    | none => pure ()
    | some (.value v) => modify fun t => { t with taken := t.taken.map (v :: ·) }
    | some .collection => Act.crash .collection

/-- Takes over the mapping `source`, or the mappings it lists. -/
def takeOver (root : Node) (again : List (Node × Node) → σ → Decode σ) (source : Node)
    (state : σ) : Decode σ :=
  let nodes :=
    match source with
    | .sequence _ _ _ items => items
    | n => [n]
  nodes.foldlM (fun state n =>
    match follow root n with
    | .mapping _ _ _ pairs => entering root n fun _ => again pairs state
    | _ => malformed) state

/-- Decodes a mapping, unless it has a key twice: with `own` its own pairs, given the keys that are
taken, and with `again` the mappings that it takes over. -/
def mappingWith (root : Node) (any : Node → Decode (Option Thing))
    (own : Option (List Value) → List (Node × Node) → σ → Decode (Option (List Value) × σ))
    (again : List (Node × Node) → σ → Decode σ) (pairs : List (Node × Node)) (state : σ) :
    Decode (Option σ) := do
  if !(← distinct pairs) then return none
  let before := (← get).taken
  setTaken none
  let (taken, state) ← own before pairs state
  setTaken taken
  match (pairs.filter fun (k, _) => isMerge k).getLast? with
  | none => return some state
  | some (_, source) =>
    if taken.isNone then takeKeys any pairs
    let state ← takeOver root again source state
    if taken.isNone then setTaken none
    return some state

/-! ## Anything -/

/-- Whether the keys of a mapping are decoded as texts. -/
def hasTextKeys (root : Node) (pairs : List (Node × Node)) : Bool :=
  pairs.all fun (k, _) => tagOf? root k = some .str || tagOf? root k = some .merge

mutual

/-- Decodes a node into whatever it is; nothing if it is a mapping that has a key twice. -/
def anything (root : Node) : Nat → Node → Decode (Option Thing)
  | 0, _ => malformed
  | fuel + 1, n =>
    entering root n fun
      | .scalar _ _ tag value => return some (.value (← scalarValue tag value))
      | .sequence _ _ _ items => do
        for item in items do
          let _ ← anything root fuel item
        return some .collection
      | .mapping _ _ _ pairs =>
        return (← anyMapping root fuel (hasTextKeys root pairs) pairs).map fun _ => .collection
      | .reference .. => malformed

/-- Decodes a mapping from whatever its keys are, or from texts, to whatever its values are. -/
def anyMapping (root : Node) : Nat → Bool → List (Node × Node) → Decode (Option Unit)
  | 0, _, _ => malformed
  | fuel + 1, textKeys, pairs =>
    let key (k : Node) : Decode (Option Thing) :=
      if textKeys then return (← text root k).map fun t => .value (.text t)
      else anything root fuel k
    let own (taken : Option (List Value)) (pairs : List (Node × Node)) (_ : Unit) :
        Decode (Option (List Value) × Unit) := do
      let mut taken := taken
      for (k, v) in pairs do
        if !isMerge k then
          match ← key k with
          | none => pure ()
          | some .collection => if taken.isSome then Act.crash .collection else malformed
          | some (.value v') =>
            if !isTaken taken v' then
              taken := taken.map (v' :: ·)
              let _ ← anything root fuel v
      return (taken, ())
    let again (pairs : List (Node × Node)) (_ : Unit) : Decode Unit := do
      let _ ← anyMapping root fuel textKeys pairs
    mappingWith root (anything root fuel) own again pairs ()

end

/-- How much reading a document can take: aliases may lead back, but never through the same alias
twice. -/
def effort (root : Node) : Nat := 2 * (root.size + 1) * (root.size + 1)

/-! ## Mappings with keys of their own -/

/-- What is done with the pairs of a mapping. -/
structure Receiver (σ : Type) where
  /-- Takes a pair, given whether it is taken over from another mapping and the keys of its mapping
  before it. -/
  pair : Bool → List Text → Text → Node → Node → σ → Decode σ

/-- Decodes the pairs of a mapping itself, passing over the keys that are taken already. -/
def ownPairs (root : Node) (r : Receiver σ) (taken : Option (List Value))
    (pairs : List (Node × Node)) (state : σ) : Decode (Option (List Value) × σ) := do
  let merged := taken.isSome
  let mut taken := taken
  let mut state := state
  let mut earlier := []
  for (k, v) in pairs do
    if !isMerge k then
      match ← text root k with
      | none => pure ()
      | some key =>
        if !isTaken taken (.text key) then
          taken := taken.map (.text key :: ·)
          state ← r.pair merged earlier key k v state
          earlier := key :: earlier
  return (taken, state)

/-- Decodes a mapping with everything it takes over, where a key can take `limit` steps. -/
def mappingWithin (root : Node) (r : Receiver σ) (limit : Nat) :
    Nat → List (Node × Node) → σ → Decode σ
  | 0, _, _ => malformed
  | fuel + 1, pairs, state =>
    return (← mappingWith root (anything root limit) (ownPairs root r)
      (mappingWithin root r limit fuel) pairs state).getD state

/-- Decodes a mapping with everything it takes over. -/
def mapping (root : Node) (r : Receiver σ) (pairs : List (Node × Node)) (state : σ) : Decode σ :=
  mappingWithin root r (effort root) (effort root) pairs state

end Decode
end Birdcall.Yaml
