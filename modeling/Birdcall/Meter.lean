import Birdcall.Cache

/-!
# Meters

A meter counts executions by tier, and promotions, over any number of engines.  It may be put on
show, together with the size of a cache.  The text form groups the samples by family, families and
labels in alphabetical order.
-/

namespace Birdcall

/-- Counts of executions and promotions. -/
structure Meter where
  cold : Nat
  warm : Nat
  compiled : Nat
  promotions : Nat
  /-- Whether the counts are on show. -/
  registered : Bool
  /-- The number of the cache whose size is on show; the cache may be one that is not there. -/
  watched : Option (Option Nat)

namespace Meter

/-- A meter that has counted nothing. -/
def new (registered : Bool) : Meter := ⟨0, 0, 0, 0, registered, none⟩

/-- Counts an execution. -/
def observe (m : Meter) : Tier → Meter
  | .cold => { m with cold := m.cold + 1 }
  | .warm => { m with warm := m.warm + 1 }
  | .compiled => { m with compiled := m.compiled + 1 }

/-- Counts a promotion. -/
def promoted (m : Meter) : Meter := { m with promotions := m.promotions + 1 }

/-- Puts the size of a cache on show, which can be done once. -/
def watch (m : Meter) (cache : Option Nat) : Except Error Meter :=
  match m.watched with
  | some _ => .error .duplicateGauge
  | none => .ok { m with watched := some cache }

end Meter

/-- What kind of number a family holds. -/
inductive FamilyKind
  | gauge
  | counter
  deriving DecidableEq, Repr

/-- Numbers on show under one name, each with the tier it belongs to, if any. -/
structure Family where
  name : String
  help : String
  kind : FamilyKind
  samples : List (Option Tier × Nat)

namespace Meter

/-- The size of a watched cache. -/
def entriesFamily (size : Nat) : Family :=
  ⟨"flock_cache_entries", "Distinct programs held by the compilation cache.", .gauge,
    [(none, size)]⟩

/-- The executions by tier; a tier that never ran has no sample. -/
def executionsFamily (m : Meter) : Family :=
  ⟨"flock_executions_total", "Program executions by the tier that ran them.", .counter,
    [(some .cold, m.cold), (some .compiled, m.compiled), (some .warm, m.warm)].filter
      (0 < ·.2)⟩

/-- The promotions. -/
def promotionsFamily (m : Meter) : Family :=
  ⟨"flock_promotions_total", "Programs promoted to a compiled artifact.", .counter,
    [(none, m.promotions)]⟩

/-- The counts of a meter, on show or not. -/
def counts (m : Meter) : List Family := [m.executionsFamily, m.promotionsFamily]

/-- Everything on show, given the size of the watched cache. -/
def families (m : Meter) (size : Option Nat) : List Family :=
  (size.map entriesFamily).toList ++ if m.registered then m.counts else []

end Meter

namespace Family

/-- The samples one a line, in short. -/
def lines (f : Family) : List Text :=
  f.samples.map fun (tier, n) =>
    Text.ofString f.name ++ Text.ofString "\x7b" ++
      (match tier with
        | some t => Text.ofString "tier=" ++ t.text
        | none => []) ++
      Text.ofString "\x7d " ++ Text.ofNat n

/-- The name of a kind of family. -/
def kindName : FamilyKind → Text
  | .gauge => Text.ofString "gauge"
  | .counter => Text.ofString "counter"

/-- A count in the text form: from a million on, its digits without the zeros at the end, and a
power of ten. -/
def countText (n : Nat) : Text :=
  let digits := Text.ofNat n
  if digits.length ≤ 6 then digits
  else
    let exponent := Text.ofNat (digits.length - 1)
    let kept := (digits.reverse.dropWhile (· = Text.byte '0')).reverse
    kept.take 1 ++ (if kept.length = 1 then [] else Text.byte '.' :: kept.drop 1) ++
      Text.ofString "e+" ++ (if exponent.length = 1 then Text.byte '0' :: exponent else exponent)

/-- The family in the text form; a family without samples is left out. -/
def text (f : Family) : Text :=
  if f.samples.isEmpty then []
  else
    Text.ofString "# HELP " ++ Text.ofString f.name ++ Text.ofString " " ++ Text.ofString f.help ++
      Text.ofString "\n# TYPE " ++ Text.ofString f.name ++ Text.ofString " " ++ kindName f.kind ++
      Text.ofString "\n" ++
      f.samples.flatMap fun (tier, n) =>
        Text.ofString f.name ++
          (match tier with
            | some t => Text.ofString "\x7btier=\"" ++ t.text ++ Text.ofString "\"\x7d"
            | none => []) ++
          Text.ofString " " ++ countText n ++ Text.ofString "\n"

end Family
end Birdcall
