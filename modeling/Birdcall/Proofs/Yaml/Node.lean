import Birdcall.Proofs.Yaml.Lines
import Birdcall.Yaml.Node

/-!
# Nodes of a document

The tokens of a document are read as a mapping: its settings, and a mapping inside.  Tokens that end
in a key mark, as those in front of a malformed value do, spell no document.
-/

namespace Birdcall.Yaml

namespace Read

variable {h : Handles} {t u v : Token} {ts : List Token} {as : List (Text × Nat)} {x y : Text}
  {style : Style}

theorem run_peek : peek.run ⟨t :: ts, as⟩ = some (t, ⟨t :: ts, as⟩) := rfl

theorem run_next : next.run ⟨t :: ts, as⟩ = some (t, ⟨ts, as⟩) := rfl

theorem node_scalar (fuel : Nat) (inBlock hanging : Bool) (ht : t.kind = .scalar x style) :
    (node h (fuel + 1) inBlock hanging).run ⟨t :: ts, as⟩ =
      some (.scalar t.start none (scalarTag x style) x, ⟨ts, as⟩) := by
  simp [node, peek, next, properties, remember, tagOr, ht]

theorem node_binary (fuel : Nat) (inBlock hanging : Bool)
    (ht : t.kind = .tag (Text.ofString "!!") (Text.ofString "binary"))
    (hu : u.kind = .scalar x style) :
    (node defaultHandles (fuel + 1) inBlock hanging).run ⟨t :: u :: ts, as⟩ =
      some (.scalar t.start none .binary x, ⟨ts, as⟩) := by
  have htag : fullTag defaultHandles (Text.ofString "!!") (Text.ofString "binary") =
      pure (Tag.longForm ++ Text.ofString "binary") := by
    rfl
  have hlong : ((Tag.longForm ++ Text.ofString "binary").isEmpty ||
      Tag.longForm ++ Text.ofString "binary" = [Text.byte '!']) = false := by
    decide
  have hbinary : Tag.ofText (Tag.longForm ++ Text.ofString "binary") = .binary := by decide
  have hname : tagOr ⟨t.start, none, some (Tag.longForm ++ Text.ofString "binary")⟩
      (scalarTag x style) = .binary := by
    simp only [tagOr, hlong, hbinary]
    rfl
  simp [node, peek, next, properties, remember, ht, hu, htag, hname]

theorem node_mapping (fuel : Nat) (hanging : Bool) (ht : t.kind = .blockMapping) :
    (node h (fuel + 1) true hanging).run ⟨t :: ts, as⟩ =
      ((blockPairs h fuel).run ⟨ts, as⟩).map fun x =>
        (.mapping t.start none .map x.1, x.2) := by
  simp [node, peek, next, properties, remember, tagOr, ht]

/-- A pair of a block mapping with a plain key. -/
theorem blockPairs_pair (fuel : Nat) {w : Token} (ht : t.kind = .key)
    (hu : u.kind = .scalar x .plain) (hv : v.kind = .value)
    (hw : w.kind ≠ .key ∧ w.kind ≠ .value ∧ w.kind ≠ .blockEnd) :
    (blockPairs h (fuel + 2)).run ⟨t :: u :: v :: w :: ts, as⟩ =
      ((node h (fuel + 1) true true).run ⟨w :: ts, as⟩).bind fun n =>
        ((blockPairs h (fuel + 1)).run n.2).map fun rest =>
          ((.scalar u.start none (scalarTag x .plain) x, n.1) :: rest.1, rest.2) := by
  have hkey : (node h (fuel + 1) true true).run ⟨u :: v :: w :: ts, as⟩ = _ :=
    node_scalar fuel true true hu
  rw [blockPairs]
  simp [peek, next, isNext, ht, hu, hv, hw, hkey]

theorem blockPairs_end (fuel : Nat) (ht : t.kind = .blockEnd) :
    (blockPairs h (fuel + 1)).run ⟨t :: ts, as⟩ = some ([], ⟨ts, as⟩) := by
  simp [blockPairs, peek, next, ht]

/-- A key mark with nothing behind it is malformed. -/
theorem blockPairs_cut (fuel : Nat) (ht : t.kind = .key) :
    (blockPairs h (fuel + 1)).run ⟨[t], as⟩ = none := by
  cases t
  cases ht
  rfl

end Read

namespace Written

/-- The tag of a scalar as it is found. -/
def Found.tag (f : Found) : Tag := if f.binary then .binary else Read.scalarTag f.value f.style

/-- What the values of some lines are found to be; nothing if one of them is malformed. -/
def foundAll? : List (List Char × Text) → Option (List (List Char × Found))
  | [] => some []
  | (w, t) :: es => (found? t).bind fun f => (foundAll? es).map fun fs => (w, f) :: fs

/-- The nodes of lines with plain keys. -/
inductive Holds : List (Node × Node) → List (List Char × Found) → Prop
  | nil : Holds [] []
  | cons {pairs : List (Node × Node)} {fs : List (List Char × Found)} (m n : Mark) (w : List Char)
      (f : Found) (h : Holds pairs fs) :
      Holds ((.scalar m none (Read.scalarTag (Text.encode w) .plain) (Text.encode w),
        .scalar n none f.tag f.value) :: pairs) ((w, f) :: fs)

end Written

namespace Read

open Written

/-- A scalar as it is found is read as a node. -/
theorem node_found (fuel : Nat) (f : Found) {ts : List Token} {ks : List TokenKind}
    (as : List (Text × Nat)) (hts : ts.map (·.kind) = f.kinds ++ ks) :
    ∃ t ts' m rest, ts = t :: ts' ∧ (t.kind ≠ .key ∧ t.kind ≠ .value ∧ t.kind ≠ .blockEnd) ∧
      (node defaultHandles (fuel + 1) true true).run ⟨t :: ts', as⟩ =
        some (.scalar m none f.tag f.value, ⟨rest, as⟩) ∧
      rest.map (·.kind) = ks := by
  obtain ⟨binary, value, style⟩ := f
  cases binary with
  | true =>
    obtain ⟨t, ts, rfl, ht, hts⟩ := List.map_eq_cons_iff.1 hts
    obtain ⟨u, ts, rfl, hu, hts⟩ := List.map_eq_cons_iff.1 hts
    exact ⟨t, _, t.start, ts, rfl, by simp [ht], node_binary fuel true true ht hu, hts⟩
  | false =>
    obtain ⟨t, ts, rfl, ht, hts⟩ := List.map_eq_cons_iff.1 hts
    exact ⟨t, _, t.start, ts, rfl, by simp [ht], node_scalar fuel true true ht, hts⟩

theorem blockPairs_entries {es : List (List Char × Text)} {fuel : Nat} {ts : List Token}
    (as : List (Text × Nat)) (hts : ts.map (·.kind) = entryKinds es) (hfuel : ts.length < fuel) :
    (foundAll? es = none → (blockPairs defaultHandles fuel).run ⟨ts, as⟩ = none) ∧
      ∀ fs, foundAll? es = some fs →
        ∃ pairs t u, (blockPairs defaultHandles fuel).run ⟨ts, as⟩ = some (pairs, ⟨[t, u], as⟩) ∧
          t.kind = .blockEnd ∧ u.kind = .streamEnd ∧ Holds pairs fs := by
  induction es generalizing fuel ts with
  | nil =>
    obtain ⟨fuel, rfl⟩ : ∃ n, fuel = n + 1 := ⟨fuel - 1, by omega⟩
    obtain ⟨t, ts, rfl, ht, hts⟩ := List.map_eq_cons_iff.1 hts
    obtain ⟨u, ts, rfl, hu, hts⟩ := List.map_eq_cons_iff.1 hts
    obtain ⟨v, rfl, hv⟩ := List.map_eq_singleton_iff.1 hts
    refine ⟨by simp [foundAll?], ?_⟩
    rintro fs hfs
    obtain rfl : [] = fs := by simpa [foundAll?] using hfs
    exact ⟨[], u, v, blockPairs_end fuel ht, hu, hv, .nil⟩
  | cons e es ih =>
    obtain ⟨w, x⟩ := e
    rw [foundAll?]
    rw [entryKinds] at hts
    cases hfound : found? x with
    | none =>
      rw [hfound] at hts
      obtain ⟨t, rfl, ht⟩ := List.map_eq_singleton_iff.1 hts
      obtain ⟨fuel, rfl⟩ : ∃ n, fuel = n + 1 := ⟨fuel - 1, by omega⟩
      exact ⟨fun _ => blockPairs_cut _ ht, by simp⟩
    | some f =>
      rw [hfound] at hts
      obtain ⟨t, ts, rfl, ht, hts⟩ := List.map_eq_cons_iff.1 hts
      obtain ⟨u, ts, rfl, hu, hts⟩ := List.map_eq_cons_iff.1 hts
      obtain ⟨v, ts, rfl, hv, hts⟩ := List.map_eq_cons_iff.1 hts
      simp only [List.length_cons] at hfuel
      obtain ⟨fuel, rfl⟩ : ∃ n, fuel = n + 2 := ⟨fuel - 2, by omega⟩
      obtain ⟨t₁, ts, m, rest, rfl, hfirst, hnode, hrest⟩ := node_found fuel f as hts
      have hlength : rest.length ≤ (t₁ :: ts).length := by
        have hall := congrArg List.length hts
        rw [List.length_append, ← hrest, List.length_map, List.length_map] at hall
        omega
      obtain ⟨hnone, hsome⟩ := ih hrest (show rest.length < fuel + 1 by omega)
      rw [blockPairs_pair fuel ht hu hv hfirst, hnode, Option.bind_some, Option.bind_some]
      refine ⟨fun hall => ?_, fun fs hall => ?_⟩
      · rw [Option.map_eq_none_iff] at hall
        rw [hnone hall]
        rfl
      · obtain ⟨fs, hothers, rfl⟩ := Option.map_eq_some_iff.1 hall
        obtain ⟨pairs, t₂, t₃, hpairs, ht₂, ht₃, hholds⟩ := hsome fs hothers
        refine ⟨_, t₂, t₃, ?_, ht₂, ht₃, .cons u.start m w f hholds⟩
        rw [hpairs]
        rfl

/-- A setting as it is found. -/
def setting (p : List Char × List Char) : List Char × Found :=
  (p.1, ⟨false, Text.encode p.2, .plain⟩)

/-- Settings are read as pairs in front of others. -/
theorem blockPairs_settings {ps : List (List Char × List Char)} (fuel : Nat) {ts : List Token}
    {ks : List TokenKind} (as : List (Text × Nat))
    (hts : ts.map (·.kind) = ps.flatMap settingKinds ++ ks) :
    ∃ pairs rest, rest.map (·.kind) = ks ∧ Holds pairs (ps.map setting) ∧
      (blockPairs defaultHandles (ps.length + (fuel + 1))).run ⟨ts, as⟩ =
        ((blockPairs defaultHandles (fuel + 1)).run ⟨rest, as⟩).map fun x =>
          (pairs ++ x.1, x.2) := by
  induction ps generalizing ts with
  | nil => exact ⟨[], ts, hts, .nil, by simp⟩
  | cons p ps ih =>
    obtain ⟨t, ts, rfl, ht, hts⟩ := List.map_eq_cons_iff.1 hts
    obtain ⟨u, ts, rfl, hu, hts⟩ := List.map_eq_cons_iff.1 hts
    obtain ⟨v, ts, rfl, hv, hts⟩ := List.map_eq_cons_iff.1 hts
    obtain ⟨w, ts, rfl, hw, hts⟩ := List.map_eq_cons_iff.1 hts
    obtain ⟨pairs, rest, hrest, hholds, hread⟩ := ih hts
    refine ⟨_, rest, hrest, .cons u.start w.start p.1 ⟨false, Text.encode p.2, .plain⟩ hholds, ?_⟩
    have hfuel : (p :: ps).length + (fuel + 1) = (ps.length + fuel) + 2 := by
      rw [List.length_cons]
      omega
    have hnode : (node defaultHandles (ps.length + fuel + 1) true true).run ⟨w :: ts, as⟩ = _ :=
      node_scalar _ true true hw
    rw [hfuel, blockPairs_pair _ ht hu hv (by simp [hw]), hnode, Option.bind_some, Nat.add_assoc,
      hread, Option.map_map]
    rfl

/-- A document that is a block mapping. -/
theorem document_mapping (ht : u.kind = .blockMapping) :
    document.run ⟨t :: u :: ts, as⟩ =
      ((blockPairs defaultHandles (4 * ts.length + 7)).run ⟨ts, as⟩).bind fun x =>
        (peek.run x.2).map fun y => (some (.mapping u.start none .map x.1), y.2) := by
  have hnode : (node defaultHandles (4 * ts.length + 7 + 1) true false).run ⟨u :: ts, as⟩ = _ :=
    node_mapping _ false ht
  have hfuel : 4 * (ts.length + 1) + 4 = 4 * ts.length + 7 + 1 := by omega
  simp only [document, StateT.run_bind, StateT.run_get, run_peek, run_next, ht, List.length_cons,
    hfuel, hnode, Option.bind_eq_bind, Option.bind_some, pure_bind]
  cases (blockPairs defaultHandles (4 * ts.length + 7)).run ⟨ts, as⟩ with
  | none => rfl
  | some x => cases hpeek : peek.run x.2 <;> simp [hpeek]

/-- A document is read as a mapping. -/
theorem run_document {ps : List (List Char × List Char)} {w : List Char}
    {es : List (List Char × Text)} {ts : List Token}
    (hts : ts.map (·.kind) = documentKinds ps w es) :
    (foundAll? es = none → document.run ⟨ts, []⟩ = none) ∧
      ∀ fs, foundAll? es = some fs →
        ∃ m₁ m₂ m₃ pairs inner rest, Holds pairs (ps.map setting) ∧ Holds inner fs ∧
          document.run ⟨ts, []⟩ = some (some (.mapping m₁ none .map (pairs ++
            [(.scalar m₂ none (scalarTag (Text.encode w) .plain) (Text.encode w),
              .mapping m₃ none .map inner)])), rest) := by
  obtain ⟨t₀, ts, rfl, -, hts⟩ := List.map_eq_cons_iff.1 hts
  obtain ⟨t₁, ts, rfl, ht₁, hts⟩ := List.map_eq_cons_iff.1 hts
  have hlength : 4 * ps.length + 4 ≤ ts.length := by
    have hall := congrArg List.length hts
    simp only [List.length_append, List.length_map, List.length_cons, length_settingKinds] at hall
    omega
  obtain ⟨fuel, hfuel⟩ : ∃ n, 4 * ts.length + 7 = ps.length + (n + 1 + 1) :=
    ⟨4 * ts.length + 5 - ps.length, by omega⟩
  obtain ⟨pairs, rest, hrest, hpairs, hsettings⟩ := blockPairs_settings (fuel + 1) [] hts
  have hlength' : rest.length ≤ ts.length := by
    have hall := congrArg List.length hts
    rw [List.length_append, ← hrest, List.length_map, List.length_map] at hall
    omega
  obtain ⟨t, rest, rfl, ht, hrest⟩ := List.map_eq_cons_iff.1 hrest
  obtain ⟨u, rest, rfl, hu, hrest⟩ := List.map_eq_cons_iff.1 hrest
  obtain ⟨v, rest, rfl, hv, hrest⟩ := List.map_eq_cons_iff.1 hrest
  obtain ⟨b, rest, rfl, hb, hrest⟩ := List.map_eq_cons_iff.1 hrest
  simp only [List.length_cons] at hlength'
  have hmapping : (node defaultHandles (fuel + 1) true true).run ⟨b :: rest, []⟩ = _ :=
    node_mapping fuel true hb
  obtain ⟨hnone, hsome⟩ := blockPairs_entries [] hrest (show rest.length < fuel by omega)
  rw [document_mapping ht₁, hfuel, hsettings, blockPairs_pair fuel ht hu hv (by simp [hb]), hmapping]
  refine ⟨fun hall => ?_, fun fs hall => ?_⟩
  · rw [hnone hall]
    rfl
  · obtain ⟨inner, e, f, hinner, he, -, hholds⟩ := hsome fs hall
    refine ⟨t₁.start, u.start, b.start, pairs, inner, ⟨[f], []⟩, hpairs, hholds, ?_⟩
    rw [hinner, Option.map_some, Option.bind_some, blockPairs_end fuel he]
    rfl

end Read

end Birdcall.Yaml
