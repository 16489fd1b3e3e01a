import Birdcall.Proofs.Number
import Birdcall.Proofs.Overlay

/-!
# Reading configurations

From a document with settings and words a configuration takes the settings as they are, and the
words as their scalars are decoded.
-/

namespace Birdcall.Config

open Yaml Yaml.Decode Yaml.Written

variable {root : Node} {c : Config}

/-! ## Words -/

/-- What the words of some lines are decoded to; nothing if one of them is malformed. -/
def words? : List (List Char × Text) → Option (List (Text × Text))
  | [] => some []
  | (w, t) :: es => (word? t).bind fun back => (words? es).map fun ws => (Text.encode w, back) :: ws

theorem words?_eq_none {es : List (List Char × Text)} (h : foundAll? es = none) :
    words? es = none := by
  induction es with
  | nil => cases h
  | cons e es ih =>
    obtain ⟨w, t⟩ := e
    rw [foundAll?, Option.bind_eq_none_iff] at h
    rw [words?, Option.bind_eq_none_iff]
    intro back hback
    cases hfound : found? t with
    | none => simp [found?_eq_none.1 hfound] at hback
    | some f =>
      have hall := Option.map_eq_none_iff.1 (h f hfound)
      rw [ih hall]
      rfl

/-- A plain key that is a text. -/
theorem gives_key (m : Mark) {w : List Char}
    (h : Read.scalarTag (Text.encode w) .plain = .str) :
    Gives (text root (.scalar m none (Read.scalarTag (Text.encode w) .plain) (Text.encode w)))
      (some (Text.encode w)) :=
  gives_text m (.inl ⟨.inl h, rfl⟩)

/-- A word with a new key comes behind the ones before. -/
theorem gives_word {key back : Text} {k v : Node} {words : List (Text × Text)} {merged : Bool}
    {earlier : List Text} (hnew : ∀ w ∈ words, w.1 ≠ key)
    (hword : Gives (text root v) (some back)) :
    Gives ((wordReceiver root).pair merged earlier key k v words) (words ++ [(key, back)]) := by
  have hfilter : words.filter (·.1 ≠ key) = words := by simpa using hnew
  refine hword.bind ?_
  simp only [Option.some_or, hfilter]
  exact gives_pure _

/-- The words are taken in order. -/
theorem takes_words {es : List (List Char × Text)} {fs : List (List Char × Found)}
    {inner : List (Node × Node)} {earlier : List Text} {words : List (Text × Text)}
    (hfound : foundAll? es = some fs) (hholds : Holds inner fs)
    (htags : ∀ e ∈ es, Read.scalarTag (Text.encode e.1) .plain = .str)
    (hkeys : (words.map (·.1) ++ es.map fun e => Text.encode e.1).Nodup) :
    ∃ ws, words? es = some ws ∧
      Takes root (wordReceiver root) earlier words inner (words ++ ws) := by
  induction es generalizing fs inner earlier words with
  | nil =>
    obtain rfl : [] = fs := by simpa [foundAll?] using hfound
    cases hholds
    exact ⟨[], rfl, by simpa using .nil earlier words⟩
  | cons e es ih =>
    obtain ⟨w, t⟩ := e
    simp only [foundAll?, Option.bind_eq_some_iff, Option.map_eq_some_iff] at hfound
    obtain ⟨f, hf, fs, hfs, rfl⟩ := hfound
    obtain ⟨htag, htags⟩ := List.forall_mem_cons.1 htags
    cases hholds with
    | cons m n _ _ hholds =>
    obtain ⟨back, hback, hword⟩ := gives_found n hf
    have hnew : ∀ p ∈ words, p.1 ≠ Text.encode w := by
      intro p hp
      exact (List.nodup_append.1 hkeys).2.2 _ (List.mem_map_of_mem hp) _ List.mem_cons_self
    have hothers : ((words ++ [(Text.encode w, back)]).map (·.1) ++
        es.map fun e => Text.encode e.1).Nodup := by
      simpa using hkeys
    obtain ⟨ws, hws, htakes⟩ := ih hfs hholds htags hothers
    refine ⟨(Text.encode w, back) :: ws, by simp [words?, hback, hws], ?_⟩
    exact .cons (by simp [isMerge, htag]) (gives_key m htag) (gives_word hnew hword)
      (by simpa using htakes)

theorem keys_foundAll? {es : List (List Char × Text)} {fs : List (List Char × Found)}
    (h : foundAll? es = some fs) :
    (fs.map fun f => Text.encode f.1) = es.map fun e => Text.encode e.1 := by
  induction es generalizing fs with
  | nil =>
    obtain rfl : [] = fs := by simpa [foundAll?] using h
    rfl
  | cons e es ih =>
    simp only [foundAll?, Option.bind_eq_some_iff, Option.map_eq_some_iff] at h
    obtain ⟨f, -, fs, hfs, rfl⟩ := h
    simp [ih hfs]

theorem values_holds {pairs : List (Node × Node)} {fs : List (List Char × Found)}
    (h : Holds pairs fs) : pairs.map (·.1.value) = fs.map fun f => Text.encode f.1 := by
  induction h with
  | nil => rfl
  | cons m n w f _ ih => exact congrArg (Text.encode w :: ·) ih

/-- The symbols are laid over the ones before. -/
theorem gives_symbols (m : Mark) {es : List (List Char × Text)} {fs : List (List Char × Found)}
    {inner : List (Node × Node)} (hfound : foundAll? es = some fs) (hholds : Holds inner fs)
    (htags : ∀ e ∈ es, Read.scalarTag (Text.encode e.1) .plain = .str)
    (hkeys : (es.map fun e => Text.encode e.1).Nodup) :
    ∃ ws, words? es = some ws ∧ ∀ before table, before.setAll ws = .ok table →
      Gives (decodeSymbols root (.mapping m none .map inner) before) table := by
  have hdistinct : Distinct inner := by
    rw [Distinct, values_holds hholds, keys_foundAll? hfound]
    exact hkeys
  obtain ⟨ws, hws, htakes⟩ : ∃ ws, words? es = some ws ∧
      Takes root (wordReceiver root) [] [] inner ([] ++ ws) :=
    takes_words hfound hholds htags (by simpa using hkeys)
  refine ⟨ws, hws, fun before table htable => gives_entering (by simp) ?_⟩
  have hwords : Gives (decodeWords root (.mapping m none .map inner)) ws :=
    gives_entering (by simp) (htakes.mapping hdistinct)
  obtain ⟨n, hrun⟩ := hwords 0
  have hrun : (decodeWords root (.mapping m none .map inner)).run .empty = .ok ws (.seen n) := hrun
  have hnull : isNull root (.mapping m none .map inner) = false := by simp [isNull, tagOf?, follow]
  simp only [hnull, hrun, htable]
  exact gives_pure table

/-! ## Settings -/

theorem gives_threshold (m : Mark) {n : Nat} {ds : List Char}
    (hds : Text.encode ds = Text.ofNat n) (hn : n < Text.integerLimit) :
    Gives (integer root (.scalar m none (Read.scalarTag (Text.encode ds) .plain) (Text.encode ds)))
      (some (n : Int)) := by
  have hmerge : Text.ofNat n ≠ Text.ofString "<<" := by
    intro heq
    have hdigit : ∀ b ∈ Text.ofNat n, Text.isDigit b = true := Text.isDigit_of_mem_ofNat
    rw [heq] at hdigit
    exact absurd hdigit (by decide)
  have htag : Read.scalarTag (Text.ofNat n) .plain = .int := by
    rw [Read.scalarTag, if_neg hmerge, Value.ofPlain_ofNat true hn]
  have hvalue : Value.ofTagged? .int (Text.ofNat n) = some (.int, .integer n) := by
    simp [Value.ofTagged?, Value.ofPlain_ofNat false hn]
  rw [hds, htag]
  exact gives_entering (by simp) (gives_scalar m hvalue (by simp) (by simpa using hn))

/-- How a truth value is written. -/
def truthWord (b : Bool) : List Char := (if b then "true" else "false").toList

theorem gives_tiered (m : Mark) (b : Bool) :
    Gives (truth root (.scalar m none (Read.scalarTag (Text.encode (truthWord b)) .plain)
      (Text.encode (truthWord b)))) (some b) := by
  have htag : Read.scalarTag (Text.encode (truthWord b)) .plain = .bool := by
    cases b <;> decide
  have hvalue : Value.ofTagged? .bool (Text.encode (truthWord b)) = some (.bool, .bool b) := by
    cases b <;> decide
  rw [htag]
  exact gives_entering (by simp) (gives_scalar m hvalue (by simp) rfl)

/-- The settings of a configuration as they are written. -/
def settings (ds : List Char) (b : Bool) : List (List Char × List Char) :=
  [("threshold".toList, ds), ("tiered".toList, truthWord b)]

section Document

variable {m₂ m₃ : Mark} {pairs inner : List (Node × Node)} {n : Nat} {b : Bool}
  {ds : List Char} {table : SymbolTable} (hds : Text.encode ds = Text.ofNat n)
  (hn : n < Text.integerLimit) (hpairs : Holds pairs ((settings ds b).map Read.setting))

/-- The pair of the symbols. -/
def symbolPair (m₂ m₃ : Mark) (inner : List (Node × Node)) : Node × Node :=
  (.scalar m₂ none (Read.scalarTag (Text.encode "symbols".toList) .plain)
    (Text.encode "symbols".toList), .mapping m₃ none .map inner)

include hpairs in
theorem distinct_settings : Distinct (pairs ++ [symbolPair m₂ m₃ inner]) := by
  rw [Distinct, List.map_append, values_holds hpairs]
  exact show fields.Nodup by decide

include hds hn hpairs in
theorem takes_settings
    (hsymbols : Gives (decodeSymbols root (.mapping m₃ none .map inner) .default) table) :
    Takes root (receiver root) [] .default (pairs ++ [symbolPair m₂ m₃ inner]) ⟨n, b, table⟩ := by
  cases hpairs with
  | cons _ m₄ _ _ hpairs =>
  cases hpairs with
  | cons _ m₅ _ _ hpairs =>
  cases hpairs
  have hthreshold : Read.scalarTag (Text.encode "threshold".toList) .plain = .str := by decide
  have htiered : Read.scalarTag (Text.encode "tiered".toList) .plain = .str := by decide
  have hkey : Read.scalarTag (Text.encode "symbols".toList) .plain = .str := by decide
  have hfirst : Text.ofString "tiered" ∉ [Text.ofString "threshold"] := by decide
  have hsecond : Text.ofString "symbols" ∉ [Text.ofString "tiered", Text.ofString "threshold"] := by
    decide
  refine .cons rfl (gives_key _ hthreshold)
    (receive_threshold (by simp) (gives_threshold m₄ hds hn)) ?_
  refine .cons rfl (gives_key _ htiered) (receive_tiered hfirst (gives_tiered m₅ b)) ?_
  exact .cons rfl (gives_key _ hkey) (receive_symbols hsecond hsymbols) (.nil _ _)

end Document

/-- The error of a malformed configuration. -/
def malformed : Stop :=
  .failed (.during (Text.ofString "failed to decode config") (.config .malformed))

theorem parse_malformed {t : Text} (h : firstDocument? t = none) : parse t = .error malformed := by
  rw [parse, decode, h]
  rfl

theorem parse_node {t : Text} (hfirst : firstDocument? t = some (some root))
    (hroot : Gives (ofNode root .default) c) (hc : 0 ≤ c.threshold) : parse t = .ok c := by
  obtain ⟨n, hrun⟩ := hroot 0
  have hrun : (ofNode root .default).run .empty = .ok c (.seen n) := hrun
  have hdecode : decode t = .ok c := by
    simp only [decode, hfirst, hrun]
    rfl
  exact parse_eq_ok_iff.2 ⟨hdecode, hc⟩

/-- From a document the settings are read as they are, and the words as they are decoded. -/
theorem parse_document {t : Text} {es : List (List Char × Text)} {n : Nat} {b : Bool}
    {ds : List Char} (hds : Text.encode ds = Text.ofNat n) (hn : n < Text.integerLimit)
    (hts : (readTokens (.ofText t)).map (·.kind) =
      documentKinds (settings ds b) "symbols".toList es)
    (htags : ∀ e ∈ es, Read.scalarTag (Text.encode e.1) .plain = .str)
    (hkeys : (es.map fun e => Text.encode e.1).Nodup) :
    (words? es = none → parse t = .error malformed) ∧
      ∀ ws table, words? es = some ws → SymbolTable.default.setAll ws = .ok table →
        parse t = .ok ⟨n, b, table⟩ := by
  obtain ⟨hnone, hsome⟩ := Read.run_document hts
  cases hfound : foundAll? es with
  | none =>
    refine ⟨fun _ => parse_malformed (by simp [firstDocument?, hnone hfound]), ?_⟩
    rintro ws table hws -
    rw [words?_eq_none hfound] at hws
    cases hws
  | some fs =>
    obtain ⟨m₁, m₂, m₃, pairs, inner, rest, hpairs, hinner, hread⟩ := hsome fs hfound
    have hfirst : firstDocument? t =
        some (some (.mapping m₁ none .map (pairs ++ [symbolPair m₂ m₃ inner]))) := by
      rw [firstDocument?, hread]
      rfl
    obtain ⟨ws, hws, hsymbols⟩ := gives_symbols m₃ hfound hinner htags hkeys
    refine ⟨by simp [hws], fun ws' table hws' htable => parse_node hfirst ?_ (Int.natCast_nonneg n)⟩
    obtain rfl := Option.some.inj (hws.symm.trans hws')
    exact gives_visit.bind (gives_entering (by simp)
      ((takes_settings hds hn hpairs (hsymbols _ table htable)).mapping (distinct_settings hpairs)))

end Birdcall.Config
