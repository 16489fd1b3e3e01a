import Birdcall.Config.Reading
import Birdcall.Proofs.Yaml.Bounds
import Birdcall.Proofs.Yaml.Decode

/-!
# Laying documents over configurations

What a configuration makes of the keys and values of a document, however the document was written.

* Overlay.  `Config.ensures_pair` says what one pair can change, so a field whose key is nowhere in
  the document is as it was (`Config.Over`), and the others take the values of their pairs
  (`Config.receive_threshold` and its like).
* Validation.  What is decoded is taken if its threshold is not negative, and only then
  (`Config.parse_eq_ok_iff`).

What the letters of symbols do is told in `Proofs.Symbols`, and how text becomes a document in
`Proofs.Yaml`.
-/

namespace Birdcall.Config

open Yaml Yaml.Decode

variable {root k v : Node} {c : Config} {t : Text} {merged : Bool} {earlier : List Text}

/-! ## Pairs -/

theorem receive_threshold {n : Int} (hnew : Text.ofString "threshold" ∉ earlier)
    (h : Gives (integer root v) (some n)) :
    Gives ((receiver root).pair merged earlier (Text.ofString "threshold") k v c)
      { c with threshold := n } := by
  have hfield : Text.ofString "threshold" ∈ fields := by decide
  simp only [receiver, List.contains_eq_mem, hfield, hnew]
  exact h.map _

theorem receive_tiered {b : Bool} (hnew : Text.ofString "tiered" ∉ earlier)
    (h : Gives (truth root v) (some b)) :
    Gives ((receiver root).pair merged earlier (Text.ofString "tiered") k v c)
      { c with tiered := b } := by
  have hfield : Text.ofString "tiered" ∈ fields := by decide
  have hthreshold : Text.ofString "tiered" ≠ Text.ofString "threshold" := by decide
  simp only [receiver, List.contains_eq_mem, hfield, hnew, hthreshold]
  exact h.map _

theorem receive_symbols {table : SymbolTable} (hnew : Text.ofString "symbols" ∉ earlier)
    (h : Gives (decodeSymbols root v c.symbols) table) :
    Gives ((receiver root).pair merged earlier (Text.ofString "symbols") k v c)
      { c with symbols := table } := by
  have hfield : Text.ofString "symbols" ∈ fields := by decide
  have hthreshold : Text.ofString "symbols" ≠ Text.ofString "threshold" := by decide
  have htiered : Text.ofString "symbols" ≠ Text.ofString "tiered" := by decide
  simp only [receiver, List.contains_eq_mem, hfield, hnew, hthreshold, htiered]
  exact h.map _

/-- A pair changes one field at most, the one that its key names. -/
theorem ensures_pair {P : Config → Prop} {key : Text} (hc : P c)
    (hthreshold : key = Text.ofString "threshold" →
      Ensures (fun n => P { c with threshold := n.getD c.threshold }) (integer root v))
    (htiered : key = Text.ofString "tiered" → ∀ b, P { c with tiered := b })
    (hsymbols : key = Text.ofString "symbols" → ∀ table, P { c with symbols := table }) :
    Ensures P ((receiver root).pair merged earlier key k v c) := by
  simp only [receiver]
  by_cases hfield : key ∈ fields
  · by_cases hearlier : key ∈ earlier
    · simp only [List.contains_eq_mem, hfield, hearlier]
      exact ensures_bind _ fun _ => ensures_pure hc
    · simp only [List.contains_eq_mem, hfield, hearlier]
      by_cases h : key = Text.ofString "threshold"
      · simp only [h]
        exact (hthreshold h).bind fun n hn => ensures_pure hn
      · by_cases h' : key = Text.ofString "tiered"
        · simp only [h']
          exact ensures_bind _ fun b => ensures_pure (htiered h' _)
        · have hkey : key = Text.ofString "symbols" := by simpa [fields, h, h'] using hfield
          simp only [h, h']
          exact ensures_bind _ fun table => ensures_pure (hsymbols hkey table)
  · simp only [List.contains_eq_mem, hfield]
    exact ensures_bind _ fun _ => ensures_pure hc

/-! ## Documents -/

/-- What every pair keeps holds of what a document is decoded to. -/
theorem ensures_ofNode {P : Config → Prop} (hP : (receiver root).Keeps root P) (hc : P c) :
    Ensures P (ofNode root c) := by
  refine ensures_bind _ fun _ => ensures_entering root ?_
  have hinside := Node.inside_follow (.self root)
  cases hfollow : follow root root with
  | mapping start anchor tag pairs =>
    rw [hfollow] at hinside
    exact ensures_mapping hP ⟨start, anchor, tag, hinside⟩ hc
  | _ => exact ensures_bind _ fun _ => ensures_pure hc

theorem keeps_of_decode {P : Config → Prop} (h : decode t = .ok c) (hdefault : P .default)
    (hP : ∀ root, firstDocument? t = some (some root) → (receiver root).Keeps root P) : P c := by
  rw [decode] at h
  split at h
  next => cases h
  next =>
    cases h
    exact hdefault
  next root hroot =>
    split at h
    next => cases h
    next hrun =>
      split at h
      next =>
        cases h
        exact ensures_ofNode (hP root hroot) hdefault _ _ _ hrun
      next => cases h

/-- One configuration is laid over another: it differs from it in given fields only. -/
structure Over (Given : Text → Prop) (before c : Config) : Prop where
  threshold : ¬ Given (Text.ofString "threshold") → c.threshold = before.threshold
  tiered : ¬ Given (Text.ofString "tiered") → c.tiered = before.tiered
  symbols : ¬ Given (Text.ofString "symbols") → c.symbols = before.symbols

theorem keeps_over {Given : Text → Prop} (hgiven : ∀ key, Names root key → Given key)
    (before : Config) : (receiver root).Keeps root (Over Given before) := by
  intro merged earlier key k v c hnames hc
  have hkey := hgiven key hnames
  refine ensures_pair hc ?_ ?_ ?_
  · rintro rfl
    exact fun _ _ _ _ => ⟨fun hnot => absurd hkey hnot, hc.tiered, hc.symbols⟩
  · rintro rfl b
    exact ⟨hc.threshold, fun hnot => absurd hkey hnot, hc.symbols⟩
  · rintro rfl table
    exact ⟨hc.threshold, hc.tiered, fun hnot => absurd hkey hnot⟩

/-- The threshold is below the limit of 64 bits. -/
def Fits (c : Config) : Prop := c.threshold < Text.integerLimit

theorem keeps_fits (root : Node) : (receiver root).Keeps root Fits := by
  intro merged earlier key k v c _ hc
  refine ensures_pair hc ?_ (fun _ _ => hc) (fun _ _ => hc)
  intro _ t n t' hrun
  have hn := ensures_integer v t n t' hrun
  cases n with
  | none => exact hc
  | some n => exact hn n rfl

/-! ## Validation -/

theorem parse_of_decode (h : decode t = .ok c) :
    parse t = if c.threshold < 0 then .error (.failed (.config (.negativeThreshold c.threshold)))
      else .ok c := by
  have hok : (decode t).mapError (·.during (Text.ofString "failed to decode config")) = .ok c := by
    rw [h]
    rfl
  rw [parse, hok]
  by_cases hc : c.threshold < 0
  · simp [Bind.bind, Except.bind, validate, hc]
  · simp [Bind.bind, Except.bind, validate, hc]

/-- What is decoded is taken if its threshold is not negative, and only then. -/
theorem parse_eq_ok_iff : parse t = .ok c ↔ decode t = .ok c ∧ 0 ≤ c.threshold := by
  constructor
  · intro h
    cases hdecode : decode t with
    | error stop =>
      rw [parse, hdecode] at h
      cases h
    | ok c' =>
      rw [parse_of_decode hdecode] at h
      split at h
      next => cases h
      next hc =>
        cases h
        exact ⟨rfl, by omega⟩
  · rintro ⟨hdecode, hc⟩
    rw [parse_of_decode hdecode, if_neg (by omega)]

/-- What is read is not negative and has 64 bits. -/
theorem threshold_of_parse (h : parse t = .ok c) : 0 ≤ c.threshold ∧ Fits c := by
  obtain ⟨hdecode, hc⟩ := parse_eq_ok_iff.1 h
  have hdefault : Fits .default := show (10 : Int) < Text.integerLimit by decide
  exact ⟨hc, keeps_of_decode hdecode hdefault fun root _ => keeps_fits root⟩

/-- What is read is the stock configuration in all fields whose keys are not in the document. -/
theorem over_of_parse (h : parse t = .ok c) :
    Over (fun key => ∃ root, firstDocument? t = some (some root) ∧ Names root key) .default c :=
  keeps_of_decode (parse_eq_ok_iff.1 h).1 ⟨fun _ => rfl, fun _ => rfl, fun _ => rfl⟩
    fun root hroot => keeps_over (fun _ hkey => ⟨root, hroot, hkey⟩) .default

end Birdcall.Config
