import Birdcall.Config.Reading
import Birdcall.Proofs.Lexing
import Birdcall.Proofs.Yaml.Decode

/-!
# Symbols in any order

A mapping from letters to words has no order.  Its words are set one after the other in a table that
has words already, up to a key that is no letter.  As long as no two keys have the same capitals, it
does not matter in which order that is done.

* `Symbol.Letter` tells the letters of a symbol.  A key stands for a symbol if and only if it is one
  of these (`SymbolTable.symbolOf?_eq_some_iff`), so two keys for one symbol have the same capitals.
* `SymbolTable.Sets` says what is in a table after some words were set.  There is one such table at
  most (`SymbolTable.Sets.unique`), and it does not change when the words change places
  (`SymbolTable.Sets.perm`).
* `SymbolTable.setAll` fails if and only if there is a key that is no letter, and else gives that
  table (`SymbolTable.sets_setAll`).
-/

namespace Birdcall

/-! ## Letters -/

namespace Text

/-- A text in which nothing is replaced when it is read is made of its characters. -/
theorem Decodes.eq_encode {t : Text} {cs : List Char} (h : Decodes t cs)
    (hcs : Char.ofNat 0xFFFD ∉ cs) : t = encode cs := by
  induction h with
  | nil => rfl
  | char c _ ih =>
    rw [encode_cons, ← ih fun hmem => hcs (List.mem_cons_of_mem _ hmem)]
  | stray => exact absurd List.mem_cons_self hcs

section Case

variable {w small : Char} (hlow : 65 ≤ w.toNat) (hhigh : w.toNat < 73)
  (hsmall : small.toNat = w.toNat + 32)

include hlow hhigh hsmall

/-- A capital letter is the capital of itself and of the small letter only, if it comes before `I`:
that is the first one which a letter outside ASCII has for its capital. -/
theorem capital_letter_iff (c : Char) : capital c = w ↔ c = w ∨ c = small := by
  have hascii : w.toNat < 0x80 ∧ w ≠ 'I' ∧ w ≠ 'S' := by
    refine ⟨by omega, ?_, ?_⟩
    · intro heq
      exact absurd (heq ▸ hhigh) (by decide)
    · intro heq
      exact absurd (heq ▸ hhigh) (by decide)
  rw [capital_eq_iff hascii, toUpper_eq, ← Char.toNat_inj, ← Char.toNat_inj, ← Char.toNat_inj]
  split
  · rw [toNat_ofNat (by omega)]
    omega
  · omega

/-- A text of one letter is told by its capitals, up to its case. -/
theorem capitals_letter_iff (t : Text) :
    t.capitals = encode [w] ↔ t = encode [small] ∨ t = encode [w] := by
  have hcapital := capital_letter_iff hlow hhigh hsmall
  constructor
  · intro h
    rw [capitals, encode_inj] at h
    obtain ⟨c, hc, hw⟩ := List.map_eq_singleton_iff.1 h
    have hcase := (hcapital c).1 hw
    have hdecodes := decodes_decode t
    rw [hc] at hdecodes
    have hplain : Char.ofNat 0xFFFD ∉ [c] := by
      intro hmem
      have hbig : c.toNat = 0xFFFD := congrArg Char.toNat (List.mem_singleton.1 hmem).symm
      obtain rfl | rfl := hcase
      · omega
      · omega
    obtain rfl | rfl := hcase
    · exact .inr (hdecodes.eq_encode hplain)
    · exact .inl (hdecodes.eq_encode hplain)
  · intro h
    obtain rfl | rfl := h
    · rw [capitals_encode, List.map_singleton, (hcapital _).2 (.inr rfl)]
    · rw [capitals_encode, List.map_singleton, (hcapital _).2 (.inl rfl)]

end Case

end Text

namespace Symbol

/-- Whether a text is the letter of a symbol, small or capital. -/
def Letter (s : Symbol) (t : Text) : Prop :=
  s.known = true ∧ (t = [97 + s.code] ∨ t = [65 + s.code])

theorem eq_of_known {s : Symbol} (hs : s.known = true) :
    s = ⟨0⟩ ∨ s = ⟨1⟩ ∨ s = ⟨2⟩ ∨ s = ⟨3⟩ := by
  obtain ⟨code⟩ := s
  have hlt : code.toNat < 4 := of_decide_eq_true hs
  simp only [mk.injEq, ← UInt8.toNat_inj]
  show code.toNat = 0 ∨ code.toNat = 1 ∨ code.toNat = 2 ∨ code.toNat = 3
  omega

/-- The letters of a symbol are the texts whose capitals are its capital letter. -/
theorem letter_iff {s : Symbol} {t : Text} :
    s.Letter t ↔ s.known = true ∧ t.capitals = [65 + s.code] := by
  refine and_congr_right fun hs => ?_
  have hone : ∀ w small : Char, 65 ≤ w.toNat → w.toNat < 73 → small.toNat = w.toNat + 32 →
      (t = Text.encode [small] ∨ t = Text.encode [w] ↔ t.capitals = Text.encode [w]) :=
    fun _ _ hlow hhigh hsmall => (Text.capitals_letter_iff hlow hhigh hsmall t).symm
  obtain rfl | rfl | rfl | rfl := eq_of_known hs
  · exact hone 'A' 'a' (by decide) (by decide) (by decide)
  · exact hone 'B' 'b' (by decide) (by decide) (by decide)
  · exact hone 'C' 'c' (by decide) (by decide) (by decide)
  · exact hone 'D' 'd' (by decide) (by decide) (by decide)

/-- Letters of one symbol have the same capitals. -/
theorem Letter.capitals_eq {s : Symbol} {t u : Text} (ht : s.Letter t) (hu : s.Letter u) :
    t.capitals = u.capitals := by
  rw [(letter_iff.1 ht).2, (letter_iff.1 hu).2]

theorem code_toNat_inj {s s' : Symbol} : s.code.toNat = s'.code.toNat ↔ s = s' := by
  rw [UInt8.toNat_inj]
  exact ⟨fun h => congrArg mk h, congrArg code⟩

end Symbol

namespace SymbolTable

/-- A key stands for a symbol if and only if it is a letter of the symbol. -/
theorem symbolOf?_eq_some_iff {key : Text} {s : Symbol} :
    symbolOf? key = some s ↔ s.Letter key := by
  rw [Symbol.letter_iff]
  have hkeywords : ∀ w ∈ Kind.keywords, ∀ s ∈ w.2.symbol?,
      s.known = true ∧ Text.ofString w.1 = [65 + s.code] := by
    decide
  constructor
  · intro h
    cases hk : Kind.ofWord? key.capitals with
    | some k =>
      obtain ⟨w, hw, hcapitals, rfl⟩ := Kind.exists_keyword hk
      rw [symbolOf?, Token.classify_reserved hk] at h
      rw [hcapitals]
      exact hkeywords w hw s h
    | none =>
      rw [symbolOf?, Token.classify_identifier hk] at h
      cases h
  · rintro ⟨hs, hcapitals⟩
    have hword : Kind.ofWord? key.capitals = some (.symbol s) := by
      rw [hcapitals]
      obtain rfl | rfl | rfl | rfl := Symbol.eq_of_known hs <;> rfl
    rw [symbolOf?, Token.classify_reserved hword]
    obtain rfl | rfl | rfl | rfl := Symbol.eq_of_known hs <;> rfl

theorem symbolOf?_eq_none_iff {key : Text} :
    symbolOf? key = none ↔ ∀ s : Symbol, ¬ s.Letter key := by
  simp only [Option.eq_none_iff_forall_ne_some, ne_eq, symbolOf?_eq_some_iff]

/-! ## Tables -/

theorem get?_eq (t : SymbolTable) (s : Symbol) : t.get? s = t.toList[s.code.toNat]? := by
  rw [get?]
  generalize s.code.toNat = n
  rcases n with _ | _ | _ | _ | n <;> rfl

theorem toList_set (t : SymbolTable) (s : Symbol) (word : Text) :
    (t.set s word).toList = t.toList.set s.code.toNat word := by
  rw [set]
  generalize s.code.toNat = n
  rcases n with _ | _ | _ | _ | n <;> rfl

theorem get?_set (t : SymbolTable) {s : Symbol} (hs : s.known = true) (word : Text) (s' : Symbol) :
    (t.set s word).get? s' = if s' = s then some word else t.get? s' := by
  have hlt : s.code.toNat < t.toList.length := of_decide_eq_true hs
  rw [get?_eq, get?_eq, toList_set, List.getElem?_set]
  simp only [Symbol.code_toNat_inj, hlt, if_true, eq_comm]

theorem ext_get? {t u : SymbolTable} (h : ∀ s : Symbol, s.known = true → t.get? s = u.get? s) :
    t = u := by
  obtain ⟨a, b, c, d⟩ := t
  obtain ⟨a', b', c', d'⟩ := u
  have ha : a = a' := Option.some.inj (h ⟨0⟩ rfl)
  have hb : b = b' := Option.some.inj (h ⟨1⟩ rfl)
  have hc : c = c' := Option.some.inj (h ⟨2⟩ rfl)
  have hd : d = d' := Option.some.inj (h ⟨3⟩ rfl)
  rw [ha, hb, hc, hd]

/-- The table after some words were set: a symbol that one of the keys names has its word, and any
other symbol has the word it had. -/
structure Sets (before : SymbolTable) (entries : List (Text × Text)) (t : SymbolTable) : Prop where
  named : ∀ e ∈ entries, ∀ s : Symbol, s.Letter e.1 → t.get? s = some e.2
  others : ∀ s : Symbol, (∀ e ∈ entries, ¬ s.Letter e.1) → t.get? s = before.get? s

namespace Sets

variable {before t u : SymbolTable} {entries order : List (Text × Text)}

theorem unique (ht : before.Sets entries t) (hu : before.Sets entries u) : t = u := by
  refine ext_get? fun s _ => ?_
  by_cases h : ∃ e ∈ entries, s.Letter e.1
  · obtain ⟨e, he, hs⟩ := h
    rw [ht.named e he s hs, hu.named e he s hs]
  · have hother : ∀ e ∈ entries, ¬ s.Letter e.1 := by
      intro e he hs
      exact h ⟨e, he, hs⟩
    rw [ht.others s hother, hu.others s hother]

theorem perm (h : before.Sets entries t) (horder : order.Perm entries) : before.Sets order t := by
  constructor
  · intro e he
    exact h.named e (horder.mem_iff.1 he)
  · intro s hs
    exact h.others s fun e he => hs e (horder.mem_iff.2 he)

/-- A word is set in front of others, none of which is for the same symbol. -/
theorem cons {key word : Text} {s : Symbol} (hs : s.Letter key)
    (h : (before.set s word).Sets entries t)
    (hnew : ∀ e ∈ entries, e.1.capitals ≠ key.capitals) :
    before.Sets ((key, word) :: entries) t := by
  constructor
  · intro e he s' hs'
    obtain rfl | he := List.mem_cons.1 he
    · have hsame : s' = s := by
        rw [← symbolOf?_eq_some_iff] at hs hs'
        exact Option.some.inj (hs'.symm.trans hs)
      have hother : ∀ e ∈ entries, ¬ s.Letter e.1 := by
        intro e he hletter
        exact hnew e he (hletter.capitals_eq hs)
      rw [hsame, h.others s hother, get?_set before hs.1, if_pos rfl]
    · exact h.named e he s' hs'
  · intro s' hs'
    have hne : s' ≠ s := by
      intro heq
      exact hs' (key, word) List.mem_cons_self (heq ▸ hs)
    rw [h.others s' fun e he => hs' e (List.mem_cons_of_mem _ he), get?_set before hs.1, if_neg hne]

end Sets

/-! ## Setting words one after the other -/

theorem setAll_cons {before : SymbolTable} {key word : Text} {s : Symbol} (hs : s.Letter key)
    (entries : List (Text × Text)) :
    before.setAll ((key, word) :: entries) = (before.set s word).setAll entries := by
  rw [setAll, symbolOf?_eq_some_iff.2 hs]

/-- Setting words fails if and only if one of the keys is no letter. -/
theorem setAll_eq_error_iff (before : SymbolTable) (entries : List (Text × Text)) :
    (∃ key, before.setAll entries = .error key) ↔ ∃ e ∈ entries, ∀ s : Symbol, ¬ s.Letter e.1 := by
  induction entries generalizing before with
  | nil => simp [setAll]
  | cons e entries ih =>
    obtain ⟨key, word⟩ := e
    cases hkey : symbolOf? key with
    | none =>
      have hletter := symbolOf?_eq_none_iff.1 hkey
      rw [setAll, hkey]
      exact iff_of_true ⟨key, rfl⟩ ⟨_, List.mem_cons_self, hletter⟩
    | some s =>
      have hletter := symbolOf?_eq_some_iff.1 hkey
      have hfirst : ¬ ∀ s : Symbol, ¬ s.Letter key := fun hnone => hnone s hletter
      rw [setAll_cons hletter, ih, List.exists_mem_cons_iff]
      simp only [hfirst, false_or]

/-- If all keys are letters, no two of them with the same capitals, all words are set. -/
theorem sets_setAll (before : SymbolTable) {entries : List (Text × Text)}
    (hkeys : (entries.map (·.1.capitals)).Nodup)
    (hletters : ∀ e ∈ entries, ∃ s : Symbol, s.Letter e.1) :
    ∃ t, before.setAll entries = .ok t ∧ before.Sets entries t := by
  induction entries generalizing before with
  | nil => exact ⟨before, rfl, by simp, fun _ _ => rfl⟩
  | cons e entries ih =>
    obtain ⟨key, word⟩ := e
    obtain ⟨hnew, hkeys⟩ := List.nodup_cons.1 hkeys
    obtain ⟨⟨s, hs⟩, hletters⟩ := List.forall_mem_cons.1 hletters
    obtain ⟨t, ht, hsets⟩ := ih (before.set s word) hkeys hletters
    refine ⟨t, (setAll_cons hs entries).trans ht, hsets.cons hs fun e he heq => hnew ?_⟩
    exact List.mem_map.2 ⟨e, he, heq⟩

end SymbolTable

/-! ## Decoding -/

namespace Config

open Yaml Yaml.Decode

/-- A mapping whose words are decoded without a note is set in a table in the order they come in. -/
theorem outcome_decodeSymbols {root : Node} {m : Mark} {anchor : Option Text} {tag : Tag}
    {pairs : List (Node × Node)} {entries : List (Text × Text)} {tally : Tally} (htag : tag ≠ .null)
    (hwords : (decodeWords root (.mapping m anchor tag pairs)).run .empty = .ok entries tally)
    (hnotes : tally.notes = []) (before : SymbolTable) (n : Nat) :
    Act.outcome (decodeSymbols root (.mapping m anchor tag pairs) before) (.seen n) =
      ((before.setAll entries).mapError fun key =>
        .failed (.config (.unknownSymbol (m.line + 1) key)), .seen (n + 1)) := by
  have hnull : isNull root (.mapping m anchor tag pairs) = false := by
    simp [isNull, tagOf?, follow, htag]
  have hvisit : Act.outcome visit (.seen n) = (.ok (), .seen (n + 1)) := rfl
  rw [decodeSymbols, entering, Act.outcome_bind, hvisit]
  · simp only [hnull, hwords, hnotes]
    cases before.setAll entries with
    | ok table => rfl
    | error key => rfl
  · intro _ _ _ heq
    cases heq

/-- Words for letters are set in any order with the same result, if no two keys have the same
capitals.  It fails if and only if some key is no letter of a symbol, small or capital; else every
symbol that a key names has the word of the key, and every other symbol the word it had before.
Decoding a mapping of symbols comes to that. -/
theorem symbols_in_any_order (before : SymbolTable) (entries : List (Text × Text))
    (hkeys : (entries.map (·.1.capitals)).Nodup) :
    (∀ order : List (Text × Text), order.Perm entries →
      ((∃ key, before.setAll order = .error key) ↔
        ∃ e ∈ entries, ∀ s : Symbol, ¬ s.Letter e.1)) ∧
    ((∀ e ∈ entries, ∃ s : Symbol, s.Letter e.1) → ∃ table : SymbolTable,
      (∀ order : List (Text × Text), order.Perm entries → before.setAll order = .ok table) ∧
      (∀ e ∈ entries, ∀ s : Symbol, s.Letter e.1 → table.get? s = some e.2) ∧
      ∀ s : Symbol, (∀ e ∈ entries, ¬ s.Letter e.1) → table.get? s = before.get? s) ∧
    ∀ (root : Node) (m : Mark) (anchor : Option Text) (tag : Tag) (pairs : List (Node × Node))
      (tally : Tally) (n : Nat), tag ≠ .null →
      (decodeWords root (.mapping m anchor tag pairs)).run .empty = .ok entries tally →
      tally.notes = [] →
      (Act.outcome (decodeSymbols root (.mapping m anchor tag pairs) before) (.seen n)).1 =
        (before.setAll entries).mapError fun key =>
          .failed (.config (.unknownSymbol (m.line + 1) key)) := by
  refine ⟨fun order horder => ?_, fun hletters => ?_, ?_⟩
  · rw [SymbolTable.setAll_eq_error_iff]
    simp only [horder.mem_iff]
  · obtain ⟨table, -, htable⟩ := SymbolTable.sets_setAll before hkeys hletters
    refine ⟨table, fun order horder => ?_, htable.named, htable.others⟩
    have hkeys' : (order.map (·.1.capitals)).Nodup := (horder.map _).nodup_iff.2 hkeys
    have hletters' : ∀ e ∈ order, ∃ s : Symbol, s.Letter e.1 := fun e he =>
      hletters e (horder.mem_iff.1 he)
    obtain ⟨other, hother, hsets⟩ := SymbolTable.sets_setAll before hkeys' hletters'
    rw [hother, hsets.unique (htable.perm horder)]
  · intro root m anchor tag pairs tally n htag hwords hnotes
    rw [outcome_decodeSymbols htag hwords hnotes]

/-- A mapping of the small letter of the last symbol and the capital letter of the first one. -/
def endLetters : Node :=
  let here : Mark := ⟨0, 0, 0⟩
  let word (w : String) : Node := .scalar here none .str (Text.ofString w)
  .mapping here none .map [(word "d", word "rail"), (word "A", word "auk")]

theorem symbols_in_any_order_ends :
    let last := (Text.ofString "d", Text.ofString "rail")
    let first := (Text.ofString "A", Text.ofString "auk")
    let table : SymbolTable :=
      ⟨Text.ofString "auk", Text.ofString "goose", Text.ofString "swan", Text.ofString "rail"⟩
    ([last, first].map (·.1.capitals)).Nodup ∧
    SymbolTable.default.setAll [last, first] = .ok table ∧
    SymbolTable.default.setAll [first, last] = .ok table ∧
    (Act.outcome (decodeSymbols endLetters endLetters .default) (.seen 0)).1 = .ok table := by
  intro last first table
  have hcapitals : [last, first].map (·.1.capitals) = [[68], [65]] := by
    show [(Text.encode ['d']).capitals, (Text.encode ['A']).capitals] = _
    rw [Text.capitals_encode, Text.capitals_encode]
    rfl
  have hkeys : ([last, first].map (·.1.capitals)).Nodup := by
    rw [hcapitals]
    decide
  have hlast : Symbol.Letter ⟨3⟩ last.1 := ⟨rfl, .inl rfl⟩
  have hfirst : Symbol.Letter ⟨0⟩ first.1 := ⟨rfl, .inr rfl⟩
  have hboth : SymbolTable.default.setAll [last, first] = .ok table := by
    rw [SymbolTable.setAll_cons hlast, SymbolTable.setAll_cons hfirst]
    rfl
  obtain ⟨-, hsets, hdecode⟩ := symbols_in_any_order .default [last, first] hkeys
  obtain ⟨found, horders, -⟩ := hsets (by simpa using ⟨⟨_, hlast⟩, _, hfirst⟩)
  obtain rfl : found = table := Except.ok.inj ((horders _ (.refl _)).symm.trans hboth)
  have hwords : (decodeWords endLetters endLetters).run .empty = .ok [last, first] (.seen 5) :=
    rfl
  refine ⟨hkeys, hboth, horders _ (.swap last first []), ?_⟩
  refine (hdecode endLetters _ _ _ _ _ 0 (by decide) hwords rfl).trans ?_
  rw [hboth]
  rfl

end Config
end Birdcall
