import Birdcall.Config.Rendering
import Birdcall.Proofs.Reading
import Birdcall.Proofs.Words
import Birdcall.Proofs.Yaml.Clean
import Birdcall.Proofs.Yaml.Supply

/-!
# Configurations written and read back

A configuration is written as a document with its settings and the words of its symbols
(`Config.render_eq`), whose tokens are read from its characters, whatever the words are.  Every word
comes back as it was, with one exception: a word of several lines is written as a block, and a block
does not show a line break at its beginning and may not begin with a tab.  `Config.Lost` describes
these words, and `Config.parse_render_iff` says that nothing else can go wrong.
-/

namespace Birdcall

/-! ## Plain values -/

namespace Yaml.Written

variable {cs : List Char}

theorem ne_of_isDigit {ch : Char} (h : ch.isDigit = true) (d : Char) (hd : d.isDigit = false) :
    ch ≠ d := by
  rintro rfl
  rw [h] at hd
  cases hd

theorem hasIndicator_digits (before : Option Char) (h : ∀ ch ∈ cs, ch.isDigit = true) :
    hasIndicator before cs = false := by
  induction cs generalizing before with
  | nil => rfl
  | cons ch cs ih =>
    obtain ⟨hch, hcs⟩ := List.forall_mem_cons.1 h
    unfold hasIndicator
    rw [ih (some ch) hcs]
    cases before <;> simp [ne_of_isDigit hch]

/-- Digits can be written plain. -/
theorem plain_digits (h : ∀ ch ∈ cs, ch.isDigit = true) : (looks cs).plain = true := by
  have hink : ∀ ch ∈ cs, ch ≠ ' ' ∧ ch ≠ '\t' ∧ isBreak ch = false ∧ isPrintable ch = true := by
    intro ch hch
    have hrange := Char.isDigit_iff_toNat.1 (h ch hch)
    have hprintable : isPrintable ch = true := by
      simp only [Char.reduceToNat] at hrange
      simp only [isPrintable, Bool.or_eq_true, Bool.and_eq_true, decide_eq_true_eq]
      omega
    simpa [isBreak, ne_of_isDigit (h ch hch)] using hprintable
  have hmark : beginsLikeMark cs = false := by
    unfold beginsLikeMark
    split
    · cases h '-' (by simp)
    · cases h '.' (by simp)
    · rfl
  have hedge : ∀ o : Option Char, (∀ ch ∈ o, ch ∈ cs) →
      (o.any fun c => c = ' ' || isBreak c) = false := by
    rintro (_ | ch) ho
    · rfl
    · simp [hink ch (ho ch rfl)]
  simp only [Looks.plain, looks, Bool.not_eq_true', Bool.or_eq_false_iff, List.any_eq_false]
  refine ⟨⟨⟨⟨⟨⟨⟨?_, ?_⟩, ?_⟩, ?_⟩, ?_⟩, ?_⟩, ?_⟩, hmark, hasIndicator_digits none h⟩
  · exact hedge _ fun ch => List.mem_of_mem_head?
  · exact hedge _ fun ch => List.mem_of_mem_getLast?
  · exact hasPair_eq_false fun a ha b _ => by simp [hink a ha]
  · exact hasPair_eq_false fun a ha b _ => by simp [hink a ha]
  · simpa using fun hmem => (hink '\t' hmem).2.1 rfl
  · intro ch hch
    simp [hink ch hch]
  · intro ch hch
    simp [hink ch hch]

/-! ## Lines -/

/-- The lines of a mapping, each with its margin. -/
theorem entries_eq (es : List (List Char × Text)) :
    List.replicate (margin es) ' ' ++ entries es =
      es.flatMap fun e => List.replicate 4 ' ' ++
        (e.1 ++ ':' :: ' ' :: (wordForm e.2 ++ lineEnd (wordForm e.2))) := by
  induction es with
  | nil => rfl
  | cons e es ih =>
    have hmargin : margin (e :: es) = 4 := rfl
    rw [hmargin, List.flatMap_cons, ← ih, entries]
    simp only [List.append_assoc, List.cons_append]

end Yaml.Written

namespace Config

open Yaml Yaml.Written

theorem encode_digits (n : Nat) : Text.encode (Nat.toDigits 10 n) = Text.ofNat n := by
  refine Text.encode_ascii fun ch hch => ?_
  have hdigit := Nat.isDigit_of_mem_toDigits (by decide) (by decide) hch
  have hrange := Char.isDigit_iff_toNat.1 hdigit
  simp only [Char.reduceToNat] at hrange
  omega

theorem encode_blanks (n : Nat) : Text.encode (List.replicate n ' ') = Text.blanks n := by
  rw [Text.encode_ascii, List.map_replicate, Text.blanks]
  intro ch hch
  rw [List.eq_of_mem_replicate hch]
  decide

theorem writePair_eq (depth : Nat) (w v : List Char) :
    writePair depth (Text.encode w) (Text.encode v) =
      Text.encode (List.replicate (4 * depth) ' ' ++ (w ++ ':' :: ' ' :: (v ++ lineEnd v))) := by
  have hcolon : Text.ofString ": " = Text.encode [':', ' '] := rfl
  have hfeed : [Text.lineFeed] = Text.encode ['\n'] := rfl
  have hends : endsLine (Text.encode v) = v.getLast?.any isBreak := by
    rw [endsLine, Text.decode_encode]
  simp only [writePair, step, hcolon, hends, hfeed, ← encode_blanks, ← Text.encode_append, lineEnd]
  split <;> simp

/-- The words of a table under their letters. -/
def letters (table : SymbolTable) : List (List Char × Text) :=
  [("a".toList, table.a), ("b".toList, table.b), ("c".toList, table.c), ("d".toList, table.d)]

theorem writeSymbol_eq (w : List Char) (word : Text) :
    writeSymbol (Text.encode w) word =
      Text.encode (List.replicate 4 ' ' ++
        (w ++ ':' :: ' ' :: (wordForm word ++ lineEnd (wordForm word)))) := by
  have hscalar : Yaml.Written.scalar step (2 * step) word = Text.encode (wordForm word) :=
    scalar_eq word
  rw [writeSymbol, hscalar, writePair_eq]

/-- A setting is one line. -/
theorem writeSetting_eq {w v : List Char} (hne : v ≠ []) (hplain : (looks v).plain = true) :
    writePair 0 (Text.encode w) (Text.encode v) =
      Text.encode (w ++ ':' :: ' ' :: (v ++ ['\n'])) := by
  rw [writePair_eq, lineEnd_plain hne hplain]
  rfl

theorem plain_truthWord (b : Bool) : truthWord b ≠ [] ∧ (looks (truthWord b)).plain = true := by
  cases b <;> decide

theorem plain_toDigits (n : Nat) :
    Nat.toDigits 10 n ≠ [] ∧ (looks (Nat.toDigits 10 n)).plain = true :=
  ⟨Nat.toDigits_ne_nil, plain_digits fun _ hch =>
    Nat.isDigit_of_mem_toDigits (by decide) (by decide) hch⟩

/-- A configuration is written as a document. -/
theorem render_eq (n : Nat) (b : Bool) (table : SymbolTable) :
    render ⟨n, b, table⟩ =
      Text.encode (document (settings (Nat.toDigits 10 n) b) "symbols".toList (letters table)) := by
  have hthreshold : writePair 0 (Text.ofString "threshold") (Text.ofInt n) = _ :=
    (congrArg _ (encode_digits n).symm).trans
      (writeSetting_eq (w := "threshold".toList) (plain_toDigits n).1 (plain_toDigits n).2)
  have htiered : writePair 0 (Text.ofString "tiered")
      (Text.ofString (if b then "true" else "false")) = _ :=
    writeSetting_eq (w := "tiered".toList) (plain_truthWord b).1 (plain_truthWord b).2
  have hheading : Text.ofString "symbols:\n" = Text.encode ("symbols".toList ++ [':', '\n']) := rfl
  have hentries := entries_eq (letters table)
  have hmargin : margin (letters table) = 4 := rfl
  rw [hmargin] at hentries
  rw [render, hthreshold, htiered, hheading, document, hentries]
  simp only [Text.ofString, writeSymbol_eq, ← Text.encode_append, settings, Written.settings,
    truthWord, letters, List.foldr_cons, List.foldr_nil, List.flatMap_cons, List.flatMap_nil,
    List.append_assoc, List.cons_append, List.nil_append, List.append_nil]

/-! ## Reading what is written -/

/-- The keys of a configuration are words of letters. -/
theorem keyWord_names : ∀ w ∈ ["threshold", "tiered", "symbols", "a", "b", "c", "d"],
    Scanner.KeyWord w.toList ∧ Clean w.toList := by
  intro w hw
  have hletters : ∀ w ∈ ["threshold", "tiered", "symbols", "a", "b", "c", "d"],
      w.toList ≠ [] ∧ w.toList.all Char.isAlpha = true ∧ w.toList.length ≤ 1024 ∧
        Clean w.toList := by
    decide
  obtain ⟨hne, halpha, hshort, hclean⟩ := hletters w hw
  exact ⟨Scanner.keyWord_of_letters hne (List.all_eq_true.1 halpha) hshort, hclean⟩

theorem readTokens_render (n : Nat) (b : Bool) (table : SymbolTable) :
    (readTokens (.ofText (render ⟨n, b, table⟩))).map (·.kind) =
      documentKinds (settings (Nat.toDigits 10 n) b) "symbols".toList (letters table) := by
  have hsettings : ∀ p ∈ settings (Nat.toDigits 10 n) b, Scanner.Setting p ∧ Clean p.1 := by
    have hthreshold := keyWord_names "threshold" (by simp)
    have htiered := keyWord_names "tiered" (by simp)
    have hdigits := plain_toDigits n
    have htruth := plain_truthWord b
    simp only [settings, List.forall_mem_cons]
    exact ⟨⟨⟨hthreshold.1, hdigits.1, hdigits.2⟩, hthreshold.2⟩,
      ⟨⟨htiered.1, htruth.1, htruth.2⟩, htiered.2⟩, by simp⟩
  have hletters : ∀ e ∈ letters table, Scanner.KeyWord e.1 ∧ Clean e.1 := by
    simp only [letters, List.forall_mem_cons]
    exact ⟨keyWord_names "a" (by simp), keyWord_names "b" (by simp), keyWord_names "c" (by simp),
      keyWord_names "d" (by simp), by simp⟩
  obtain ⟨hsymbols, hname⟩ := keyWord_names "symbols" (by simp)
  have hclean : Clean (document (settings (Nat.toDigits 10 n) b) "symbols".toList
      (letters table)) :=
    clean_document (fun p hp => ⟨(hsettings p hp).2, (hsettings p hp).1.plain⟩) hname
      fun e he => (hletters e he).2
  obtain ⟨tail, hcons⟩ : ∃ tail, document (settings (Nat.toDigits 10 n) b) "symbols".toList
      (letters table) = 't' :: tail := ⟨_, rfl⟩
  have hsupply := Supply.ofText_encode (c := 't') (by decide) (hcons ▸ hclean.isAllowed)
  rw [← hcons, ← render_eq] at hsupply
  exact readTokens_document hsupply.1 hsupply.2 hclean.ne_mark (fun p hp => (hsettings p hp).1)
    (by simp [settings]) hsymbols (fun e he => (hletters e he).1) (by simp [letters])

/-- The table that is read back from a written one; nothing if one of its words is malformed. -/
def readBack? (table : SymbolTable) : Option SymbolTable :=
  (word? table.a).bind fun a => (word? table.b).bind fun b => (word? table.c).bind fun c =>
    (word? table.d).map fun d => ⟨a, b, c, d⟩

theorem words?_letters (table : SymbolTable) :
    words? (letters table) =
      (readBack? table).map fun t => (letters t).map fun e => (Text.encode e.1, e.2) := by
  simp only [words?, letters, readBack?]
  cases word? table.a with
  | none => rfl
  | some a =>
    cases word? table.b with
    | none => rfl
    | some b =>
      cases word? table.c with
      | none => rfl
      | some c => cases word? table.d <;> rfl

/-- Every word is set. -/
theorem setAll_letters (before table : SymbolTable) :
    before.setAll ((letters table).map fun e => (Text.encode e.1, e.2)) = .ok table := by
  simp only [letters, List.map_cons, List.map_nil, SymbolTable.setAll, SymbolTable.symbolOf?,
    Token.classify, Text.capitals_encode]
  rfl

/-- What is read back from a configuration. -/
theorem parse_render {n : Nat} (hn : n < Text.integerLimit) (b : Bool) (table : SymbolTable) :
    parse (render ⟨n, b, table⟩) =
      (readBack? table).elim (.error malformed) fun table => .ok ⟨n, b, table⟩ := by
  have htags : ∀ w ∈ ["a", "b", "c", "d"],
      Read.scalarTag (Text.encode w.toList) .plain = .str := by
    decide
  have hnames : (["a", "b", "c", "d"].map fun w => Text.encode w.toList).Nodup := by decide
  obtain ⟨hnone, hsome⟩ := parse_document (encode_digits n) hn (readTokens_render n b table)
    (by simpa [letters] using htags) hnames
  cases hback : readBack? table with
  | none => exact hnone (by rw [words?_letters, hback]; rfl)
  | some back => exact hsome _ back (by rw [words?_letters, hback]; rfl) (setAll_letters _ back)

/-- A text that is written as a block and begins with a line break, which is then lost, or with a
tab, which no block may begin with. -/
def Lost (t : Text) : Prop :=
  Text.Valid t ∧ '\n' ∈ Text.decode t ∧ (looks (Text.decode t)).block = true ∧
    ((Text.decode t).head?.any fun ch => ch = '\t' || isBreak ch) = true

theorem readBack?_eq_some {cs : List Char} :
    Written.readBack? cs = some cs ↔
      ¬ ('\n' ∈ cs ∧ (looks cs).block = true ∧
        (cs.head?.any fun ch => ch = '\t' || isBreak ch) = true) := by
  by_cases hblock : '\n' ∈ cs ∧ (looks cs).block = true
  · obtain ⟨ch, rest, rfl⟩ := List.exists_cons_of_ne_nil (List.ne_nil_of_mem hblock.1)
    by_cases htab : ch = '\t'
    · simp [Written.readBack?, htab]
    · cases hbreak : isBreak ch with
      | true => simp [Written.readBack?, hblock, htab, hbreak]
      | false => simp [Written.readBack?, hblock, htab, hbreak]
  · simp only [not_and] at hblock
    simp_all [Written.readBack?]

theorem word?_encode (cs : List Char) :
    word? (Text.encode cs) = (Written.readBack? cs).map Text.encode := by
  have hvalid : Text.Valid (Text.encode cs) := by rw [Text.Valid, Text.decode_encode]
  rw [word?, if_pos hvalid, Text.decode_encode]

theorem word?_eq_some {t : Text} : word? t = some t ↔ ¬ Lost t := by
  rw [word?, Lost]
  by_cases hvalid : Text.Valid t
  · have htext : Text.encode (Text.decode t) = t := hvalid
    simp only [hvalid, if_true, true_and, ← readBack?_eq_some, Option.map_eq_some_iff]
    constructor
    · rintro ⟨cs, hcs, rfl⟩
      rwa [Text.decode_encode] at hcs ⊢
    · intro hback
      exact ⟨_, hback, htext⟩
  · simp [hvalid]

theorem readBack?_table {table : SymbolTable} :
    readBack? table = some table ↔ ∀ w ∈ table.toList, ¬ Lost w := by
  obtain ⟨a, b, c, d⟩ := table
  simp only [← word?_eq_some, SymbolTable.toList, List.forall_mem_cons, readBack?,
    Option.bind_eq_some_iff, Option.map_eq_some_iff, SymbolTable.mk.injEq]
  constructor
  · rintro ⟨_, ha, _, hb, _, hc, _, hd, rfl, rfl, rfl, rfl⟩
    exact ⟨ha, hb, hc, hd, by simp⟩
  · rintro ⟨ha, hb, hc, hd, -⟩
    exact ⟨a, ha, b, hb, c, hc, d, hd, rfl, rfl, rfl, rfl⟩

/-- A configuration is read back from its text exactly if its threshold is a natural number of 64
bits, and none of its words is lost. -/
theorem parse_render_iff (c : Config) :
    parse c.render = .ok c ↔
      (0 ≤ c.threshold ∧ c.threshold < Text.integerLimit) ∧ ∀ w ∈ c.symbols.toList, ¬ Lost w := by
  have hnatural : 0 ≤ c.threshold ∧ c.threshold < Text.integerLimit →
      (parse c.render = .ok c ↔ readBack? c.symbols = some c.symbols) := by
    obtain ⟨threshold, b, table⟩ := c
    rintro ⟨hzero, hlimit⟩
    obtain ⟨n, rfl⟩ := Int.eq_ofNat_of_zero_le hzero
    rw [parse_render (Int.ofNat_lt.1 hlimit)]
    cases readBack? table <;> simp
  rw [← readBack?_table]
  constructor
  · intro hparse
    have hbounds := threshold_of_parse hparse
    exact ⟨hbounds, (hnatural hbounds).1 hparse⟩
  · rintro ⟨hbounds, hback⟩
    exact (hnatural hbounds).2 hback

/-- Words that are empty, mean something else, have several lines with blanks around them or are no
UTF-8 come back. -/
theorem parse_render_awkward :
    parse (render ⟨0, false, ⟨Text.ofString "", Text.ofString "null", Text.ofString " a\n\tb\n",
        [0x61, 0xFF]⟩⟩) =
      .ok ⟨0, false, ⟨Text.ofString "", Text.ofString "null", Text.ofString " a\n\tb\n",
        [0x61, 0xFF]⟩⟩ := by
  refine (parse_render_iff _).2 ⟨by decide, ?_⟩
  simp only [SymbolTable.toList, List.forall_mem_cons, ← word?_eq_some]
  refine ⟨?_, ?_, ?_, ?_, by simp⟩
  · exact (word?_encode []).trans (by decide)
  · exact (word?_encode _).trans (by decide)
  · exact (word?_encode _).trans (by decide)
  · have hvalid : ¬ Text.Valid [0x61, 0xFF] := by
      rw [Text.Valid, Text.decode_ascii_cons (by decide), Text.decode_cons, List.drop_nil,
        Text.decode_nil]
      decide
    rw [word?, if_neg hvalid]

/-- A line break at the beginning is lost. -/
theorem parse_render_loses_break :
    parse (render ⟨1, true, ⟨Text.ofString "\nx", Text.ofString "b", Text.ofString "c",
        Text.ofString "d"⟩⟩) =
      .ok ⟨1, true, ⟨Text.ofString "x", Text.ofString "b", Text.ofString "c",
        Text.ofString "d"⟩⟩ := by
  have hback : readBack? ⟨Text.ofString "\nx", Text.ofString "b", Text.ofString "c",
      Text.ofString "d"⟩ = some ⟨Text.ofString "x", Text.ofString "b", Text.ofString "c",
        Text.ofString "d"⟩ := by
    simp only [readBack?, Text.ofString, word?_encode]
    decide
  have hparse := parse_render (show 1 < Text.integerLimit by decide) true
    ⟨Text.ofString "\nx", Text.ofString "b", Text.ofString "c", Text.ofString "d"⟩
  rw [hback] at hparse
  exact hparse

end Config

end Birdcall
