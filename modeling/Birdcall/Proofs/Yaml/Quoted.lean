import Birdcall.Proofs.Yaml.Gap

/-!
# Quoted scalars read back

What is written in quotes is read back as it was.  The line breaks in single quotes are ones that
stand for themselves, and double quotes hold none.
-/

namespace Birdcall.Yaml

open Cursor (Stands)

/-! ## Single quotes -/

/-- Whether a character breaks a line and is no line feed. -/
def isSeparator (ch : Char) : Bool := ch = '\u2028' || ch = '\u2029'

theorem keptBreak_of_isSeparator {b : Char} (h : isSeparator b = true) :
    KeptBreak b ∧ b ≠ '\n' ∧ b ≠ ' ' := by
  simp only [isSeparator, Bool.or_eq_true, decide_eq_true_eq] at h
  rcases h with rfl | rfl
  · exact ⟨.inr (.inl rfl), by decide, by decide⟩
  · exact ⟨.inr (.inr rfl), by decide, by decide⟩

theorem ne_space_of_isInk {ch : Char} (h : isInk ch = true) : ch ≠ ' ' := by
  rintro rfl
  cases h

namespace Written

/-- Characters with their quotes doubled. -/
def doubled (cs : List Char) : List Char := cs.flatMap fun ch => if ch = '\'' then [ch, ch] else [ch]

theorem length_le_length_doubled (cs : List Char) : cs.length ≤ (doubled cs).length := by
  induction cs with
  | nil => exact Nat.le_refl 0
  | cons ch cs ih =>
    rw [doubled, List.flatMap_cons, ← doubled, List.length_append, List.length_cons]
    split <;> simp <;> omega

variable {indent : Nat} {cs : List Char}

theorem singleInside_word {w : List Char} (hw : ∀ ch ∈ w, isInk ch = true) (cs : List Char) :
    singleInside indent false (w ++ cs) = doubled w ++ singleInside indent false cs := by
  induction w with
  | nil => rfl
  | cons ch w ih =>
    obtain ⟨hch, hw⟩ := List.forall_mem_cons.1 hw
    simp [singleInside, ne_space_of_isInk hch, (isInk_iff.1 hch).2, ih hw, doubled]

theorem singleInside_spaces (k : Nat) (broken : Bool) :
    singleInside indent broken (List.replicate k ' ' ++ cs) =
      List.replicate k ' ' ++ singleInside indent broken cs := by
  induction k with
  | zero => rfl
  | succ k ih => simp [List.replicate_succ, singleInside, ih]

theorem singleInside_separator {b : Char} (hb : isSeparator b = true) (broken : Bool) :
    singleInside indent broken (b :: cs) = b :: singleInside indent true cs := by
  obtain ⟨hkept, hfeed, hspace⟩ := keptBreak_of_isSeparator hb
  simp [singleInside, hspace, hkept.isBreak, hfeed]

theorem singleInside_separators {bs : List Char} (hbs : ∀ b ∈ bs, isSeparator b = true) :
    singleInside indent true (bs ++ cs) = bs ++ singleInside indent true cs := by
  induction bs with
  | nil => rfl
  | cons b bs ih =>
    obtain ⟨hb, hbs⟩ := List.forall_mem_cons.1 hbs
    rw [List.cons_append, singleInside_separator hb, ih hbs, List.cons_append]

/-- What follows line breaks is indented. -/
theorem singleInside_broken (indent : Nat) (hcs : ∀ ch ∈ cs.head?, isInk ch = true) :
    ∃ k, singleInside indent true cs = List.replicate k ' ' ++ singleInside indent false cs ∧
      (k = indent ∨ cs = []) := by
  cases cs with
  | nil => exact ⟨0, rfl, .inr rfl⟩
  | cons ch cs =>
    have hch := hcs ch rfl
    refine ⟨indent, ?_, .inl rfl⟩
    simp [singleInside, ne_space_of_isInk hch, (isInk_iff.1 hch).2]

/-- What single quotes hold begins with no white space if the text does not. -/
theorem head_singleInside (hcs : ∀ ch ∈ cs.head?, isInk ch = true) (rest : List Char) :
    ∀ ch ∈ (singleInside indent false cs ++ '\'' :: rest).head?, isInk ch = true := by
  cases cs with
  | nil =>
    intro ch hch
    cases hch
    rfl
  | cons d cs =>
    have hd := hcs d rfl
    intro ch hch
    have hsame : ch = d := by
      simp only [singleInside, ne_space_of_isInk hd, (isInk_iff.1 hd).2] at hch
      by_cases hq : d = '\'' <;> simpa [hq, eq_comm] using hch
    exact hsame ▸ hd

end Written

open Written (doubled singleInside)

variable {c : Cursor} {m : Mark} {fuel : Nat} {rest : List Char}

/-- Where a word in single quotes ends: at the closing quote or at white space. -/
inductive EndsWord : List Char → Prop
  | quote {rest : List Char} (h : rest.head? ≠ some '\'') : EndsWord ('\'' :: rest)
  | white {ch : Char} (rest : List Char) (h : (isBlank ch || isBreak ch) = true) :
      EndsWord (ch :: rest)

theorem singleRun?_cons {ch : Char} (h : c.rest = ch :: rest) (value : List Char) :
    singleRun? (fuel + 1) value c =
      if ch = '\'' then
        if rest.head? = some '\'' then
          ((c.skip 2).ensure 2).bind (singleRun? fuel ('\'' :: value))
        else some (⟨value, false⟩, c)
      else if isBlank ch || isBreak ch then some (⟨value, false⟩, c)
      else (c.pass 2 1).bind (singleRun? fuel (ch :: value)) := by
  rw [singleRun?, h]
  split
  · rename_i heq
    cases heq
  · rename_i heq
    obtain ⟨rfl, rfl⟩ := List.cons.inj heq
    rfl
  · rename_i hpair heq
    obtain ⟨rfl, rfl⟩ := List.cons.inj heq
    by_cases hch : ch = '\''
    · cases rest with
      | nil => simp [hch]
      | cons ch' rest =>
        have hch' : ch' ≠ '\'' := fun hch' => hpair rest hch (hch' ▸ rfl)
        simp [hch, hch']
    · simp [hch]

theorem singleRun?_end (h : c.Stands rest m) (hend : EndsWord rest) (value : List Char) :
    singleRun? fuel value c = some (⟨value, false⟩, c) := by
  cases fuel with
  | zero => rfl
  | succ fuel =>
    cases hend with
    | quote hrest => rw [singleRun?_cons h.rest_eq, if_pos rfl, if_neg hrest]
    | white rest hch =>
      have hquote : ∀ ch, (isBlank ch || isBreak ch) = true → ch ≠ '\'' := by
        rintro _ hch rfl
        cases hch
      rw [singleRun?_cons h.rest_eq, if_neg (hquote _ hch), if_pos hch]

theorem singleRun?_word (value : List Char) {w : List Char} (h : c.Stands (doubled w ++ rest) m)
    (hw : ∀ ch ∈ w, isInk ch = true) (hend : EndsWord rest) (hfuel : w.length ≤ fuel) :
    ∃ c' n, singleRun? fuel value c = some (⟨w.reverse ++ value, false⟩, c') ∧
      c'.Stands rest (m.on n) := by
  induction w generalizing fuel value c m with
  | nil => exact ⟨c, 0, singleRun?_end h hend value, h⟩
  | cons ch w ih =>
    obtain ⟨hch, hothers⟩ := List.forall_mem_cons.1 hw
    cases fuel with
    | zero => simp at hfuel
    | succ fuel =>
      have hrounds := Nat.le_of_succ_le_succ hfuel
      by_cases hq : ch = '\''
      · subst hq
        have h : c.Stands ('\'' :: '\'' :: (doubled w ++ rest)) m := by simpa [doubled] using h
        obtain ⟨c₁, hensure, h₁⟩ := (h.skip 2).ensure 2
        obtain ⟨c₂, n, hrun, h₂⟩ := ih ('\'' :: value) h₁ hothers hrounds
        refine ⟨c₂, 2 + n, ?_, Mark.on_on m 2 n ▸ h₂⟩
        simp [singleRun?_cons h.rest_eq, hensure, hrun]
      · have h : c.Stands (ch :: (doubled w ++ rest)) m := by simpa [doubled, hq] using h
        obtain ⟨c₁, hpass, h₁⟩ := h.pass 2 1
        obtain ⟨c₂, n, hrun, h₂⟩ := ih (ch :: value) h₁ hothers hrounds
        refine ⟨c₂, 1 + n, ?_, Mark.on_on m 1 n ▸ h₂⟩
        simp [singleRun?_cons h.rest_eq, hq, isInk_iff.1 hch, hpass, hrun]

/-- A round of reading in single quotes takes a word. -/
theorem quoted?_single_word (fuel : Nat) (value : List Char) {w : List Char}
    (h : c.Stands (doubled w ++ rest) m) (hw : ∀ ch ∈ w, isInk ch = true) (hend : EndsWord rest)
    (hmark : m.column ≠ 0 ∨ ∀ ch ∈ (doubled w ++ rest).head?, ch ≠ '-' ∧ ch ≠ '.') :
    ∃ (c' : Cursor) (n : Nat), c'.Stands rest (m.on n) ∧
      quoted? true (fuel + 1) value c =
        if c'.isAt '\'' then some ((w.reverse ++ value).reverse, c'.skip 1)
        else (Gap.read none c'.limit .none c').bind fun x =>
          quoted? true fuel (x.1.after (w.reverse ++ value)) x.2 := by
  obtain ⟨c₁, hensure, h₁⟩ := h.ensure 4
  have hroom : w.length ≤ c₁.limit := by
    have hroom := h₁.room
    have hlong := Written.length_le_length_doubled w
    rw [List.length_append] at hroom
    omega
  obtain ⟨c₂, n, hrun, h₂⟩ := singleRun?_word value h₁ hw hend hroom
  obtain ⟨c₃, hensure', h₃⟩ := h₂.ensure 1
  have hne : c₁.rest ≠ [] := by
    rw [h₁.rest_eq]
    cases hend <;> simp
  refine ⟨c₃, n, h₃, ?_⟩
  simp [quoted?, hensure, h₁.notDocumentMark hmark, hne, hrun, hensure', Gap.none]

/-- Single quotes are read back. -/
theorem quoted?_single {indent : Nat} (hindent : indent ≠ 0) {cs : List Char}
    (hcs : Spread isInk isSeparator cs) (value : List Char)
    (h : c.Stands (singleInside indent false cs ++ '\'' :: rest) m)
    (hrest : rest.head? ≠ some '\'') (hmark : m.column ≠ 0 ∨ cs = []) (hfuel : cs.length < fuel) :
    ∃ c' m', quoted? true fuel value c = some (value.reverse ++ cs, c') ∧ c'.Stands rest m' := by
  obtain ⟨fuel, rfl⟩ : ∃ k, fuel = k + 1 := ⟨fuel - 1, by omega⟩
  induction hcs generalizing value c m fuel with
  | @word w hw =>
    have hinside : singleInside indent false w = doubled w := by
      simpa [singleInside] using Written.singleInside_word hw []
    rw [hinside] at h
    have hmark : m.column ≠ 0 ∨ ∀ ch ∈ (doubled w ++ '\'' :: rest).head?, ch ≠ '-' ∧ ch ≠ '.' := by
      refine hmark.imp_right ?_
      rintro rfl
      simp [doubled]
    obtain ⟨c₁, n, h₁, hword⟩ := quoted?_single_word fuel value h hw (.quote hrest) hmark
    have hat : c₁.isAt '\'' = true := by
      rw [Cursor.isAt, h₁.peek?]
      rfl
    refine ⟨c₁.skip 1, _, ?_, h₁.skip 1⟩
    rw [hword, if_pos hat]
    simp
  | @space w cs k hw hhead _ ih =>
    have hmark : m.column ≠ 0 := by simpa using hmark
    rw [Written.singleInside_word hw, Written.singleInside_spaces, List.append_assoc,
      List.append_assoc] at h
    obtain ⟨c₁, n, h₁, hword⟩ := quoted?_single_word fuel value h hw (.white _ rfl) (.inl hmark)
    have hat : c₁.isAt '\'' = false := by
      rw [Cursor.isAt, h₁.peek?]
      rfl
    have hroom : k + 1 ≤ c₁.limit := by
      have hroom := h₁.room
      simp only [List.length_append, List.length_replicate] at hroom
      omega
    obtain ⟨c₂, hgap, h₂⟩ :=
      Gap.read_spaces (g := .none) none h₁ (Written.head_singleInside hhead rest) hroom
    simp only [List.length_append, List.length_replicate] at hfuel
    obtain ⟨fuel, rfl⟩ : ∃ k, fuel = k + 1 := ⟨fuel - 1, by omega⟩
    obtain ⟨c₃, m₃, hquoted, h₃⟩ :=
      ih (List.replicate (k + 1) ' ' ++ (w.reverse ++ value)) h₂ (.inl (by simp)) fuel (by omega)
    refine ⟨c₃, m₃, ?_, h₃⟩
    rw [hword, hat, hgap]
    simpa [Gap.after_spaced] using hquoted
  | @line w bs cs b hw hb hhead _ ih =>
    obtain ⟨hbreak, hbs⟩ := List.forall_mem_cons.1 hb
    obtain ⟨hkept, hfeed, -⟩ := keptBreak_of_isSeparator hbreak
    obtain ⟨k, hindented, hk⟩ := Written.singleInside_broken indent hhead
    have hmark : m.column ≠ 0 := by simpa using hmark
    rw [Written.singleInside_word hw, List.cons_append, Written.singleInside_separator hbreak,
      Written.singleInside_separators hbs, hindented, List.append_assoc, ← List.cons_append,
      List.append_assoc, List.append_assoc] at h
    obtain ⟨c₁, n, h₁, hword⟩ := quoted?_single_word fuel value h hw
      (.white _ (by simp [hkept.isBreak])) (.inl hmark)
    have hat : c₁.isAt '\'' = false := by
      rw [Cursor.isAt, h₁.peek?]
      rcases hkept with rfl | rfl | rfl <;> rfl
    have hroom : bs.length + k < c₁.limit := by
      have hroom := h₁.room
      simp only [List.cons_append, List.length_cons, List.length_append, List.length_replicate]
        at hroom
      omega
    obtain ⟨c₂, m₂, hgap, h₂, hcolumn⟩ := Gap.read_break (g := .none) none h₁ hkept
      (fun b hb => (keptBreak_of_isSeparator (hbs b hb)).1) (Written.head_singleInside hhead rest)
      rfl hroom
    simp only [List.cons_append, List.length_append, List.length_cons] at hfuel
    obtain ⟨fuel, rfl⟩ : ∃ k, fuel = k + 1 := ⟨fuel - 1, by omega⟩
    obtain ⟨c₃, m₃, hquoted, h₃⟩ := ih ((b :: bs).reverse ++ (w.reverse ++ value)) h₂
      (hk.imp_left (by omega)) fuel (by omega)
    refine ⟨c₃, m₃, ?_, h₃⟩
    rw [hword, hat, hgap]
    simpa [Gap.after_breaks _ hfeed] using hquoted

/-- A text that single quotes can hold is spread out. -/
theorem Written.Looks.spread {cs : List Char} (h : (Written.looks cs).single = true)
    (hfeed : '\n' ∉ cs) : Spread isInk isSeparator cs := by
  simp only [Written.Looks.single, Written.looks, Bool.not_eq_true', Bool.or_eq_false_iff,
    List.contains_eq_mem, decide_eq_false_iff_not, List.any_eq_false] at h
  obtain ⟨⟨⟨hbreakSpace, hspaceBreak⟩, htabs⟩, hspecials⟩ := h
  have hseparator : ∀ ch, isSeparator ch = true → isBreak ch = true := fun ch hch =>
    (keptBreak_of_isSeparator hch).1.isBreak
  refine Spread.of_pairs ?_ (hasPair_mono (by simp) hseparator hspaceBreak)
    (hasPair_mono hseparator (by simp) hbreakSpace)
  intro ch hch
  have htab : ch ≠ '\t' := fun htab => htabs (htab ▸ hch)
  have hprintable : isPrintable ch = true := by simpa [htab] using hspecials ch hch
  cases hbreak : isBreak ch with
  | true =>
    rcases keptBreak_of_isPrintable hprintable hbreak with rfl | rfl | rfl
    · exact absurd hch hfeed
    · exact .inr (.inr rfl)
    · exact .inr (.inr rfl)
  | false =>
    by_cases hspace : ch = ' '
    · exact .inr (.inl hspace)
    · exact .inl (by simp [isInk, isBlank, htab, hspace, hbreak])

theorem Written.length_le_length_singleInside (indent : Nat) (broken : Bool) (cs : List Char) :
    cs.length ≤ (singleInside indent broken cs).length := by
  induction cs generalizing broken with
  | nil => exact Nat.le_refl 0
  | cons ch cs ih =>
    simp only [singleInside]
    have htrue := ih true
    have hfalse := ih false
    have hsame := ih broken
    repeat' split
    all_goals simp only [List.length_cons, List.length_append, List.length_replicate]; omega

/-- A text in single quotes is read back. -/
theorem quoted?_singleQuoted {indent : Nat} (hindent : indent ≠ 0) {cs : List Char}
    (hcs : (Written.looks cs).single = true) (hfeed : '\n' ∉ cs)
    (h : c.Stands (Written.singleQuoted indent cs ++ rest) m) (hrest : rest.head? ≠ some '\'') :
    ∃ c' m', quoted? true (c.limit + 1) [] (c.skip 1) = some (cs, c') ∧ c'.Stands rest m' := by
  have hskip := h.skip 1
  have hfuel : cs.length < c.limit + 1 := by
    have hroom := h.room
    have hlong := Written.length_le_length_singleInside indent false cs
    simp only [Written.singleQuoted, List.cons_append, List.length_cons, List.length_append] at hroom
    omega
  have hinside : (Written.singleQuoted indent cs ++ rest).drop 1 =
      singleInside indent false cs ++ '\'' :: rest := by
    simp [Written.singleQuoted]
  rw [hinside] at hskip
  exact quoted?_single hindent (Written.Looks.spread hcs hfeed) [] hskip hrest (.inl (by simp)) hfuel

/-! ## Double quotes -/

theorem hexNumber?_append (cs : List Char) (ch : Char) :
    hexNumber? (cs ++ [ch]) = (hexNumber? cs).bind fun n =>
      (Text.hexValue? (Text.byte ch)).bind fun d =>
        if ch.toNat < 128 then some (n * 16 + d) else none := by
  simp [hexNumber?, List.foldlM_append]

/-- A digit in capitals has the value of the digit. -/
theorem hexValue?_bigDigit {n : Nat} (h : n < 16) :
    Text.hexValue? (Text.byte (Char.toUpper (Char.ofNat (Text.hexDigit n).toNat))) = some n ∧
      (Char.toUpper (Char.ofNat (Text.hexDigit n).toNat)).toNat < 128 := by
  have hall : ∀ k : Fin 16,
      Text.hexValue? (Text.byte (Char.toUpper (Char.ofNat (Text.hexDigit k.val).toNat))) =
          some k.val ∧
        (Char.toUpper (Char.ofNat (Text.hexDigit k.val).toNat)).toNat < 128 := by
    decide +kernel
  exact hall ⟨n, h⟩

namespace Written

theorem bigHex_succ (width n : Nat) :
    bigHex (width + 1) n =
      bigHex width (n / 16) ++ [Char.toUpper (Char.ofNat (Text.hexDigit (n % 16)).toNat)] := by
  simp [bigHex, Text.hex]

theorem length_bigHex (width n : Nat) : (bigHex width n).length = width := by
  induction width generalizing n with
  | zero => rfl
  | succ width ih => rw [bigHex_succ, List.length_append, ih]; rfl

theorem hexNumber?_bigHex {width n : Nat} (h : n < Nat.pow 16 width) :
    hexNumber? (bigHex width n) = some n := by
  induction width generalizing n with
  | zero =>
    obtain rfl : n = 0 := Nat.lt_one_iff.1 h
    rfl
  | succ width ih =>
    obtain ⟨hvalue, hascii⟩ := hexValue?_bigDigit (Nat.mod_lt n (show 0 < 16 by decide))
    have hdiv : n / 16 < Nat.pow 16 width := (Nat.div_lt_iff_lt_mul (by decide)).2 h
    rw [bigHex_succ, hexNumber?_append, ih hdiv, Option.bind_some, hvalue, Option.bind_some,
      if_pos hascii]
    congr 1
    omega

end Written

theorem escapedNumber?_bigHex {width : Nat} {ch : Char}
    (h : c.Stands (Written.bigHex width ch.toNat ++ rest) m) (hch : ch.toNat < Nat.pow 16 width) :
    ∃ c', escapedNumber? width c = some (ch, c') ∧ c'.Stands rest (m.on width) := by
  obtain ⟨c₁, hensure, h₁⟩ := h.ensure width
  have hlength := Written.length_bigHex width ch.toNat
  have htake : c₁.rest.take width = Written.bigHex width ch.toNat := by
    rw [h₁.rest_eq, List.take_left' hlength]
  have hvalid := Text.toNat_valid ch
  refine ⟨c₁.skip width, ?_, ?_⟩
  · have hscalar : ¬ ((0xD800 ≤ ch.toNat ∧ ch.toNat ≤ 0xDFFF) ∨ 0x10FFFF < ch.toNat) := by omega
    have hlong : ¬ (c₁.rest.take width).length < width := by
      rw [htake, hlength]
      exact Nat.lt_irrefl width
    have hnumber : hexNumber? (c₁.rest.take width) = some ch.toNat := by
      rw [htake, Written.hexNumber?_bigHex hch]
    simp only [escapedNumber?, hensure, hlong, hnumber, hscalar, Option.bind_eq_bind,
      Option.bind_some, if_false, Char.ofNat_toNat]
  · have hskip := h₁.skip width
    rwa [List.drop_left' hlength] at hskip

/-- A letter behind a backslash says how many digits follow. -/
theorem escaped?_number (e : Char) (width : Nat)
    (he : (e, width) ∈ [('x', 2), ('u', 4), ('U', 8)]) {ch : Char}
    (hch : ch.toNat < Nat.pow 16 width)
    (h : c.Stands (e :: Written.bigHex width ch.toNat ++ rest) m) :
    ∃ c' n, escaped? c = some (ch, c') ∧ c'.Stands rest (m.on n) := by
  obtain ⟨c', hread, h'⟩ := escapedNumber?_bigHex (h.skip 1) hch
  refine ⟨c', 1 + width, ?_, Mark.on_on m 1 width ▸ h'⟩
  simp only [List.mem_cons, Prod.mk.injEq, List.not_mem_nil, or_false] at he
  rcases he with ⟨rfl, rfl⟩ | ⟨rfl, rfl⟩ | ⟨rfl, rfl⟩ <;> simp [escaped?, h.peek?, hread]

/-- An escape is read back. -/
theorem escaped?_escape (ch : Char) :
    ∃ e tail, Written.escape ch = '\\' :: e :: tail ∧ isBreak e = false ∧
      ∀ {c : Cursor} {m : Mark} {rest : List Char}, c.Stands (e :: tail ++ rest) m →
        ∃ c' n, escaped? c = some (ch, c') ∧ c'.Stands rest (m.on n) := by
  have hch : Char.ofNat ch.toNat = ch := Char.ofNat_toNat ch
  unfold Written.escape
  split
  case h_16 =>
    split
    · exact ⟨'x', _, rfl, rfl, escaped?_number 'x' 2 (by simp) (show ch.toNat < 256 by omega)⟩
    split
    · exact ⟨'u', _, rfl, rfl, escaped?_number 'u' 4 (by simp) (show ch.toNat < 65536 by omega)⟩
    · have hvalid := Text.toNat_valid ch
      have hch : ch.toNat < 4294967296 := by omega
      exact ⟨'U', _, rfl, rfl, escaped?_number 'U' 8 (by simp) hch⟩
  all_goals
    rename_i heq
    rw [heq] at hch
    subst hch
    refine ⟨_, [], rfl, rfl, fun h => ⟨_, 1, ?_, h.skip 1⟩⟩
    rw [escaped?, h.peek?]
    rfl

/-- The ways to write a character in double quotes where it belongs to a word: escaped, or as it is if
it means nothing else. -/
def Spells (s : List Char) (ch : Char) : Prop :=
  s = Written.escape ch ∨ s = [ch] ∧ isInk ch = true ∧ ch ≠ '"' ∧ ch ≠ '\\'

theorem Spells.head {s : List Char} {ch : Char} (h : Spells s ch) :
    ∃ d tail, s = d :: tail ∧ isInk d = true := by
  rcases h with rfl | ⟨rfl, hink, -⟩
  · obtain ⟨e, tail, hescape, -⟩ := escaped?_escape ch
    exact ⟨'\\', e :: tail, hescape, rfl⟩
  · exact ⟨ch, [], rfl, hink⟩

theorem Spells.ne_nil {s : List Char} {ch : Char} (h : Spells s ch) : s ≠ [] := by
  obtain ⟨d, tail, rfl, -⟩ := h.head
  simp

variable {spell : Char → List Char}

theorem length_le_length_flatMap {w : List Char} (hw : ∀ d ∈ w, spell d ≠ []) :
    w.length ≤ (w.flatMap spell).length := by
  induction w with
  | nil => exact Nat.le_refl 0
  | cons d w ih =>
    obtain ⟨hd, hw⟩ := List.forall_mem_cons.1 hw
    have hpos := List.length_pos_iff.2 hd
    have ih := ih hw
    rw [List.flatMap_cons, List.length_append, List.length_cons]
    omega

theorem doubleRun?_end {ch : Char} (h : c.Stands (ch :: rest) m)
    (hch : (ch = '"' || isBlank ch) = true) (value : List Char) :
    doubleRun? fuel value c = some (⟨value, false⟩, c) := by
  cases fuel with
  | zero => rfl
  | succ fuel => simp only [doubleRun?, h.rest_eq, hch, Bool.true_or, if_true]

theorem doubleRun?_word (value : List Char) {w : List Char} {ch : Char}
    (h : c.Stands (w.flatMap spell ++ ch :: rest) m) (hw : ∀ d ∈ w, Spells (spell d) d)
    (hch : (ch = '"' || isBlank ch) = true) (hfuel : w.length ≤ fuel) :
    ∃ c' n, doubleRun? fuel value c = some (⟨w.reverse ++ value, false⟩, c') ∧
      c'.Stands (ch :: rest) (m.on n) := by
  induction w generalizing fuel value c m with
  | nil => exact ⟨c, 0, doubleRun?_end h hch value, h⟩
  | cons d w ih =>
    obtain ⟨hd, hothers⟩ := List.forall_mem_cons.1 hw
    cases fuel with
    | zero => simp at hfuel
    | succ fuel =>
      have hrounds := Nat.le_of_succ_le_succ hfuel
      rw [List.flatMap_cons, List.append_assoc] at h
      rcases hd with hescape | ⟨hraw, hink, hquote, hslash⟩
      · obtain ⟨e, tail, hspelled, hbreak, hread⟩ := escaped?_escape d
        rw [hescape, hspelled] at h
        obtain ⟨c₁, n, hescaped, h₁⟩ := hread (h.skip 1)
        obtain ⟨c₂, hensure, h₂⟩ := h₁.ensure 2
        obtain ⟨c₃, k, hrun, h₃⟩ := ih (d :: value) h₂ hothers hrounds
        refine ⟨c₃, 1 + n + k, ?_, by simpa using h₃⟩
        have hslash : isBlank '\\' = false ∧ isBreak '\\' = false := ⟨rfl, rfl⟩
        simp [doubleRun?, h.rest_eq, hslash, hbreak, hescaped, hensure, hrun]
      · rw [hraw] at h
        obtain ⟨c₁, hpass, h₁⟩ := h.pass 2 1
        obtain ⟨c₂, n, hrun, h₂⟩ := ih (d :: value) h₁ hothers hrounds
        refine ⟨c₂, 1 + n, ?_, Mark.on_on m 1 n ▸ h₂⟩
        simp [doubleRun?, h.rest_eq, isInk_iff.1 hink, hquote, hslash, hpass, hrun]

/-- A round of reading in double quotes takes a word. -/
theorem quoted?_double_word (fuel : Nat) (value : List Char) {w : List Char} {ch : Char}
    (h : c.Stands (w.flatMap spell ++ ch :: rest) m) (hw : ∀ d ∈ w, Spells (spell d) d)
    (hch : (ch = '"' || isBlank ch) = true) (hmark : m.column ≠ 0) :
    ∃ (c' : Cursor) (n : Nat), c'.Stands (ch :: rest) (m.on n) ∧
      quoted? false (fuel + 1) value c =
        if c'.isAt '"' then some ((w.reverse ++ value).reverse, c'.skip 1)
        else (Gap.read none c'.limit .none c').bind fun x =>
          quoted? false fuel (x.1.after (w.reverse ++ value)) x.2 := by
  obtain ⟨c₁, hensure, h₁⟩ := h.ensure 4
  have hroom : w.length ≤ c₁.limit := by
    have hroom := h₁.room
    have hlong := length_le_length_flatMap fun d hd => (hw d hd).ne_nil
    rw [List.length_append] at hroom
    omega
  obtain ⟨c₂, n, hrun, h₂⟩ := doubleRun?_word value h₁ hw hch hroom
  obtain ⟨c₃, hensure', h₃⟩ := h₂.ensure 1
  have hne : c₁.rest ≠ [] := by
    rw [h₁.rest_eq]
    simp
  refine ⟨c₃, n, h₃, ?_⟩
  simp [quoted?, hensure, h₁.notDocumentMark (.inl hmark), hne, hrun, hensure', Gap.none]

/-- A single word in double quotes is read back. -/
theorem quoted?_double_last {w : List Char} (value : List Char)
    (h : c.Stands (w.flatMap spell ++ '"' :: rest) m) (hw : ∀ d ∈ w, Spells (spell d) d)
    (hmark : m.column ≠ 0) :
    ∃ c' m', quoted? false (fuel + 1) value c = some (value.reverse ++ w, c') ∧
      c'.Stands rest m' := by
  obtain ⟨c₁, n, h₁, hword⟩ := quoted?_double_word fuel value h hw rfl hmark
  have hat : c₁.isAt '"' = true := by
    rw [Cursor.isAt, h₁.peek?]
    rfl
  refine ⟨c₁.skip 1, _, ?_, h₁.skip 1⟩
  rw [hword, if_pos hat]
  simp

/-- Double quotes are read back. -/
theorem quoted?_double {cs : List Char} (hcs : Spread (· != ' ') (fun _ => false) cs)
    (value : List Char) (h : c.Stands (cs.flatMap spell ++ '"' :: rest) m)
    (hspell : ∀ d ∈ cs, d ≠ ' ' → Spells (spell d) d) (hspace : spell ' ' = [' '])
    (hmark : m.column ≠ 0) (hfuel : cs.length < fuel) :
    ∃ c' m', quoted? false fuel value c = some (value.reverse ++ cs, c') ∧ c'.Stands rest m' := by
  obtain ⟨fuel, rfl⟩ : ∃ k, fuel = k + 1 := ⟨fuel - 1, by omega⟩
  induction hcs generalizing value c m fuel with
  | @word w hw =>
    exact quoted?_double_last value h (fun d hd => hspell d hd (by simpa using hw d hd)) hmark
  | @space w cs k hw hhead _ ih =>
    have hw : ∀ d ∈ w, Spells (spell d) d := fun d hd =>
      hspell d (List.mem_append_left _ hd) (by simpa using hw d hd)
    have hspaces : (List.replicate (k + 1) ' ').flatMap spell = List.replicate (k + 1) ' ' := by
      rw [List.flatMap_replicate, hspace, List.flatten_replicate_singleton]
    rw [List.flatMap_append, List.flatMap_append, hspaces, List.append_assoc, List.append_assoc] at h
    obtain ⟨c₁, n, h₁, hword⟩ := quoted?_double_word fuel value h hw rfl hmark
    have h₁ : c₁.Stands (List.replicate (k + 1) ' ' ++ (cs.flatMap spell ++ '"' :: rest)) (m.on n) :=
      h₁
    have hat : c₁.isAt '"' = false := by
      rw [Cursor.isAt, h₁.peek?]
      rfl
    have hink : ∀ ch ∈ (cs.flatMap spell ++ '"' :: rest).head?, isInk ch = true := by
      cases cs with
      | nil => simp [isInk, isBlank, isBreak]
      | cons d cs =>
        obtain ⟨e, tail, hspelled, hink⟩ := (hspell d (by simp) (by simpa using hhead d rfl)).head
        simpa [hspelled] using hink
    have hroom : k + 1 ≤ c₁.limit := by
      have hroom := h₁.room
      simp only [List.length_append, List.length_replicate] at hroom
      omega
    obtain ⟨c₂, hgap, h₂⟩ := Gap.read_spaces (g := .none) none h₁ hink hroom
    simp only [List.length_append, List.length_replicate] at hfuel
    obtain ⟨fuel, rfl⟩ : ∃ k, fuel = k + 1 := ⟨fuel - 1, by omega⟩
    obtain ⟨c₃, m₃, hquoted, h₃⟩ :=
      ih (List.replicate (k + 1) ' ' ++ (w.reverse ++ value)) h₂
        (fun d hd => hspell d (by simp [hd])) (by simp) fuel (by omega)
    refine ⟨c₃, m₃, ?_, h₃⟩
    rw [hword, hat, hgap]
    simpa [Gap.after_spaced] using hquoted
  | @line w bs cs b hw hb _ _ _ => cases hb b (by simp)

/-- How a character is written in double quotes, which is always escaped behind a byte order mark. -/
def Written.spelling (marked : Bool) (ch : Char) : List Char :=
  if marked || !isPrintable ch || isBreak ch || ch = '"' || ch = '\\' then escape ch else [ch]

theorem Written.spells_spelling {marked : Bool} {ch : Char} (h : marked = true ∨ ch ≠ ' ') :
    Spells (spelling marked ch) ch := by
  unfold spelling
  split
  · exact .inl rfl
  · rename_i hraw
    simp only [Bool.or_eq_true, Bool.not_eq_true', decide_eq_true_eq, not_or] at hraw
    obtain ⟨⟨⟨⟨hmarked, hprintable⟩, hbreak⟩, hquote⟩, hslash⟩ := hraw
    have htab : ch ≠ '\t' := by
      rintro rfl
      exact hprintable rfl
    refine .inr ⟨rfl, ?_, hquote, hslash⟩
    simp_all [isInk, isBlank]

theorem Written.doubleQuoted_eq (cs : List Char) :
    doubleQuoted cs = '"' :: cs.flatMap (spelling (cs.head? = some '\uFEFF')) ++ ['"'] := rfl

/-- A text in double quotes is read back. -/
theorem quoted?_doubleQuoted {cs : List Char} (h : c.Stands (Written.doubleQuoted cs ++ rest) m) :
    ∃ c' m', quoted? false (c.limit + 1) [] (c.skip 1) = some (cs, c') ∧ c'.Stands rest m' := by
  have hskip := h.skip 1
  have hroom := h.room
  rw [Written.doubleQuoted_eq] at hskip hroom
  generalize (decide (cs.head? = some '\uFEFF')) = marked at hskip hroom
  have hinside : ('"' :: cs.flatMap (Written.spelling marked) ++ ['"'] ++ rest).drop 1 =
      cs.flatMap (Written.spelling marked) ++ '"' :: rest := by
    simp
  rw [hinside] at hskip
  cases marked with
  | true =>
    exact quoted?_double_last [] hskip (fun d _ => Written.spells_spelling (.inl rfl)) (by simp)
  | false =>
    have hspread : Spread (· != ' ') (fun _ => false) cs :=
      .of_spaces (by simp [or_comm, Decidable.em])
    have hlong : cs.length ≤ (cs.flatMap (Written.spelling false)).length := by
      refine length_le_length_flatMap fun d _ => ?_
      by_cases hd : d = ' '
      · simp [hd, Written.spelling, Written.isPrintable, isBreak]
      · exact (Written.spells_spelling (.inr hd)).ne_nil
    refine quoted?_double hspread [] hskip (fun d _ hd => Written.spells_spelling (.inr hd)) rfl
      (by simp) ?_
    simp only [List.cons_append, List.length_cons, List.length_append] at hroom
    omega

end Birdcall.Yaml
