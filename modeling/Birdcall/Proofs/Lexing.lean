import Birdcall.Proofs.Respelling

/-!
# The tokens of a text

`Token.lex` is what the following says of a text, and the text has no other tokens
(`Token.lex_eq_iff`).

* `Text.Decodes` reads bytes as characters: the bytes of a character stand for it, and a byte at
  which no character begins stands for the replacement character.  Every text reads in one way, and
  `Text.decode` finds it (`Text.decodes_iff`).
* `Parted` cuts the characters into words at the characters of `Text.whiteSpace`.
* `Token.Reads` makes a token of a word: it stands where the first character of the word stands.  A
  word that is one of `Kind.keywords` once the ASCII letters in it are capitals is that keyword, and
  any other word names something (`Token.reads_iff`).
-/

namespace Birdcall

/-! ## Bytes as characters -/

namespace Text

/-- What a text reads as. -/
inductive Decodes : Text → List Char → Prop
  | nil : Decodes [] []
  | char (c : Char) {rest : Text} {cs : List Char} (h : Decodes rest cs) :
      Decodes (encodeChar c ++ rest) (c :: cs)
  /-- A byte at which no character begins is replaced, and reading goes on right behind it. -/
  | stray {b : UInt8} {rest : Text} {cs : List Char} (hb : ∀ c, ¬ encodeChar c <+: b :: rest)
      (h : Decodes rest cs) : Decodes (b :: rest) (Char.ofNat 0xFFFD :: cs)

section Bytes

variable {n : Nat}

theorem toNat_ofNat (h : n < 0xD800 ∨ 0xDFFF < n ∧ n < 0x110000) : (Char.ofNat n).toNat = n := by
  unfold Char.ofNat
  rw [dif_pos (show n.isValidChar from h)]
  unfold Char.ofNatAux Char.toNat
  simp

/-- The byte whose value is known. -/
theorem eq_toUInt8 {b : UInt8} (h : b.toNat = n) : n.toUInt8 = b := by
  subst h
  exact UInt8.ofNat_toNat

theorem encodeChar_two {b c : UInt8} (hlow : 0x80 ≤ n) (hhigh : n < 0x800)
    (hb : b.toNat = 0xC0 + n / 0x40) (hc : c.toNat = 0x80 + n % 0x40) :
    encodeChar (Char.ofNat n) = [b, c] := by
  simp only [encodeChar, toNat_ofNat (n := n) (by omega)]
  rw [if_neg (by omega), if_pos hhigh, eq_toUInt8 hb, eq_toUInt8 hc]

theorem encodeChar_three {b c d : UInt8} (hlow : 0x800 ≤ n) (hhigh : n < 0x10000)
    (hvalid : n < 0xD800 ∨ 0xDFFF < n) (hb : b.toNat = 0xE0 + n / 0x1000)
    (hc : c.toNat = 0x80 + n / 0x40 % 0x40) (hd : d.toNat = 0x80 + n % 0x40) :
    encodeChar (Char.ofNat n) = [b, c, d] := by
  simp only [encodeChar, toNat_ofNat (n := n) (by omega)]
  rw [if_neg (by omega), if_neg (by omega), if_pos hhigh, eq_toUInt8 hb, eq_toUInt8 hc,
    eq_toUInt8 hd]

theorem encodeChar_four {b c d e : UInt8} (hlow : 0x10000 ≤ n) (hhigh : n < 0x110000)
    (hb : b.toNat = 0xF0 + n / 0x40000) (hc : c.toNat = 0x80 + n / 0x1000 % 0x40)
    (hd : d.toNat = 0x80 + n / 0x40 % 0x40) (he : e.toNat = 0x80 + n % 0x40) :
    encodeChar (Char.ofNat n) = [b, c, d, e] := by
  simp only [encodeChar, toNat_ofNat (n := n) (by omega)]
  rw [if_neg (by omega), if_neg (by omega), if_neg (by omega), eq_toUInt8 hb, eq_toUInt8 hc,
    eq_toUInt8 hd, eq_toUInt8 he]

end Bytes

/-- A byte that starts a longer character holds its first bits, and the range of the next byte keeps
the character from being overlong, a surrogate or past the last one. -/
theorem lead?_cases {b : UInt8} {l : Lead} (h : lead? b = some l) :
    l.tails = 1 ∧ b.toNat = 0xC0 + l.bits ∧ 2 ≤ l.bits ∧ l.bits < 0x20 ∧
        0x80 ≤ l.low ∧ l.high ≤ 0xBF ∨
      l.tails = 2 ∧ b.toNat = 0xE0 + l.bits ∧ l.bits < 0x10 ∧ 0x80 ≤ l.low ∧ l.high ≤ 0xBF ∧
        (l.bits = 0 → 0xA0 ≤ l.low) ∧ (l.bits = 0xD → l.high ≤ 0x9F) ∨
      l.tails = 3 ∧ b.toNat = 0xF0 + l.bits ∧ l.bits ≤ 4 ∧ 0x80 ≤ l.low ∧ l.high ≤ 0xBF ∧
        (l.bits = 0 → 0x90 ≤ l.low) ∧ (l.bits = 4 → l.high ≤ 0x8F) := by
  simp only [lead?] at h
  repeat' split at h
  all_goals simp only [reduceCtorEq, Option.some.injEq] at h
  all_goals subst h
  all_goals simp
  all_goals omega

theorem tails_succ {bits size owed n : Nat} {t : Text} {ch : Char}
    (h : tails bits size (owed + 1) t = .char ch n) :
    ∃ b rest, t = b :: rest ∧ 0x80 ≤ b.toNat ∧ b.toNat ≤ 0xBF ∧
      tails (bits * 0x40 + (b.toNat - 0x80)) (size + 1) owed rest = .char ch n := by
  cases t with
  | nil => cases h
  | cons b rest =>
    rw [tails] at h
    split at h
    · next hb => exact ⟨b, rest, rfl, hb.1, hb.2, h⟩
    · cases h

/-- A character that is found is there byte for byte. -/
theorem take_of_front {t : Text} {ch : Char} {n : Nat} (h : front t = .char ch n) :
    t.take n = encodeChar ch := by
  match t with
  | [] => cases h
  | b :: rest =>
    by_cases hb : b.toNat < 0x80
    · rw [front_ascii hb] at h
      cases h
      rw [encodeChar_ascii hb]
      rfl
    simp only [front] at h
    rw [if_neg hb] at h
    cases hl : lead? b with
    | none => simp [hl] at h
    | some l =>
      cases rest with
      | nil => simp [hl] at h
      | cons c more =>
        simp only [hl] at h
        split at h
        · next hc =>
          -- One, two or three bytes follow, and all but the first of them are still to be taken.
          rcases lead?_cases hl with ⟨ht, hl⟩ | ⟨ht, hl⟩ | ⟨ht, hl⟩
          · rw [ht, Nat.sub_self, tails, Front.char.injEq] at h
            obtain ⟨rfl, rfl⟩ := h
            rw [encodeChar_two (b := b) (c := c) (by omega) (by omega) (by omega) (by omega)]
            rfl
          · rw [ht] at h
            obtain ⟨d, rest, rfl, hd, hd', h⟩ := tails_succ h
            simp only [tails, Front.char.injEq] at h
            obtain ⟨rfl, rfl⟩ := h
            rw [encodeChar_three (b := b) (c := c) (d := d) (by omega) (by omega) (by omega)
              (by omega) (by omega) (by omega)]
            rfl
          · rw [ht] at h
            obtain ⟨d, rest, rfl, hd, hd', h⟩ := tails_succ h
            obtain ⟨e, rest, rfl, he, he', h⟩ := tails_succ h
            simp only [tails, Front.char.injEq] at h
            obtain ⟨rfl, rfl⟩ := h
            rw [encodeChar_four (b := b) (c := c) (d := d) (e := e) (by omega) (by omega)
              (by omega) (by omega) (by omega) (by omega)]
            rfl
        · cases h

/-- The first piece of a text: a character, or a byte at which none begins. -/
theorem piece_cases (b : UInt8) (rest : Text) :
    (∃ c, (piece b rest).1 = .char c ∧ b :: rest = encodeChar c ++ rest.drop (piece b rest).2) ∨
      piece b rest = (.stray b, 0) ∧ ∀ c, ¬ encodeChar c <+: b :: rest := by
  have hnone : (∀ c n, front (b :: rest) ≠ .char c n) → ∀ c, ¬ encodeChar c <+: b :: rest := by
    rintro h c ⟨more, hmore⟩
    exact h c _ (hmore ▸ front_encodeChar c more)
  cases h : front (b :: rest) with
  | char c n =>
    have htake := take_of_front h
    have hn : n = n - 1 + 1 := by
      cases n with
      | zero => exact absurd htake.symm (encodeChar_ne_nil c)
      | succ n => rfl
    refine .inl ⟨c, by simp [piece, h], ?_⟩
    have hdrop : rest.drop (n - 1) = (b :: rest).drop n := by rw [hn]; rfl
    simp only [piece, h]
    rw [hdrop, ← htake, List.take_append_drop]
  | invalid => exact .inr ⟨by simp [piece, h], hnone (by simp [h])⟩
  | cut => exact .inr ⟨by simp [piece, h], hnone (by simp [h])⟩

theorem decodes_decode (t : Text) : Decodes t (decode t) := by
  induction t using pieces_induction with
  | nil =>
    rw [decode_nil]
    exact .nil
  | cons b rest ih =>
    rw [decode_cons]
    rcases piece_cases b rest with ⟨c, hpiece, hbytes⟩ | ⟨hpiece, hnone⟩
    · rw [hpiece, hbytes]
      exact .char c ih
    · rw [hpiece] at ih ⊢
      exact .stray hnone ih

/-- A text reads in one way. -/
theorem decodes_iff {t : Text} {cs : List Char} : Decodes t cs ↔ cs = decode t := by
  constructor
  · intro h
    induction h with
    | nil => rw [decode_nil]
    | @char c rest cs _ ih =>
      rw [ih, decode, decode, pieces_encodeChar_append]
      rfl
    | @stray b rest cs hb _ ih =>
      rcases piece_cases b rest with ⟨c, -, hbytes⟩ | ⟨hpiece, -⟩
      · exact absurd ⟨_, hbytes.symm⟩ (hb c)
      · rw [decode_cons, hpiece, ih]
        rfl
  · rintro rfl
    exact decodes_decode t

/-! ## Words -/

/-- The characters that part words: the white space of Unicode. -/
def whiteSpace : List Nat :=
  [0x9, 0xA, 0xB, 0xC, 0xD, 0x20, 0x85, 0xA0, 0x1680, 0x2000, 0x2001, 0x2002, 0x2003, 0x2004,
    0x2005, 0x2006, 0x2007, 0x2008, 0x2009, 0x200A, 0x2028, 0x2029, 0x202F, 0x205F, 0x3000]

theorem isBlank_eq (c : Char) : isBlank c = decide (c.toNat ∈ whiteSpace) := by
  rw [Bool.eq_iff_iff]
  simp only [isBlank, whiteSpace, Bool.or_eq_true, Bool.and_eq_true, decide_eq_true_eq, beq_iff_eq,
    List.mem_cons, List.not_mem_nil, or_false]
  omega

theorem encode_inj {cs ds : List Char} : encode cs = encode ds ↔ cs = ds := by
  constructor
  · intro h
    rw [← decode_encode cs, h, decode_encode]
  · exact congrArg encode

theorem toUpper_eq (c : Char) :
    c.toUpper = if 0x61 ≤ c.toNat ∧ c.toNat ≤ 0x7A then Char.ofNat (c.toNat - 0x20) else c := by
  have hlow : 'a'.val ≤ c.val ↔ 0x61 ≤ c.toNat := UInt32.le_iff_toNat_le
  have hhigh : c.val ≤ 'z'.val ↔ c.toNat ≤ 0x7A := UInt32.le_iff_toNat_le
  by_cases h : 'a'.val ≤ c.val ∧ c.val ≤ 'z'.val
  · have hupper : c.toUpper = _ := dif_pos h
    rw [hlow, hhigh] at h
    rw [if_pos h, hupper]
    apply Char.toNat_inj.1
    rw [toNat_ofNat (by omega)]
    show (c.val + ('A'.val - 'a'.val)).toNat = c.val.toNat - 0x20
    have hgap : ('A'.val - 'a'.val).toNat = 4294967264 := rfl
    have hval : c.val.toNat = c.toNat := rfl
    rw [UInt32.toNat_add, hgap]
    omega
  · have hupper : c.toUpper = c := dif_neg h
    rw [hlow, hhigh] at h
    rw [if_neg h, hupper]

/-- A character of ASCII is the capital of the same characters whether or not letters outside ASCII
have capitals, if it is none of the two capitals that these can have. -/
theorem capital_eq_iff {w : Char} (hw : w.toNat < 0x80 ∧ w ≠ 'I' ∧ w ≠ 'S') (c : Char) :
    capital c = w ↔ c.toUpper = w := by
  have hdotless : c.toNat = 0x131 → c ≠ w := by
    rintro h rfl
    omega
  have hlong : c.toNat = 0x17F → c ≠ w := by
    rintro h rfl
    omega
  rw [toUpper_eq]
  simp only [capital]
  split
  · rfl
  · split
    · next h => simp [hw.2.1.symm, hdotless h]
    · split
      · next h => simp [hw.2.2.symm, hlong h]
      · rfl

theorem map_capital_eq_iff {w : List Char} (hw : ∀ c ∈ w, c.toNat < 0x80 ∧ c ≠ 'I' ∧ c ≠ 'S')
    (cs : List Char) : cs.map capital = w ↔ cs.map Char.toUpper = w := by
  induction cs generalizing w with
  | nil => rfl
  | cons c cs ih =>
    cases w with
    | nil => simp
    | cons d w =>
      obtain ⟨hd, hw⟩ := List.forall_mem_cons.1 hw
      rw [List.map_cons, List.map_cons, List.cons.injEq, List.cons.injEq, capital_eq_iff hd, ih hw]

end Text

/-! ## Tokens -/

namespace Kind

/-- The reserved words in capitals, and what they are. -/
def keywords : List (String × Kind) :=
  [("A", .symbol ⟨0⟩), ("B", .symbol ⟨1⟩), ("C", .symbol ⟨2⟩), ("D", .symbol ⟨3⟩),
    ("FUN", .opener), ("END", .closer), ("RUN", .runner)]

theorem words_eq : words = keywords.map fun w => (Text.ofString w.1, w.2) := rfl

/-- No letter outside ASCII has a capital in a reserved word. -/
theorem ascii_keywords :
    ∀ w ∈ keywords, ∀ c ∈ w.1.toList, c.toNat < 0x80 ∧ c ≠ 'I' ∧ c ≠ 'S' := by
  simp [keywords]

theorem ofWord?_keyword {w : String × Kind} (hw : w ∈ keywords) :
    ofWord? (Text.ofString w.1) = some w.2 := by
  have hall : ∀ w ∈ keywords, ofWord? (Text.ofString w.1) = some w.2 := by decide +kernel
  exact hall w hw

/-- A word is reserved if it is a keyword once the ASCII letters in it are capitals. -/
theorem capitals_eq_iff {w : String × Kind} (hw : w ∈ keywords) (cs : List Char) :
    (Text.encode cs).capitals = Text.ofString w.1 ↔ cs.map Char.toUpper = w.1.toList := by
  rw [Text.capitals_encode, Text.ofString, Text.encode_inj,
    Text.map_capital_eq_iff (ascii_keywords w hw)]

theorem exists_keyword {t : Text} {k : Kind} (h : ofWord? t = some k) :
    ∃ w ∈ keywords, t = Text.ofString w.1 ∧ k = w.2 := by
  have hmem := mem_words h
  rw [words_eq] at hmem
  obtain ⟨w, hw, heq⟩ := List.mem_map.1 hmem
  obtain ⟨rfl, rfl⟩ := Prod.mk.inj heq
  exact ⟨w, hw, rfl, rfl⟩

end Kind

namespace Token

/-- The token that a word is read as. -/
def Reads (w : List (Char × Location)) (token : Token) : Prop :=
  w.head?.map (·.2) = some token.loc ∧
    ((∃ keyword ∈ Kind.keywords, (w.map (·.1)).map Char.toUpper = keyword.1.toList ∧
        token.kind = keyword.2 ∧ token.text = Text.ofString keyword.1) ∨
      (∀ keyword ∈ Kind.keywords, (w.map (·.1)).map Char.toUpper ≠ keyword.1.toList) ∧
        token.kind = .identifier ∧ token.text = Text.encode (w.map (·.1)))

theorem classify_reserved {w : Text} {k : Kind} (h : Kind.ofWord? w.capitals = some k)
    (loc : Location) : classify w loc = ⟨k, w.capitals, loc⟩ := by
  simp only [classify, h]

theorem classify_identifier {w : Text} (h : Kind.ofWord? w.capitals = none) (loc : Location) :
    classify w loc = ⟨.identifier, w, loc⟩ := by
  simp only [classify, h]

/-- A word is read as the token of the word, and as nothing else. -/
theorem reads_iff {w : List (Char × Location)} (hw : w ≠ []) {token : Token} :
    Reads w token ↔ token = ofWord w := by
  obtain ⟨q, rest, rfl⟩ := List.exists_cons_of_ne_nil hw
  obtain ⟨kind, text, loc⟩ := token
  have hloc : ofWord (q :: rest) = classify (Text.encode ((q :: rest).map (·.1))) q.2 := rfl
  rw [hloc]
  generalize hcs : (q :: rest).map (·.1) = cs
  simp only [Reads, hcs, List.head?_cons, Option.map_some, Option.some.injEq]
  cases hk : Kind.ofWord? (Text.encode cs).capitals with
  | some k =>
    rw [classify_reserved hk, Token.mk.injEq]
    obtain ⟨keyword, hmem, hcapitals, rfl⟩ := Kind.exists_keyword hk
    constructor
    · rintro ⟨hplace, ⟨keyword', hmem', hupper, hkind, htext⟩ | ⟨hnone, -⟩⟩
      · have hsame := (Kind.capitals_eq_iff hmem' cs).2 hupper
        rw [hsame, Kind.ofWord?_keyword hmem'] at hk
        rw [hsame]
        exact ⟨hkind.trans (Option.some.inj hk), htext, hplace.symm⟩
      · exact absurd ((Kind.capitals_eq_iff hmem cs).1 hcapitals) (hnone keyword hmem)
    · rintro ⟨rfl, rfl, rfl⟩
      exact ⟨rfl, .inl ⟨keyword, hmem, (Kind.capitals_eq_iff hmem cs).1 hcapitals, rfl, hcapitals⟩⟩
  | none =>
    have hnone : ∀ keyword ∈ Kind.keywords, cs.map Char.toUpper ≠ keyword.1.toList := by
      intro keyword hmem hupper
      rw [(Kind.capitals_eq_iff hmem cs).2 hupper, Kind.ofWord?_keyword hmem] at hk
      cases hk
    rw [classify_identifier hk, Token.mk.injEq]
    constructor
    · rintro ⟨hplace, ⟨keyword, hmem, hupper, -⟩ | ⟨-, hkind, htext⟩⟩
      · exact absurd hupper (hnone keyword hmem)
      · exact ⟨hkind, htext, hplace.symm⟩
    · rintro ⟨rfl, rfl, rfl⟩
      exact ⟨rfl, .inr ⟨hnone, rfl, rfl⟩⟩

/-- What the words are read as, one by one. -/
theorem forall₂_reads_iff {ws : List (List (Char × Location))} (hws : ∀ w ∈ ws, w ≠ [])
    {tokens : List Token} : List.Forall₂ Reads ws tokens ↔ tokens = ws.map ofWord := by
  induction ws generalizing tokens with
  | nil => simp
  | cons w ws ih =>
    obtain ⟨hw, hws⟩ := List.forall_mem_cons.1 hws
    cases tokens with
    | nil => simp
    | cons token tokens =>
      rw [List.forall₂_cons, reads_iff hw, ih hws, List.map_cons, List.cons.injEq]

/-- The tokens of a text are those of its words, in order, and nothing else: of the longest runs of
characters without white space, where every character stands in the line and the column that are
told by all characters before it. -/
theorem lex_eq_iff (src : Text) (tokens : List Token) :
    lex src = tokens ↔
      ∃ chars ws, Text.Decodes src chars ∧
        Parted (fun q => decide (q.1.toNat ∈ Text.whiteSpace))
          (Location.located (Text.ofString "input") chars) ws ∧
        List.Forall₂ Reads ws tokens := by
  generalize hname : Text.ofString "input" = name
  have hparted := parted_words (Location.located name (Text.decode src))
  have hwords : ∀ w ∈ words (Location.located name (Text.decode src)), w ≠ [] :=
    fun w hw => (hparted.of_mem hw).1
  simp only [Text.isBlank_eq] at hparted
  rw [lex_eq, hname, ofChars]
  constructor
  · rintro rfl
    exact ⟨_, _, Text.decodes_decode src, hparted, (forall₂_reads_iff hwords).2 rfl⟩
  · rintro ⟨chars, ws, hchars, hws, htokens⟩
    obtain rfl := Text.decodes_iff.1 hchars
    obtain rfl := hparted.unique hws
    exact ((forall₂_reads_iff hwords).1 htokens).symm

end Token
end Birdcall
