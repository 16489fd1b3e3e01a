import Birdcall.Text.Utf8

/-!
# Facts about UTF-8

Reading and writing characters, apart from what is done with them.

* Looking at the beginning of a text.  A look that has found a character, or a byte that starts
  none, stays as it is whatever follows (`front_append`), and four bytes are always enough to find
  one of the two (`front_ne_cut`).
* Writing and reading back.  The bytes of a character read as that character (`front_encodeChar`),
  so a text written from characters reads as these (`decode_encode`), also in front of another text
  (`pieces_encode_append`).
-/

namespace Birdcall.Text

/-! ## Looking at the beginning -/

theorem tails_append {bits size owed : Nat} {t : Text} (h : tails bits size owed t ≠ .cut)
    (more : Text) : tails bits size owed (t ++ more) = tails bits size owed t := by
  induction owed generalizing bits size t with
  | zero => simp only [tails]
  | succ owed ih =>
    cases t with
    | nil => exact absurd rfl h
    | cons b rest =>
      simp only [List.cons_append, tails] at h ⊢
      split at h
      · next hb => rw [if_pos hb, if_pos hb, ih h]
      · next hb => rw [if_neg hb, if_neg hb]

theorem tails_ne_cut (bits size : Nat) {owed : Nat} {t : Text} (h : owed ≤ t.length) :
    tails bits size owed t ≠ .cut := by
  induction owed generalizing bits size t with
  | zero => simp [tails]
  | succ owed ih =>
    cases t with
    | nil => simp at h
    | cons b rest =>
      rw [tails]
      split
      · exact ih _ _ (Nat.le_of_succ_le_succ h)
      · simp

/-- No first byte asks for more than three others. -/
theorem tails_lead? {b : UInt8} {l : Lead} (h : lead? b = some l) : l.tails ≤ 3 := by
  simp only [lead?] at h
  repeat' split at h
  all_goals simp only [reduceCtorEq, Option.some.injEq] at h
  all_goals simp [← h]

/-- What a look has found stays as it is, whatever follows. -/
theorem front_append {t : Text} (h : front t ≠ .cut) (more : Text) :
    front (t ++ more) = front t := by
  cases t with
  | nil => exact absurd rfl h
  | cons b rest =>
    rw [List.cons_append]
    simp only [front] at h ⊢
    by_cases hb : b.toNat < 0x80
    · rw [if_pos hb, if_pos hb]
    · rw [if_neg hb] at h ⊢
      rw [if_neg hb]
      cases hl : lead? b with
      | none => rfl
      | some l =>
        cases rest with
        | nil => simp [hl] at h
        | cons c rest =>
          simp only [hl, List.cons_append] at h ⊢
          split at h
          · next hc => rw [if_pos hc, if_pos hc, tails_append h]
          · next hc => rw [if_neg hc, if_neg hc]

theorem size_tails {bits size owed n : Nat} {t : Text} {c : Char}
    (h : tails bits size owed t = .char c n) : n ≤ size + t.length := by
  induction owed generalizing bits size t with
  | zero =>
    simp only [tails, Front.char.injEq] at h
    omega
  | succ owed ih =>
    cases t with
    | nil => simp [tails] at h
    | cons b rest =>
      rw [tails] at h
      split at h
      · have hsize := ih h
        simp only [List.length_cons]
        omega
      · cases h

/-- A character lies in the text it was found in. -/
theorem size_front {t : Text} {c : Char} {n : Nat} (h : front t = .char c n) : n ≤ t.length := by
  match t with
  | [] => simp [front] at h
  | [b] =>
    simp only [front] at h
    split at h
    · cases h
      simp
    · cases hl : lead? b <;> simp [hl] at h
  | b :: d :: rest =>
    simp only [front] at h
    split at h
    · cases h
      simp
    · cases hl : lead? b with
      | none => simp [hl] at h
      | some l =>
        simp only [hl] at h
        split at h
        · have hsize := size_tails h
          simp only [List.length_cons]
          omega
        · cases h

/-- Four bytes show a whole character, or that there is none. -/
theorem front_ne_cut {t : Text} (h : 4 ≤ t.length) : front t ≠ .cut := by
  match t with
  | [] | [_] => simp at h
  | b :: c :: rest =>
    simp only [front]
    by_cases hb : b.toNat < 0x80
    · rw [if_pos hb]
      simp
    · rw [if_neg hb]
      cases hl : lead? b with
      | none => simp
      | some l =>
        have htails := tails_lead? hl
        simp only [List.length_cons] at h
        simp only
        split
        · exact tails_ne_cut _ _ (by omega)
        · simp

/-! ## Writing and reading back -/

theorem toNat_valid (c : Char) : c.toNat < 0xD800 ∨ 0xDFFF < c.toNat ∧ c.toNat < 0x110000 :=
  c.valid

section Lead

variable {n : Nat}

theorem toNat_toUInt8 (h : n < 256) : n.toUInt8.toNat = n := Nat.mod_eq_of_lt h

theorem lead?_two (hlow : 0x80 ≤ n) (hhigh : n < 0x800) :
    lead? (0xC0 + n / 0x40).toUInt8 = some ⟨n / 0x40, 1, 0x80, 0xBF⟩ := by
  have hbyte : (0xC0 + n / 0x40).toUInt8.toNat = 0xC0 + n / 0x40 := toNat_toUInt8 (by omega)
  have hbits : 0xC0 + n / 0x40 - 0xC0 = n / 0x40 := by omega
  simp only [lead?, hbyte]
  rw [if_neg (by omega), if_pos (by omega), hbits]

/-- The first of three bytes: the second one is in the range it asks for, since the character is
neither overlong nor a surrogate. -/
theorem lead?_three (hlow : 0x800 ≤ n) (hhigh : n < 0x10000) (hvalid : n < 0xD800 ∨ 0xDFFF < n) :
    ∃ low high, lead? (0xE0 + n / 0x1000).toUInt8 = some ⟨n / 0x1000, 2, low, high⟩ ∧
      low ≤ 0x80 + n / 0x40 % 0x40 ∧ 0x80 + n / 0x40 % 0x40 ≤ high := by
  have hbyte : (0xE0 + n / 0x1000).toUInt8.toNat = 0xE0 + n / 0x1000 := toNat_toUInt8 (by omega)
  have hbits : 0xE0 + n / 0x1000 - 0xE0 = n / 0x1000 := by omega
  simp only [lead?, hbyte]
  rw [if_neg (by omega), if_neg (by omega)]
  by_cases hfirst : n / 0x1000 = 0
  · refine ⟨0xA0, 0xBF, ?_, by omega, by omega⟩
    rw [if_pos (by omega), hfirst]
  · rw [if_neg (by omega)]
    by_cases hsurrogate : n / 0x1000 = 0xD
    · refine ⟨0x80, 0x9F, ?_, by omega, by omega⟩
      rw [if_pos (by omega), hsurrogate]
    · refine ⟨0x80, 0xBF, ?_, by omega, by omega⟩
      rw [if_neg (by omega), if_pos (by omega), hbits]

/-- The first of four bytes: the second one is in the range it asks for, since the character is
neither overlong nor past the last one. -/
theorem lead?_four (hlow : 0x10000 ≤ n) (hhigh : n < 0x110000) :
    ∃ low high, lead? (0xF0 + n / 0x40000).toUInt8 = some ⟨n / 0x40000, 3, low, high⟩ ∧
      low ≤ 0x80 + n / 0x1000 % 0x40 ∧ 0x80 + n / 0x1000 % 0x40 ≤ high := by
  have hbyte : (0xF0 + n / 0x40000).toUInt8.toNat = 0xF0 + n / 0x40000 := toNat_toUInt8 (by omega)
  have hbits : 0xF0 + n / 0x40000 - 0xF0 = n / 0x40000 := by omega
  simp only [lead?, hbyte]
  rw [if_neg (by omega), if_neg (by omega), if_neg (by omega), if_neg (by omega), if_neg (by omega)]
  by_cases hfirst : n / 0x40000 = 0
  · refine ⟨0x90, 0xBF, ?_, by omega, by omega⟩
    rw [if_pos (by omega), hfirst]
  · rw [if_neg (by omega)]
    by_cases hlast : n / 0x40000 = 4
    · refine ⟨0x80, 0x8F, ?_, by omega, by omega⟩
      rw [if_neg (by omega), if_pos (by omega), hlast]
    · refine ⟨0x80, 0xBF, ?_, by omega, by omega⟩
      rw [if_pos (by omega), hbits]

end Lead

section Bytes

variable {b c : UInt8} {rest : Text}

theorem front_ascii (h : b.toNat < 0x80) : front (b :: rest) = .char (Char.ofNat b.toNat) 1 := by
  simp only [front]
  rw [if_pos h]

theorem front_lead {bits owed low high : Nat} (hb : 0x80 ≤ b.toNat)
    (hl : lead? b = some ⟨bits, owed + 1, low, high⟩) (hc : low ≤ c.toNat ∧ c.toNat ≤ high) :
    front (b :: c :: rest) = tails (bits * 0x40 + (c.toNat - 0x80)) 2 owed rest := by
  simp only [front, hl]
  rw [if_neg (by omega), if_pos hc]
  rfl

/-- A continuation byte adds its six bits. -/
theorem tails_byte {m : Nat} (bits size owed : Nat) (hm : m < 0x40) :
    tails bits size (owed + 1) ((0x80 + m).toUInt8 :: rest) =
      tails (bits * 0x40 + m) (size + 1) owed rest := by
  have hbyte : (0x80 + m).toUInt8.toNat = 0x80 + m := toNat_toUInt8 (by omega)
  have hbits : 0x80 + m - 0x80 = m := by omega
  simp only [tails, hbyte]
  rw [if_pos (by omega), hbits]

end Bytes

/-- The bytes of a character read as that character, whatever follows. -/
theorem front_encodeChar (c : Char) (rest : Text) :
    front (encodeChar c ++ rest) = .char c (encodeChar c).length := by
  have hvalid := toNat_valid c
  have hc : Char.ofNat c.toNat = c := Char.ofNat_toNat c
  simp only [encodeChar]
  generalize c.toNat = n at hvalid hc
  by_cases h1 : n < 0x80
  · have hbyte : n.toUInt8.toNat = n := toNat_toUInt8 (by omega)
    rw [if_pos h1, List.cons_append, front_ascii (hbyte.symm ▸ h1), hbyte, hc]
    rfl
  rw [if_neg h1]
  by_cases h2 : n < 0x800
  · have hfirst : (0xC0 + n / 0x40).toUInt8.toNat = 0xC0 + n / 0x40 := toNat_toUInt8 (by omega)
    have hsecond : (0x80 + n % 0x40).toUInt8.toNat = 0x80 + n % 0x40 := toNat_toUInt8 (by omega)
    have hbits : n / 0x40 * 0x40 + (0x80 + n % 0x40 - 0x80) = n := by omega
    rw [if_pos h2, List.cons_append, List.cons_append,
      front_lead (by omega) (lead?_two (by omega) h2) (by omega), hsecond, hbits]
    simp only [tails, hc, List.length_cons, List.length_nil]
  rw [if_neg h2]
  by_cases h3 : n < 0x10000
  · obtain ⟨low, high, hlead, hlow, hhigh⟩ := lead?_three (n := n) (by omega) h3 (by omega)
    have hfirst : (0xE0 + n / 0x1000).toUInt8.toNat = 0xE0 + n / 0x1000 := toNat_toUInt8 (by omega)
    have hsecond : (0x80 + n / 0x40 % 0x40).toUInt8.toNat = 0x80 + n / 0x40 % 0x40 :=
      toNat_toUInt8 (by omega)
    have hbits : (n / 0x1000 * 0x40 + (0x80 + n / 0x40 % 0x40 - 0x80)) * 0x40 + n % 0x40 = n := by
      omega
    rw [if_pos h3, List.cons_append, List.cons_append, List.cons_append,
      front_lead (by omega) hlead (by omega), hsecond,
      tails_byte _ _ 0 (Nat.mod_lt _ (by decide)), hbits]
    simp only [tails, hc, List.length_cons, List.length_nil]
  rw [if_neg h3]
  obtain ⟨low, high, hlead, hlow, hhigh⟩ := lead?_four (n := n) (by omega) (by omega)
  have hfirst : (0xF0 + n / 0x40000).toUInt8.toNat = 0xF0 + n / 0x40000 := toNat_toUInt8 (by omega)
  have hsecond : (0x80 + n / 0x1000 % 0x40).toUInt8.toNat = 0x80 + n / 0x1000 % 0x40 :=
    toNat_toUInt8 (by omega)
  have hbits : ((n / 0x40000 * 0x40 + (0x80 + n / 0x1000 % 0x40 - 0x80)) * 0x40 +
      n / 0x40 % 0x40) * 0x40 + n % 0x40 = n := by omega
  rw [List.cons_append, List.cons_append, List.cons_append, List.cons_append,
    front_lead (by omega) hlead (by omega), hsecond,
    tails_byte _ _ 1 (Nat.mod_lt _ (by decide)), tails_byte _ _ 0 (Nat.mod_lt _ (by decide)), hbits]
  simp only [tails, hc, List.length_cons, List.length_nil]

theorem encodeChar_ne_nil (c : Char) : encodeChar c ≠ [] := by
  simp only [encodeChar]
  repeat' split
  all_goals simp

theorem length_encodeChar_le (c : Char) : (encodeChar c).length ≤ 4 := by
  simp only [encodeChar]
  repeat' split
  all_goals simp

theorem encode_cons (c : Char) (cs : List Char) : encode (c :: cs) = encodeChar c ++ encode cs :=
  List.flatMap_cons

theorem encode_append (cs ds : List Char) : encode (cs ++ ds) = encode cs ++ encode ds :=
  List.flatMap_append

/-- A text has at least as many bytes as characters. -/
theorem length_le_length_encode (cs : List Char) : cs.length ≤ (encode cs).length := by
  induction cs with
  | nil => exact Nat.le_refl 0
  | cons c cs ih =>
    have hpos := List.length_pos_iff.2 (encodeChar_ne_nil c)
    rw [encode_cons, List.length_append, List.length_cons]
    omega

/-- What a piece shows depends only on its own bytes, once they are all there. -/
theorem piece_append {b : UInt8} {rest : Text} (h : front (b :: rest) ≠ .cut) (more : Text) :
    piece b (rest ++ more) = piece b rest := by
  simp only [piece, ← List.cons_append, front_append h]

/-- A piece lies in the text it was found in. -/
theorem piece_le (b : UInt8) (rest : Text) : (piece b rest).2 ≤ rest.length := by
  cases h : front (b :: rest) with
  | char c size =>
    have hsize := size_front h
    simp only [piece, h, List.length_cons] at hsize ⊢
    omega
  | invalid => simp [piece, h]
  | cut => simp [piece, h]

/-- What holds of a text if it holds behind its first piece holds of every text. -/
@[elab_as_elim]
theorem pieces_induction {motive : Text → Prop} (t : Text) (nil : motive [])
    (cons : ∀ b rest, motive (rest.drop (piece b rest).2) → motive (b :: rest)) : motive t :=
  pieces.induct motive nil cons t

theorem decode_nil : decode [] = [] := by
  rw [decode, pieces]
  rfl

theorem decode_cons (b : UInt8) (rest : Text) :
    decode (b :: rest) = (piece b rest).1.toChar :: decode (rest.drop (piece b rest).2) := by
  rw [decode, pieces]
  rfl

/-- The pieces of characters in front of a text. -/
theorem pieces_encode_append (cs : List Char) (t : Text) :
    pieces (encode cs ++ t) = cs.map .char ++ pieces t := by
  induction cs with
  | nil => rfl
  | cons c cs ih =>
    obtain ⟨b, bytes, hbytes⟩ := List.exists_cons_of_ne_nil (encodeChar_ne_nil c)
    have hfront := front_encodeChar c (encode cs ++ t)
    rw [hbytes, List.cons_append, List.length_cons] at hfront
    have hpiece : piece b (bytes ++ (encode cs ++ t)) = (.char c, bytes.length) := by
      rw [piece, hfront]
      rfl
    rw [encode, List.flatMap_cons, ← encode, List.append_assoc, hbytes, List.cons_append, pieces,
      hpiece]
    simp only [List.drop_left, ih, List.map_cons, List.cons_append]

theorem pieces_encodeChar_append (c : Char) (t : Text) :
    pieces (encodeChar c ++ t) = .char c :: pieces t := by
  have hpieces := pieces_encode_append [c] t
  rw [show encode [c] = encodeChar c from List.append_nil _] at hpieces
  exact hpieces

/-- UTF-8 has no stray bytes. -/
theorem pieces_encode (cs : List Char) : pieces (encode cs) = cs.map .char := by
  have hpieces := pieces_encode_append cs []
  rw [List.append_nil, pieces, List.append_nil] at hpieces
  exact hpieces

/-- Characters written and read back are the same. -/
theorem decode_encode (cs : List Char) : decode (encode cs) = cs := by
  rw [decode, pieces_encode, List.map_map]
  exact List.map_id cs

/-- A byte of ASCII is a character of its own. -/
theorem decode_ascii_cons {b : UInt8} (h : b.toNat < 0x80) (rest : Text) :
    decode (b :: rest) = Char.ofNat b.toNat :: decode rest := by
  have hpiece : piece b rest = (.char (Char.ofNat b.toNat), 0) := by rw [piece, front_ascii h]
  rw [decode_cons, hpiece]
  rfl

theorem encodeChar_ascii {b : UInt8} (h : b.toNat < 0x80) :
    encodeChar (Char.ofNat b.toNat) = [b] := by
  have hall : ∀ n : Fin 0x80, encodeChar (Char.ofNat n) = [n.val.toUInt8] := by decide
  rw [hall ⟨b.toNat, h⟩]
  exact congrArg (fun b => [b]) UInt8.ofNat_toNat

theorem encode_ascii {cs : List Char} (h : ∀ ch ∈ cs, ch.toNat < 0x80) :
    encode cs = cs.map byte := by
  induction cs with
  | nil => rfl
  | cons ch cs ih =>
    obtain ⟨hch, hcs⟩ := List.forall_mem_cons.1 h
    have hone : encodeChar ch = [byte ch] := by
      simp only [encodeChar]
      rw [if_pos hch, byte]
    rw [encode_cons, hone, ih hcs]
    rfl

theorem valid_of_ascii {t : Text} (h : ∀ b ∈ t, b.toNat < 0x80) : Valid t := by
  induction t with
  | nil => rw [Valid, decode_nil]; rfl
  | cons b rest ih =>
    obtain ⟨hb, hrest⟩ := List.forall_mem_cons.1 h
    rw [Valid, decode_ascii_cons hb, encode_cons, ih hrest, encodeChar_ascii hb]
    rfl

end Birdcall.Text
