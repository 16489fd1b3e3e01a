import Birdcall.Proofs.Utf8
import Birdcall.Text.Base64
import Birdcall.Yaml.Written

/-!
# Base 64 reads back

What is written in base 64 is read back as it was, also when it has been cut into lines.  It has only
characters that stand for themselves in a scalar.
-/

namespace Birdcall.Text.Base64

/-! ## Digits -/

theorem value?_digit {n : Nat} (h : n < 64) : value? (digit n) = some n := by
  have hall : ∀ n : Fin 64, value? (digit n) = some n.val := by decide
  exact hall ⟨n, h⟩

/-- Digits are letters, numerals and two more: no fillers, and no line breaks. -/
theorem digit_mem (n : Nat) :
    digit n ≠ filler ∧ digit n ≠ 10 ∧ digit n ≠ 13 ∧ (digit n).toNat < 0x80 := by
  have hall : ∀ n : Fin 64,
      digit n ≠ filler ∧ digit n ≠ 10 ∧ digit n ≠ 13 ∧ (digit n).toNat < 0x80 := by decide
  by_cases h : n < 64
  · exact hall ⟨n, h⟩
  · have hlast : digit n = digit 63 := by
      rw [digit, if_neg (by omega), if_neg (by omega), if_neg (by omega), if_neg (by omega)]
      rfl
    rw [hlast]
    exact hall 63

/-! ## Groups -/

theorem toUInt8_eq {b : UInt8} {n : Nat} (h : n = b.toNat) : n.toUInt8 = b := by
  rw [h]
  exact UInt8.ofNat_toNat

/-- What is written in base 64 is read back. -/
theorem groups_encode (t : Text) : groups (encode t) = some t := by
  induction t using encode.induct with
  | case1 => rfl
  | case2 a =>
    have ha := a.toNat_lt
    have hp := value?_digit (n := a.toNat / 4) (by omega)
    have hq := value?_digit (n := a.toNat % 4 * 16) (by omega)
    have hfirst : (a.toNat / 4 * 4 + a.toNat % 4 * 16 / 16).toUInt8 = a := toUInt8_eq (by omega)
    simp only [encode, groups, hp, hq, Option.bind_eq_bind, Option.bind_some, hfirst]
    rfl
  | case3 a b =>
    have ha := a.toNat_lt
    have hb := b.toNat_lt
    have hp := value?_digit (n := a.toNat / 4) (by omega)
    have hq := value?_digit (n := a.toNat % 4 * 16 + b.toNat / 16) (by omega)
    have hr := value?_digit (n := b.toNat % 16 * 4) (by omega)
    have hfiller := (digit_mem (b.toNat % 16 * 4)).1
    have hfirst : (a.toNat / 4 * 4 + (a.toNat % 4 * 16 + b.toNat / 16) / 16).toUInt8 = a :=
      toUInt8_eq (by omega)
    have hsecond :
        ((a.toNat % 4 * 16 + b.toNat / 16) % 16 * 16 + b.toNat % 16 * 4 / 4).toUInt8 = b :=
      toUInt8_eq (by omega)
    simp only [encode, groups, hp, hq, hr, hfiller, Option.bind_eq_bind, Option.bind_some, hfirst,
      hsecond]
    simp
  | case4 a b c rest ih =>
    have ha := a.toNat_lt
    have hb := b.toNat_lt
    have hc := c.toNat_lt
    have hp := value?_digit (n := a.toNat / 4) (by omega)
    have hq := value?_digit (n := a.toNat % 4 * 16 + b.toNat / 16) (by omega)
    have hr := value?_digit (n := b.toNat % 16 * 4 + c.toNat / 64) (by omega)
    have hs := value?_digit (n := c.toNat % 64) (by omega)
    have hfiller := (digit_mem (b.toNat % 16 * 4 + c.toNat / 64)).1
    have hfiller' := (digit_mem (c.toNat % 64)).1
    have hfirst : (a.toNat / 4 * 4 + (a.toNat % 4 * 16 + b.toNat / 16) / 16).toUInt8 = a :=
      toUInt8_eq (by omega)
    have hsecond : ((a.toNat % 4 * 16 + b.toNat / 16) % 16 * 16 +
        (b.toNat % 16 * 4 + c.toNat / 64) / 4).toUInt8 = b :=
      toUInt8_eq (by omega)
    have hthird : ((b.toNat % 16 * 4 + c.toNat / 64) % 4 * 64 + c.toNat % 64).toUInt8 = c :=
      toUInt8_eq (by omega)
    simp only [encode, groups, hp, hq, hr, hs, hfiller, hfiller', if_false, Option.bind_eq_bind,
      Option.bind_some, hfirst, hsecond, hthird, ih]

/-! ## Characters -/

/-- What is written has no line breaks and is all ASCII. -/
theorem encode_mem (t : Text) : ∀ b ∈ encode t, b ≠ 10 ∧ b ≠ 13 ∧ b.toNat < 0x80 := by
  have hfiller : filler ≠ 10 ∧ filler ≠ 13 ∧ filler.toNat < 0x80 := by decide
  induction t using encode.induct with
  | case1 => simp [encode]
  | case2 a => simp [encode, digit_mem, hfiller]
  | case3 a b => simp [encode, digit_mem, hfiller]
  | case4 a b c rest ih => simpa [encode, digit_mem] using ih

/-- It begins with a digit. -/
theorem encode_cons (b : UInt8) (rest : Text) :
    ∃ n tail, n < 64 ∧ encode (b :: rest) = digit n :: tail := by
  have hb := b.toNat_lt
  refine ⟨b.toNat / 4, (encode (b :: rest)).tail, by omega, ?_⟩
  cases rest with
  | nil => rfl
  | cons c rest => cases rest <;> rfl

end Birdcall.Text.Base64

namespace Birdcall.Yaml.Written

open Text

variable {width more : Nat} {t : Text}

/-! ## Lines -/

theorem mem_lines {b : UInt8} (h : b ∈ lines more t) : b ∈ t ∨ b = lineFeed := by
  induction t using lines.induct more with
  | case1 => simp [lines] at h
  | case2 a rest ih =>
    rw [lines, List.cons_append, List.mem_cons, List.mem_append, List.mem_cons] at h
    rcases h with rfl | h | rfl | h
    · exact .inl List.mem_cons_self
    · exact .inl (List.mem_cons_of_mem _ (List.mem_of_mem_take h))
    · exact .inr rfl
    · exact (ih h).imp_left fun h => List.mem_cons_of_mem _ (List.mem_of_mem_drop h)

/-- Without its line feeds a text in lines is the text. -/
theorem filter_lines {p : UInt8 → Bool} (hp : p lineFeed = false) (ht : ∀ b ∈ t, p b = true) :
    (lines more t).filter p = t := by
  induction t using lines.induct more with
  | case1 => simp [lines]
  | case2 a rest ih =>
    rw [List.forall_mem_cons] at ht
    have htake : (rest.take more).filter p = rest.take more :=
      List.filter_eq_self.2 fun b hb => ht.2 b (List.mem_of_mem_take hb)
    have hdrop := ih fun b hb => ht.2 b (List.mem_of_mem_drop hb)
    rw [lines, List.cons_append, List.filter_cons_of_pos ht.1, List.filter_append, htake,
      List.filter_cons_of_neg (by simp [hp]), hdrop, List.take_append_drop]

theorem mem_cut {b : UInt8} (h : b ∈ cut width t) : b ∈ t ∨ b = lineFeed := by
  rw [cut] at h
  split at h
  · exact .inl h
  · exact mem_lines h

theorem head?_cut : (cut width t).head? = t.head? := by
  rw [cut]
  split
  · rfl
  · cases t <;> simp [lines]

/-- Bytes that are no UTF-8, as they stand in a scalar. -/
def data (t : Text) : Text := cut 70 (Base64.encode t)

/-- Base 64 is read back, also if it has been cut into lines. -/
theorem decode_data (t : Text) : Base64.decode (data t) = some t := by
  have hkept : ∀ b ∈ Base64.encode t, (b != 10 && b != 13) = true := fun b hb => by
    simp [Base64.encode_mem t b hb]
  have hfilter : (data t).filter (fun b => b != 10 && b != 13) = Base64.encode t := by
    rw [data, cut]
    split
    · exact List.filter_eq_self.2 hkept
    · exact filter_lines rfl hkept
  rw [Base64.decode, hfilter, Base64.groups_encode]

theorem valid_data (t : Text) : Text.Valid (data t) := by
  apply valid_of_ascii
  intro b hb
  rcases mem_cut hb with hb | rfl
  · exact (Base64.encode_mem t b hb).2.2
  · decide

/-- Binary data begin with a digit. -/
theorem chars_data (ht : t ≠ []) :
    ∃ n tail, n < 64 ∧ Text.decode (data t) = Char.ofNat (Base64.digit n).toNat :: tail := by
  obtain ⟨b, rest, rfl⟩ := List.exists_cons_of_ne_nil ht
  obtain ⟨n, tail, hn, hencode⟩ := Base64.encode_cons b rest
  have hhead : (data (b :: rest)).head? = some (Base64.digit n) := by
    rw [data, head?_cut, hencode]
    rfl
  obtain ⟨tail, hcut⟩ := List.head?_eq_some_iff.1 hhead
  refine ⟨n, Text.decode tail, hn, ?_⟩
  rw [hcut, decode_ascii_cons (Base64.digit_mem n).2.2.2]

end Birdcall.Yaml.Written
