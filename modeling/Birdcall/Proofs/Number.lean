import Birdcall.Text.Number
import Birdcall.Yaml.Value

/-!
# Decimal numbers read back

A natural number in decimal has no zero in front and no separators, so it is read in base ten, as
the number it was.  A plain scalar that looks like one is that integer.
-/

namespace Birdcall.Text

/-! ## Digits -/

theorem ofNat_of_lt {n : Nat} (h : n < 10) : ofNat n = [byte n.digitChar] := by
  rw [ofNat, Nat.toDigits_of_lt_base h]
  rfl

theorem ofNat_of_le {n : Nat} (h : 10 ≤ n) :
    ofNat n = ofNat (n / 10) ++ [byte (n % 10).digitChar] := by
  rw [ofNat, Nat.toDigits_of_base_le (by decide) h, List.map_append]
  rfl

/-- What holds of the digits holds of decimal numbers, if it is kept when a digit is added. -/
theorem ofNat_induction {motive : Nat → Prop} (digit : ∀ n < 10, motive n)
    (append : ∀ n, 10 ≤ n → motive (n / 10) → motive n) (n : Nat) : motive n := by
  induction n using Nat.strongRecOn with
  | _ n ih =>
    by_cases h : n < 10
    · exact digit n h
    · exact append n (by omega) (ih (n / 10) (by omega))

theorem digit_digitChar {d : Nat} (h : d < 10) :
    isDigit (byte d.digitChar) = true ∧ digitValue? (byte d.digitChar) = some d ∧
      (byte d.digitChar = byte '0' → d = 0) := by
  have hall : ∀ d : Fin 10, isDigit (byte d.val.digitChar) = true ∧
      digitValue? (byte d.val.digitChar) = some d.val ∧
      (byte d.val.digitChar = byte '0' → d.val = 0) := by decide
  exact hall ⟨d, h⟩

theorem isDigit_of_mem_ofNat {n : Nat} : ∀ b ∈ ofNat n, isDigit b = true := by
  induction n using ofNat_induction with
  | digit n h => simpa [ofNat_of_lt h] using (digit_digitChar h).1
  | append n h ih =>
    have hlast := (digit_digitChar (Nat.mod_lt n (show 0 < 10 by decide))).1
    simpa [ofNat_of_le h, hlast, or_imp, forall_and] using ih

theorem ofNat_ne_nil (n : Nat) : ofNat n ≠ [] := by
  simp [ofNat, Nat.toDigits_ne_nil]

/-- Only zero begins with a zero. -/
theorem head?_ofNat {n : Nat} (hn : n ≠ 0) : ∃ b ∈ (ofNat n).head?, b ≠ byte '0' := by
  induction n using ofNat_induction with
  | digit n h =>
    have hfirst : (ofNat n).head? = some (byte n.digitChar) := by rw [ofNat_of_lt h]; rfl
    exact ⟨_, hfirst, fun hzero => hn ((digit_digitChar h).2.2 hzero)⟩
  | append n h ih =>
    obtain ⟨b, hb, hzero⟩ := ih (by omega)
    refine ⟨b, ?_, hzero⟩
    rw [ofNat_of_le h, List.head?_append, hb]
    rfl

/-! ## Integers -/

theorem digitsFrom_append (base n : Nat) (s t : Text) :
    digitsFrom base n (s ++ t) = (digitsFrom base n s).bind fun m => digitsFrom base m t := by
  induction s generalizing n with
  | nil => rfl
  | cons b s ih =>
    rw [List.cons_append, digitsFrom, digitsFrom]
    cases digitValue? b with
    | none => rfl
    | some d =>
      dsimp only
      split
      · rfl
      · split
        · rfl
        · exact ih _

theorem digitsFrom_digit {m d : Nat} (hd : d < 10) (h : m * 10 + d ≤ maxNatural) :
    digitsFrom 10 m [byte d.digitChar] = .ok (m * 10 + d) := by
  simp [digitsFrom, (digit_digitChar hd).2.1, Nat.not_le.2 hd, Nat.not_lt.2 h]

theorem digitsFrom_ofNat {n : Nat} (h : n ≤ maxNatural) : digitsFrom 10 0 (ofNat n) = .ok n := by
  induction n using ofNat_induction with
  | digit n hn =>
    rw [ofNat_of_lt hn, digitsFrom_digit hn (by omega)]
    simp
  | append n hn ih =>
    have hsplit : n / 10 * 10 + n % 10 = n := by omega
    rw [ofNat_of_le hn, digitsFrom_append, ih (by omega), Except.bind,
      digitsFrom_digit (by omega) (by omega), hsplit]

theorem dropSeparators_digits {t : Text} (h : ∀ b ∈ t, isDigit b = true) :
    dropSeparators t = t := by
  refine List.filter_eq_self.2 fun b hb => ?_
  have hdigit := h b hb
  rw [bne_iff_ne]
  rintro rfl
  cases hdigit

/-- A number without a zero in front is read in base ten. -/
theorem natural_ofNat {n : Nat} (h : n ≤ maxNatural) : natural (ofNat n) = .ok n := by
  by_cases hn : n = 0
  · subst hn
    rfl
  · obtain ⟨b, hb, hzero⟩ := head?_ofNat hn
    obtain ⟨rest, hcons⟩ := List.head?_eq_some_iff.1 hb
    have hdigits : ∀ b ∈ ofNat n, isDigit b = true := isDigit_of_mem_ofNat
    have hbase : splitBase (ofNat n) = (10, ofNat n) := by
      rw [hcons]
      cases rest with
      | nil => simp [splitBase, hzero]
      | cons x rest => cases rest <;> simp [splitBase, hzero]
    have hany : (ofNat n).any (· = byte '_') = false := by
      rw [List.any_eq_false]
      intro b hb hseparator
      have hdigit := hdigits b hb
      rw [of_decide_eq_true hseparator] at hdigit
      cases hdigit
    have hempty : (ofNat n).isEmpty = false := by rw [hcons]; rfl
    simp only [natural, hempty, hbase, dropSeparators_digits hdigits, digitsFrom_ofNat h, hany]
    rfl

theorem integer_ofNat {n : Nat} (h : n < integerLimit) : integer (ofNat n) = .ok (n : Int) := by
  have hmax : integerLimit ≤ maxNatural := by decide
  obtain ⟨b, rest, hcons⟩ := List.exists_cons_of_ne_nil (ofNat_ne_nil n)
  have hdigit : isDigit b = true := isDigit_of_mem_ofNat b (by rw [hcons]; exact List.mem_cons_self)
  have hplus : b ≠ byte '+' := by rintro rfl; cases hdigit
  have hminus : b ≠ byte '-' := by rintro rfl; cases hdigit
  have hunsigned : unsignedPart (ofNat n) = ofNat n := by
    rw [hcons]
    simp [unsignedPart, hplus, hminus]
  have hsign : (ofNat n).head? ≠ some (byte '-') := by
    rw [hcons]
    simpa using hminus
  simp [integer, signed, hunsigned, natural_ofNat (Nat.le_trans (Nat.le_of_lt h) hmax), hsign, h]

end Birdcall.Text

namespace Birdcall.Yaml

/-- No word with a meaning of its own begins like a number. -/
theorem Value.ofWord?_digit {b : UInt8} (h : Text.isDigit b = true) (t : Text) :
    Value.ofWord? (b :: t) = none := by
  have hwords : ∀ entry ∈ Value.words, ∀ s ∈ entry.1,
      (Text.ofString s).head?.any Text.isDigit = false := by decide
  rw [Value.ofWord?, Option.map_eq_none_iff, List.find?_eq_none]
  intro entry hentry hany
  obtain ⟨s, hs, heq⟩ := List.any_eq_true.1 hany
  have hfirst := hwords entry hentry s hs
  rw [of_decide_eq_true heq, List.head?_cons, Option.any_some, h] at hfirst
  cases hfirst

/-- Digits alone are no timestamp. -/
theorem Timestamp.read?_digits {t : Text} (h : ∀ b ∈ t, Text.isDigit b = true) :
    Timestamp.read? t = none := by
  have hafter : after? (Text.byte '-') (t.drop 4) = none := by
    cases hdrop : t.drop 4 with
    | nil => rfl
    | cons b rest =>
      have hdigit := h b (List.mem_of_mem_drop (by rw [hdrop]; exact List.mem_cons_self))
      have hminus : b ≠ Text.byte '-' := by rintro rfl; cases hdigit
      simp [after?, hminus]
  have hdate : date? t = none := by
    simp [date?, hafter]
  simp [read?, hdate]

/-- A plain scalar that is a number in decimal means it. -/
theorem Value.ofPlain_ofNat (timestamps : Bool) {n : Nat} (h : n < Text.integerLimit) :
    Value.ofPlain timestamps (Text.ofNat n) = (.int, .integer n) := by
  have hdigits : ∀ b ∈ Text.ofNat n, Text.isDigit b = true := Text.isDigit_of_mem_ofNat
  have hnumber : Value.ofNumeral timestamps (Text.ofNat n) = (.int, .integer n) := by
    have htime : (if timestamps then Timestamp.read? (Text.ofNat n) else none) = none := by
      rw [Timestamp.read?_digits hdigits, ite_self]
    simp [Value.ofNumeral, htime, Text.dropSeparators_digits hdigits, Value.ofNumber?,
      Text.integer_ofNat h]
  obtain ⟨b, rest, hcons⟩ := List.exists_cons_of_ne_nil (Text.ofNat_ne_nil n)
  have hdigit := hdigits b (by rw [hcons]; exact List.mem_cons_self)
  rw [hcons] at hnumber ⊢
  simp [Value.ofPlain, hdigit, Value.ofWord?_digit hdigit, hnumber]

end Birdcall.Yaml
