import Birdcall.Proofs.Utf8
import Birdcall.Yaml.Supply

/-!
# Supplies of well-formed texts

A text in UTF-8 that holds only characters that may stand in one is supplied whole, however its
bytes fall into batches: a character that a batch cuts in two is left for the next one.
-/

namespace Birdcall.Yaml

namespace Encoding

/-- How many bytes a character has, by the range of its first byte. -/
theorem width?_eq (b : UInt8) :
    width? b =
      if b.toNat < 0x80 then some 1 else if b.toNat < 0xC0 then none
      else if b.toNat < 0xE0 then some 2 else if b.toNat < 0xF0 then some 3
      else if b.toNat < 0xF8 then some 4 else none := by
  have h : ∀ n : Fin 256, width? (UInt8.ofNat n.val) =
      if n.val < 0x80 then some 1 else if n.val < 0xC0 then none
      else if n.val < 0xE0 then some 2 else if n.val < 0xF0 then some 3
      else if n.val < 0xF8 then some 4 else none := by
    decide +kernel
  simpa using h ⟨b.toNat, b.toNat_lt⟩

/-- The first byte of a character tells how many there are. -/
theorem width?_encodeChar (c : Char) :
    ∃ b rest, Text.encodeChar c = b :: rest ∧ width? b = some (rest.length + 1) := by
  have hvalid := Text.toNat_valid c
  have hbyte : ∀ {n : Nat}, n < 256 → n.toUInt8.toNat = n := Text.toNat_toUInt8
  simp only [Text.encodeChar]
  split
  · refine ⟨_, [], rfl, ?_⟩
    rw [width?_eq, hbyte (by omega), if_pos (by omega)]
    rfl
  split
  · refine ⟨_, [_], rfl, ?_⟩
    rw [width?_eq, hbyte (by omega), if_neg (by omega), if_neg (by omega), if_pos (by omega)]
    rfl
  split
  · refine ⟨_, [_, _], rfl, ?_⟩
    rw [width?_eq, hbyte (by omega), if_neg (by omega), if_neg (by omega), if_neg (by omega),
      if_pos (by omega)]
    rfl
  · refine ⟨_, [_, _, _], rfl, ?_⟩
    rw [width?_eq, hbyte (by omega), if_neg (by omega), if_neg (by omega), if_neg (by omega),
      if_neg (by omega), if_pos (by omega)]
    rfl

theorem front_bytes_encodeChar (c : Char) (t : Text) :
    bytes.front (Text.encodeChar c ++ t) = .character c t := by
  obtain ⟨b, rest, hbytes, hwidth⟩ := width?_encodeChar c
  have hfront := Text.front_encodeChar c t
  rw [hbytes, List.cons_append] at hfront ⊢
  have hpiece : Text.piece b (rest ++ t) = (.char c, rest.length) := by
    simp only [Text.piece, hfront, List.length_cons, Nat.add_sub_cancel]
  have hlong : ¬ ((b :: (rest ++ t)).take (rest.length + 1)).length < rest.length + 1 := by
    simp
  simp only [front, hwidth, hpiece]
  rw [if_neg hlong, List.drop_left]

/-- A character that is cut off is waited for. -/
theorem front_bytes_cut (c : Char) {n : Nat} (h : n < (Text.encodeChar c).length) :
    bytes.front ((Text.encodeChar c).take n) = .unfinished := by
  obtain ⟨b, rest, hbytes, hwidth⟩ := width?_encodeChar c
  rw [hbytes] at h ⊢
  cases n with
  | zero => rfl
  | succ n =>
    have hshort : ((b :: rest.take n).take (rest.length + 1)).length < rest.length + 1 := by
      simp only [List.length_take, List.length_cons] at h ⊢
      omega
    rw [List.take_succ_cons]
    simp only [front, hwidth]
    rw [if_pos hshort]

/-- A window on a text shows its characters up to one that is cut off at the end. -/
theorem characters?_window {cs : List Char} (h : ∀ c ∈ cs, isAllowed c = true) {n fuel : Nat}
    (hfuel : ((Text.encode cs).take n).length ≤ fuel) :
    ∃ shown hidden left, cs = shown ++ hidden ∧
      (Text.encode cs).take n = Text.encode shown ++ left ∧
      bytes.characters? fuel ((Text.encode cs).take n) = some (shown, left) ∧
      (shown = [] → n < 4 ∨ cs = []) := by
  induction cs generalizing n fuel with
  | nil =>
    have hempty : (Text.encode []).take n = [] := List.take_nil
    rw [hempty]
    refine ⟨[], [], [], rfl, rfl, ?_, fun _ => .inr rfl⟩
    cases fuel <;> rfl
  | cons c cs ih =>
    obtain ⟨hc, hcs⟩ := List.forall_mem_cons.1 h
    rw [Text.encode_cons, List.take_append] at hfuel ⊢
    by_cases hn : n < (Text.encodeChar c).length
    · have hrest : (Text.encode cs).take (n - (Text.encodeChar c).length) = [] := by
        rw [Nat.sub_eq_zero_of_le (Nat.le_of_lt hn), List.take_zero]
      rw [hrest, List.append_nil]
      refine ⟨[], c :: cs, _, rfl, rfl, ?_, fun _ => .inl ?_⟩
      · cases fuel with
        | zero => rfl
        | succ fuel => simp only [characters?, front_bytes_cut c hn]
      · exact Nat.lt_of_lt_of_le hn (Text.length_encodeChar_le c)
    · rw [List.take_of_length_le (Nat.le_of_not_lt hn)] at hfuel ⊢
      have hpos := List.length_pos_iff.2 (Text.encodeChar_ne_nil c)
      cases fuel with
      | zero =>
        rw [List.length_append] at hfuel
        omega
      | succ fuel =>
        have hfuel : ((Text.encode cs).take (n - (Text.encodeChar c).length)).length ≤ fuel := by
          rw [List.length_append] at hfuel
          omega
        obtain ⟨shown, hidden, left, hsplit, hbytes, hread, -⟩ := ih hcs hfuel
        refine ⟨c :: shown, hidden, left, by rw [hsplit]; rfl, ?_, ?_, by simp⟩
        · rw [hbytes, Text.encode_cons, List.append_assoc]
        · simp only [characters?, front_bytes_encodeChar, hc, if_true, hread, Option.map_some]

/-- The batches of a well-formed text hold all its characters. -/
theorem batches_encode {cs : List Char} (h : ∀ c ∈ cs, isAllowed c = true) {size fuel : Nat}
    (hsize : 4 ≤ size) (hfuel : cs.length < fuel) :
    ∃ parts, bytes.batches fuel size (Text.encode cs) = (parts, true) ∧ parts.flatten = cs := by
  induction fuel generalizing cs size with
  | zero => omega
  | succ fuel ih =>
    cases cs with
    | nil => exact ⟨[], rfl, rfl⟩
    | cons c cs =>
      have hne : Text.encode (c :: cs) ≠ [] := by
        rw [Text.encode_cons]
        simp [Text.encodeChar_ne_nil]
      obtain ⟨shown, hidden, left, hsplit, hbytes, hread, hshown⟩ :=
        characters?_window h (n := size) (Nat.le_refl _)
      obtain ⟨d, ds, rfl⟩ : ∃ d ds, shown = d :: ds := by
        cases shown with
        | nil =>
          rcases hshown rfl with hlt | hnil
          · omega
          · cases hnil
        | cons d ds => exact ⟨d, ds, rfl⟩
      have hdrop : (Text.encode (c :: cs)).drop
          (((Text.encode (c :: cs)).take size).length - left.length) = Text.encode hidden := by
        rw [hbytes, List.length_append, Nat.add_sub_cancel, hsplit, Text.encode_append,
          List.drop_left]
      have hlength := congrArg List.length hsplit
      simp only [List.length_cons, List.length_append] at hlength hfuel
      have hhidden : ∀ e ∈ hidden, isAllowed e = true := fun e he =>
        h e (hsplit ▸ List.mem_append_right _ he)
      obtain ⟨parts, hparts, hflat⟩ := ih hhidden (show 4 ≤ batchSize by decide) (by omega)
      refine ⟨(d :: ds) :: parts, ?_, ?_⟩
      · cases ht : Text.encode (c :: cs) with
        | nil => exact absurd ht hne
        | cons b t =>
          rw [ht] at hread hdrop
          simp only [batches, hread, hdrop, hparts]
      · rw [List.flatten_cons, hflat, hsplit]

/-- No mark stands in front of a text that begins with an ASCII character. -/
theorem ofText_ascii {b : UInt8} (h : b.toNat < 0x80) (t : Text) : ofText (b :: t) = (bytes, 0) := by
  unfold ofText
  split
  all_goals simp_all

end Encoding

/-- A well-formed text that begins with an ASCII character is supplied whole. -/
theorem Supply.ofText_encode {c : Char} {cs : List Char} (hc : c.toNat < 0x80)
    (h : ∀ d ∈ c :: cs, isAllowed d = true) :
    (ofText (Text.encode (c :: cs))).characters = c :: cs ∧
      (ofText (Text.encode (c :: cs))).sound = true := by
  have hfirst : Text.encodeChar c = [c.toNat.toUInt8] := by
    simp only [Text.encodeChar]
    rw [if_pos hc]
  have hencoding : Encoding.ofText (Text.encode (c :: cs)) = (.bytes, 0) := by
    rw [Text.encode_cons, hfirst]
    exact Encoding.ofText_ascii (by rwa [Text.toNat_toUInt8 (by omega)]) _
  obtain ⟨parts, hparts, hflat⟩ := Encoding.batches_encode h
    (show 4 ≤ Encoding.batchSize by decide) (Nat.lt_succ_of_le (Text.length_le_length_encode _))
  simp only [ofText, hencoding, Nat.sub_zero, List.drop_zero, hparts, hflat, and_self]

end Birdcall.Yaml
