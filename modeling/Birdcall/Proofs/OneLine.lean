import Birdcall.Output
import Birdcall.Proofs.Devices
import Birdcall.Proofs.Lexing

/-!
# A printed value takes one clean line

`Text.Showable` is what a line may hold: whole characters, none of them a control.

* Valid text reads piece by piece (`Text.decode_append`), so showable texts in a row are showable.
* A control is escaped with visible ASCII alone (`Text.visible_escapeChar`), and everything else
  stays, so a clean text is showable (`Text.showable_clean`) and a showable text is left as it is
  (`Text.Showable.clean_eq`).
* A line goes to its writer in one offer (`Output.outcome_writeLine`).
-/

namespace Birdcall

namespace Text

variable {s t : Text}

/-! ## Valid text -/

/-- A text behind a valid one reads as it does alone. -/
theorem decode_append (hs : s.Valid) (t : Text) : decode (s ++ t) = decode s ++ decode t := by
  have hpieces : pieces (s ++ t) = (decode s).map .char ++ pieces t := by
    rw [← pieces_encode_append, hs]
  rw [decode, hpieces, List.map_append, List.map_map]
  exact congrArg (· ++ decode t) (List.map_id _)

theorem Valid.append (hs : s.Valid) (ht : t.Valid) : (s ++ t).Valid := by
  rw [Valid, decode_append hs, encode_append, hs, ht]

theorem valid_encode (cs : List Char) : (encode cs).Valid := by
  rw [Valid, decode_encode]

theorem decode_encodeChar (c : Char) : decode (encodeChar c) = [c] := by
  rw [show encodeChar c = encode [c] from (List.append_nil _).symm, decode_encode]

theorem decode_ascii (h : ∀ b ∈ t, b.toNat < 0x80) :
    decode t = t.map fun b => Char.ofNat b.toNat := by
  induction t with
  | nil => exact decode_nil
  | cons b rest ih =>
    obtain ⟨hb, hrest⟩ := List.forall_mem_cons.1 h
    rw [decode_ascii_cons hb, ih hrest, List.map_cons]

/-! ## Showable text -/

/-- Whole characters, and no control among them. -/
structure Showable (t : Text) : Prop where
  valid : t.Valid
  isControl : ∀ c ∈ decode t, isControl c = false

theorem showable_nil : Showable [] :=
  ⟨valid_encode [], by simp [decode_nil]⟩

theorem Showable.append (hs : s.Showable) (ht : t.Showable) : (s ++ t).Showable := by
  refine ⟨hs.valid.append ht.valid, fun c hc => ?_⟩
  rw [decode_append hs.valid, List.mem_append] at hc
  exact hc.elim (hs.isControl c) (ht.isControl c)

theorem showable_encodeChar {c : Char} (hc : isControl c = false) : (encodeChar c).Showable := by
  refine ⟨?_, fun d hd => ?_⟩
  · rw [Valid, decode_encodeChar]
    exact List.append_nil _
  · rw [decode_encodeChar, List.mem_singleton] at hd
    rw [hd, hc]

/-- A byte of ASCII that shows. -/
def Visible (b : UInt8) : Prop := 0x20 ≤ b.toNat ∧ b.toNat < 0x7F

instance (b : UInt8) : Decidable (Visible b) := inferInstanceAs (Decidable (_ ∧ _))

theorem showable_of_visible (h : ∀ b ∈ t, Visible b) : t.Showable := by
  have hascii : ∀ b ∈ t, b.toNat < 0x80 := fun b hb => by
    have := (h b hb).2
    omega
  refine ⟨valid_of_ascii hascii, fun c hc => ?_⟩
  rw [decode_ascii hascii] at hc
  obtain ⟨b, hb, rfl⟩ := List.mem_map.1 hc
  obtain ⟨hlow, hhigh⟩ := h b hb
  have htoNat := toNat_ofNat (n := b.toNat) (.inl (by omega))
  simp only [Text.isControl, htoNat, Bool.or_eq_false_iff, Bool.and_eq_false_iff,
    decide_eq_false_iff_not]
  omega

/-! ## Escapes -/

theorem visible_hexDigit {n : Nat} (h : n < 16) : Visible (hexDigit n) := by
  have hall : ∀ k : Fin 16, 0x20 ≤ (hexDigit k).toNat ∧ (hexDigit k).toNat < 0x7F := by decide
  exact hall ⟨n, h⟩

theorem visible_hex (width n : Nat) : ∀ b ∈ hex width n, Visible b := by
  induction width generalizing n with
  | zero => simp [hex]
  | succ width ih =>
    intro b hb
    rw [hex, List.mem_append, List.mem_singleton] at hb
    rcases hb with hb | rfl
    · exact ih _ b hb
    · exact visible_hexDigit (Nat.mod_lt _ (by decide))

theorem visible_controlLetter {c letter : Char} (h : controlLetter? c = some letter) :
    Visible (byte letter) := by
  unfold controlLetter? at h
  split at h <;> cases h <;> decide

/-- An escape is written with visible ASCII alone, whatever it stands for. -/
theorem visible_escapeChar (c : Char) : ∀ b ∈ escapeChar c, Visible b := by
  have hmark : Visible (byte '\\') := by decide
  unfold escapeChar
  split
  · next letter hletter => simp [hmark, visible_controlLetter hletter]
  · simp only
    split
    · have hx : Visible (byte 'x') := by decide
      simpa [hmark, hx] using visible_hex 2 c.toNat
    · split
      · have hu : Visible (byte 'u') := by decide
        simpa [hmark, hu] using visible_hex 4 c.toNat
      · have hU : Visible (byte 'U') := by decide
        simpa [hmark, hU] using visible_hex 8 c.toNat

/-! ## Clean text -/

theorem showable_cleanChar (c : Char) : (cleanChar c).Showable := by
  unfold cleanChar
  split
  · exact showable_of_visible (visible_escapeChar c)
  · next hc => exact showable_encodeChar (Bool.eq_false_iff.2 hc)

theorem showable_flatMap_cleanChar (cs : List Char) : Showable (cs.flatMap cleanChar) := by
  induction cs with
  | nil => exact showable_nil
  | cons c cs ih =>
    rw [List.flatMap_cons]
    exact (showable_cleanChar c).append ih

theorem showable_clean (t : Text) : t.clean.Showable :=
  showable_flatMap_cleanChar (decode t)

/-- There is nothing to clean in a text that can be shown. -/
theorem Showable.clean_eq (h : t.Showable) : t.clean = t := by
  have hchars : (decode t).map cleanChar = (decode t).map encodeChar := by
    refine List.map_congr_left fun c hc => ?_
    rw [cleanChar, h.isControl c hc]
    rfl
  rw [clean, List.flatMap_def, hchars, ← List.flatMap_def]
  exact h.valid

theorem clean_append (hs : s.Valid) (t : Text) : (s ++ t).clean = s.clean ++ t.clean := by
  rw [clean, decode_append hs, List.flatMap_append]
  rfl

end Text

/-! ## Lines -/

/-- A value is written as a line in one offer, and what comes back is the writer's. -/
theorem Output.outcome_writeLine {o : Outside} {id : Nat} {w : Writer} {offers : List Text}
    (h : o.HasWriter id w offers) (value : Text) :
    ∃ o', Act.outcome ((device id).writeLine value) o =
        (.ok (min (w.respond offers value.line).taken value.line.length,
          (w.respond offers value.line).error), o') ∧
      o'.HasWriter id w (value.line :: offers) := by
  obtain ⟨o', hwrite, hwriter, -⟩ := Outside.outcome_write_direct h value.line
  exact ⟨o', hwrite, hwriter⟩

namespace Text

theorem toNat_lineFeed : lineFeed.toNat = 10 := rfl

theorem decode_line (t : Text) : decode t.line = decode t.clean ++ ['\n'] := by
  rw [line, decode_append (showable_clean t).valid, decode_ascii_cons (by simp [toNat_lineFeed]),
    decode_nil]
  rfl

theorem valid_line (t : Text) : t.line.Valid :=
  (showable_clean t).valid.append (valid_of_ascii (by simp [toNat_lineFeed]))

/-- A value is written in one offer, which is one line: valid, and without a control before the line
feed at its end.  Cleaning leaves alone what is clean already, and valid text can be cleaned piece
by piece. -/
theorem written_as_one_line (s : Text) :
    (∀ (o : Outside) (id : Nat) (w : Writer) (offers : List Text), o.HasWriter id w offers →
      ∃ o', Act.outcome ((Output.device id).writeLine s) o =
          (.ok (min (w.respond offers s.line).taken s.line.length,
            (w.respond offers s.line).error), o') ∧
        o'.HasWriter id w (s.line :: offers)) ∧
    (s.line = s.clean ++ [lineFeed] ∧ s.line.Valid ∧
      decode s.line = decode s.clean ++ ['\n'] ∧ ∀ c ∈ decode s.clean, isControl c = false) ∧
    (s.Valid → (∀ c ∈ decode s, isControl c = false) → s.clean = s) ∧
    s.clean.clean = s.clean ∧
    ∀ t, s.Valid → (s ++ t).clean = s.clean ++ t.clean :=
  ⟨fun _ _ _ _ h => Output.outcome_writeLine h s,
    ⟨rfl, s.valid_line, s.decode_line, s.showable_clean.isControl⟩,
    fun hvalid hcontrol => Showable.clean_eq ⟨hvalid, hcontrol⟩, s.showable_clean.clean_eq,
    fun t hvalid => clean_append hvalid t⟩

/-- A writer that has no room left is offered the whole line, and behind the value come a stray byte
and a line feed. -/
theorem written_as_one_line_full :
    let s := ofString "ente ü 鴨"
    let w : Writer := ⟨"w", .plain, none, Writer.limited (some 3) true⟩
    let o : Outside := ⟨#[.pipe (.direct w)], #[], #[]⟩
    (o.HasWriter 0 w [] ∧ s.Valid ∧ ∀ c ∈ decode s, isControl c = false) ∧
    (∃ o', Act.outcome ((Output.device 0).writeLine s) o = (.ok (3, none), o') ∧
      o'.HasWriter 0 w [s.line]) ∧
    s.line = s ++ [lineFeed] ∧ (s ++ [0xFF, lineFeed]).clean = s ++ clean [0xFF, lineFeed] := by
  intro s w o
  have hwriter : o.HasWriter 0 w [] := rfl
  have hvalid : s.Valid := valid_encode _
  have hcontrol : ∀ c ∈ decode s, isControl c = false := by
    rw [show decode s = "ente ü 鴨".toList from decode_encode _]
    simp [isControl]
  obtain ⟨hwrite, ⟨hline, -⟩, hclean, -, hdistributes⟩ := written_as_one_line s
  have hs := hclean hvalid hcontrol
  refine ⟨⟨hwriter, hvalid, hcontrol⟩, ?_, by rw [hline, hs], by rw [hdistributes _ hvalid, hs]⟩
  obtain ⟨o', hoffer, hwriter'⟩ := hwrite o 0 w [] hwriter
  refine ⟨o', hoffer.trans ?_, hwriter'⟩
  rw [hline, hs]
  rfl

end Text
end Birdcall
