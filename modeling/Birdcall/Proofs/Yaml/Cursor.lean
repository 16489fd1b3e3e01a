import Birdcall.Proofs.Words
import Birdcall.Yaml.Cursor

/-!
# Cursors in well-formed texts

In a text without faults a cursor can always load more, so going on never fails, and how its
characters were loaded makes no difference.  `Cursor.Stands` says what does: the characters that
remain and the mark.  For every way to go on there is a lemma that says where the cursor stands then.
-/

namespace Birdcall.Yaml

/-! ## Marks -/

namespace Mark

/-- The mark `n` characters on in its line. -/
def on (m : Mark) (n : Nat) : Mark := { m with index := m.index + n, column := m.column + n }

/-- The mark at the beginning of the next line, one character on. -/
def below (m : Mark) : Mark := ⟨m.index + 1, m.line + 1, 0⟩

@[simp] theorem on_zero (m : Mark) : m.on 0 = m := rfl

@[simp] theorem on_on (m : Mark) (n k : Nat) : (m.on n).on k = m.on (n + k) := by
  simp only [on, Nat.add_assoc]

@[simp] theorem column_on (m : Mark) (n : Nat) : (m.on n).column = m.column + n := rfl

@[simp] theorem line_on (m : Mark) (n : Nat) : (m.on n).line = m.line := rfl

@[simp] theorem index_on (m : Mark) (n : Nat) : (m.on n).index = m.index + n := rfl

@[simp] theorem column_below (m : Mark) : m.below.column = 0 := rfl

end Mark

/-! ## Characters -/

theorem isBlank_of_isBreak {b : Char} (h : isBreak b = true) : isBlank b = false := by
  simp only [isBreak, Bool.or_eq_true, decide_eq_true_eq] at h
  rcases h with (((rfl | rfl) | rfl) | rfl) | rfl <;> rfl

/-- Whether a character is no white space. -/
def isInk (ch : Char) : Bool := !(isBlank ch || isBreak ch)

theorem isInk_iff {ch : Char} : isInk ch = true ↔ isBlank ch = false ∧ isBreak ch = false := by
  simp [isInk]

/-- A line break that stands for itself in a scalar. -/
def KeptBreak (b : Char) : Prop := b = '\n' ∨ b = '\u2028' ∨ b = '\u2029'

namespace KeptBreak

variable {b : Char}

theorem isBreak (h : KeptBreak b) : isBreak b = true := by
  rcases h with rfl | rfl | rfl <;> rfl

theorem ne_return (h : KeptBreak b) : b ≠ '\r' := by
  rcases h with rfl | rfl | rfl <;> decide

end KeptBreak

/-! ## Cursors -/

namespace Cursor

/-- A cursor in a text without faults, by the characters that remain and its mark. -/
structure Stands (c : Cursor) (rest : List Char) (m : Mark) : Prop where
  rest_eq : c.rest = rest
  mark_eq : c.mark = m
  sound : c.sound = true
  unmarked : c.marked = false
  /-- No byte order mark is ahead. -/
  bare : '\uFEFF' ∉ rest
  /-- Loops over the text take enough rounds for what remains. -/
  room : rest.length ≤ c.limit

theorem load_sound (n loaded : Nat) (batches : List Nat) : (load n true loaded batches).isSome := by
  induction batches generalizing loaded with
  | nil => rfl
  | cons size batches ih =>
    rw [load]
    split
    · rfl
    · exact ih _

namespace Stands

variable {c : Cursor} {rest : List Char} {m : Mark}

theorem peek? (h : c.Stands rest m) : c.peek? = rest.head? := by rw [Cursor.peek?, h.rest_eq]

theorem breakText {b : Char} (h : c.Stands (b :: rest) m) (hb : KeptBreak b) :
    c.breakText = [b] := by
  rw [Cursor.breakText, h.rest_eq]
  rcases hb with rfl | rfl | rfl <;> rfl

/-- Loading more changes nothing. -/
theorem ensure (h : c.Stands rest m) (n : Nat) : ∃ c', c.ensure n = some c' ∧ c'.Stands rest m := by
  unfold Cursor.ensure
  split
  · exact ⟨c, rfl, h⟩
  · obtain ⟨⟨loaded, batches⟩, hload⟩ :=
      Option.isSome_iff_exists.1 (load_sound n c.loaded c.batches)
    have hhead : rest.head? ≠ some '\uFEFF' := fun hhead => h.bare (List.mem_of_head? hhead)
    rw [h.sound, hload]
    refine ⟨_, rfl, h.rest_eq, h.mark_eq, rfl, ?_, h.bare, h.room⟩
    simpa only [h.rest_eq, decide_eq_false_iff_not] using hhead

/-- No mark between documents stands at a cursor in the middle of a line, or before other
characters. -/
theorem notDocumentMark (h : c.Stands rest m)
    (hm : m.column ≠ 0 ∨ ∀ ch ∈ rest.head?, ch ≠ '-' ∧ ch ≠ '.') : c.atDocumentMark = false := by
  rw [Cursor.atDocumentMark, h.mark_eq, h.rest_eq]
  rcases hm with hm | hm
  · simp [hm]
  · split
    · simp at hm
    · simp at hm
    · simp

theorem skip (h : c.Stands rest m) (n : Nat) : (c.skip n).Stands (rest.drop n) (m.on n) where
  rest_eq := by rw [Cursor.skip, h.rest_eq]
  mark_eq := by rw [Cursor.skip, h.mark_eq, Mark.on]
  sound := h.sound
  unmarked := h.unmarked
  bare hmem := h.bare (List.mem_of_mem_drop hmem)
  room := by
    have hroom := h.room
    rw [List.length_drop]
    exact Nat.le_trans (Nat.sub_le _ _) hroom

theorem pass (h : c.Stands rest m) (k n : Nat) :
    ∃ c', c.pass k n = some c' ∧ c'.Stands (rest.drop n) (m.on n) := by
  induction n generalizing c rest m with
  | zero => exact ⟨c, rfl, h⟩
  | succ n ih =>
    obtain ⟨c₁, hensure, h₁⟩ := (h.skip 1).ensure k
    obtain ⟨c₂, hpass, h₂⟩ := ih h₁
    rw [List.drop_drop, Mark.on_on] at h₂
    refine ⟨c₂, ?_, Nat.add_comm 1 n ▸ h₂⟩
    rw [Cursor.pass, hensure, Option.bind_some, hpass]

/-- Going over a run of a class stops where the class ends. -/
theorem passWhile {p : Char → Bool} {run : List Char} (h : c.Stands (run ++ rest) m)
    (hrun : ∀ ch ∈ run, p ch = true) (hend : ∀ ch ∈ rest.head?, p ch = false) :
    ∃ c', c.passWhile p = some c' ∧ c'.Stands rest (m.on run.length) := by
  obtain ⟨c₁, hensure, h₁⟩ := h.ensure 1
  obtain ⟨c₂, hpass, h₂⟩ := h₁.pass 1 run.length
  rw [List.drop_left] at h₂
  refine ⟨c₂, ?_, h₂⟩
  rw [Cursor.passWhile, hensure, Option.bind_some, Cursor.run, h.rest_eq,
    (takeWhile_append_of_head hrun hend).1, hpass]

theorem passBreak {b : Char} (h : c.Stands (b :: rest) m) (hb : b ≠ '\r') :
    ∃ c', c.passBreak = some c' ∧ c'.Stands rest m.below := by
  obtain ⟨c₁, hensure, h₁⟩ := h.ensure 2
  refine ⟨c₁.nextLine 1, ?_, ?_⟩
  · rw [Cursor.passBreak, hensure, Option.map_some, h₁.rest_eq]
    split
    · simp_all
    · simp_all
    · rfl
  · have hroom := h₁.room
    refine ⟨?_, ?_, h₁.sound, h₁.unmarked, fun hmem => h₁.bare (.tail _ hmem), ?_⟩
    · rw [Cursor.nextLine, h₁.rest_eq, List.drop_one, List.tail_cons]
    · rw [Cursor.nextLine, h₁.mark_eq, Mark.below]
    · exact Nat.le_of_succ_le hroom

theorem restOfLine? {b : Char} (h : c.Stands (b :: rest) m) (hbreak : isBreak b = true)
    (hb : b ≠ '\r') : ∃ c', c.restOfLine? = some c' ∧ c'.Stands rest m.below := by
  have hblank : isBlank b = false := isBlank_of_isBreak hbreak
  have hsign : b ≠ '#' := by
    rintro rfl
    cases hbreak
  obtain ⟨c₁, hwhile, h₁⟩ := passWhile (p := isBlank) (show c.Stands ([] ++ b :: rest) m from h)
    (by simp) (by simpa using hblank)
  obtain ⟨c₂, hpass, h₂⟩ := h₁.passBreak hb
  refine ⟨c₂, ?_, h₂⟩
  have hat : c₁.isAt '#' = false := by
    simp [Cursor.isAt, h₁.peek?, hsign]
  simp [Cursor.restOfLine?, hwhile, hat, h₁.rest_eq, atLineEnd, endsOr, hbreak, hpass]

/-- There is no comment to pass. -/
theorem passComment (h : c.Stands rest m) (hsign : (rest.dropWhile isBlank).head? ≠ some '#') :
    ∃ c', c.passComment = some c' ∧ c'.Stands rest m := by
  obtain ⟨c₁, hensure, h₁⟩ := h.ensure (min ((c.run isBlank).length + 1) 512)
  have hdrop : c₁.rest.drop (c.run isBlank).length = rest.dropWhile isBlank := by
    rw [h₁.rest_eq, Cursor.run, h.rest_eq]
    calc rest.drop (rest.takeWhile isBlank).length
        = (rest.takeWhile isBlank ++ rest.dropWhile isBlank).drop
            (rest.takeWhile isBlank).length := by rw [List.takeWhile_append_dropWhile]
      _ = rest.dropWhile isBlank := List.drop_left
  refine ⟨c₁, ?_, h₁⟩
  simp only [Cursor.passComment, hensure, Option.bind_some, hdrop, hsign, decide_false,
    Bool.and_false, Bool.false_eq_true, if_false]

end Stands

end Cursor

end Birdcall.Yaml
