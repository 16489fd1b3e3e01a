import Birdcall.Text

/-!
# Splitting text

What the pieces of a text are that is split at a byte, and its lines in particular.

`Text.Lined` says how a text falls apart into lines: each of them is followed by a line feed, and
behind the last of these comes a rest without one.  There is one way to do that, and splitting finds
it (`Text.lined`, `Text.Lined.splitOn_eq`).  So the lines of a text that is put together from two are
the lines of the first, and then those of its rest together with the second
(`Text.lines_append`).
-/

namespace Birdcall.Text

variable {b : UInt8} {s t rest : Text}

/-! ## Pieces -/

theorem splitOn_cons_self (b : UInt8) (t : Text) : splitOn b (b :: t) = [] :: splitOn b t :=
  if_pos rfl

/-- A byte that is not split at joins the first piece. -/
theorem splitOn_cons_of_ne {c : UInt8} {piece : Text} {pieces : List Text} (hc : c ≠ b)
    (ht : splitOn b t = piece :: pieces) : splitOn b (c :: t) = (c :: piece) :: pieces := by
  rw [splitOn, if_neg hc, ht]

theorem splitOn_of_not_mem (h : b ∉ t) : splitOn b t = [t] := by
  induction t with
  | nil => rfl
  | cons c t ih =>
    rw [List.mem_cons, not_or] at h
    exact splitOn_cons_of_ne (Ne.symm h.1) (ih h.2)

/-- The first piece ends where the byte first is. -/
theorem splitOn_append_cons (h : b ∉ s) (t : Text) :
    splitOn b (s ++ b :: t) = s :: splitOn b t := by
  induction s with
  | nil => exact splitOn_cons_self b t
  | cons c s ih =>
    rw [List.mem_cons, not_or] at h
    exact splitOn_cons_of_ne (Ne.symm h.1) (ih h.2)

theorem splitAt_cons_self (b : UInt8) (t : Text) : splitAt b (b :: t) = ([], some t) :=
  if_pos rfl

theorem splitAt_cons_of_ne {c : UInt8} (hc : c ≠ b) (t : Text) :
    splitAt b (c :: t) = (c :: (splitAt b t).1, (splitAt b t).2) :=
  if_neg hc

theorem splitAt_eq_none (h : splitAt b t = (s, none)) : b ∉ t := by
  induction t generalizing s with
  | nil => exact List.not_mem_nil
  | cons c t ih =>
    by_cases hc : c = b
    · rw [hc, splitAt_cons_self] at h
      cases h
    · rw [splitAt_cons_of_ne hc] at h
      obtain ⟨-, hnone⟩ := Prod.mk.inj h
      rw [List.mem_cons, not_or]
      exact ⟨Ne.symm hc, ih (Prod.ext rfl hnone)⟩

theorem splitAt_eq_some (h : splitAt b t = (s, some rest)) : t = s ++ b :: rest ∧ b ∉ s := by
  induction t generalizing s with
  | nil => cases h
  | cons c t ih =>
    by_cases hc : c = b
    · rw [hc, splitAt_cons_self] at h
      cases h
      exact ⟨by rw [hc]; rfl, List.not_mem_nil⟩
    · rw [splitAt_cons_of_ne hc] at h
      obtain ⟨rfl, hsome⟩ := Prod.mk.inj h
      obtain ⟨ht, hmem⟩ := ih (Prod.ext rfl hsome)
      refine ⟨congrArg (c :: ·) ht, ?_⟩
      rw [List.mem_cons, not_or]
      exact ⟨Ne.symm hc, hmem⟩

theorem splitAt_append_cons (h : b ∉ s) (t : Text) :
    splitAt b (s ++ b :: t) = (s, some t) := by
  induction s with
  | nil => exact splitAt_cons_self b t
  | cons c s ih =>
    rw [List.mem_cons, not_or] at h
    rw [List.cons_append, splitAt_cons_of_ne (Ne.symm h.1), ih h.2]

/-! ## Lines -/

/-- The lines of a text that a line feed ends, without it. -/
def lines (t : Text) : List Text := (splitOn lineFeed t).dropLast

/-- What comes behind the last line feed of a text. -/
def unended (t : Text) : Text := (splitOn lineFeed t).getLastD []

/-- The lines of a text, and what comes behind them as one more unless it is empty. -/
def allLines (t : Text) : List Text := t.lines ++ if t.unended = [] then [] else [t.unended]

/-- A text that consists of lines, each with a line feed behind it, and a rest. -/
structure Lined (t : Text) (lines : List Text) (rest : Text) : Prop where
  eq : lines.flatMap (· ++ [lineFeed]) ++ rest = t
  ended : ∀ line ∈ lines, lineFeed ∉ line
  unended : lineFeed ∉ rest

namespace Lined

variable {ls more : List Text}

/-- A text begins with its first line. -/
theorem cons {line : Text} (hline : lineFeed ∉ line) (h : Lined t ls rest) :
    Lined (line ++ lineFeed :: t) (line :: ls) rest := by
  refine ⟨?_, List.forall_mem_cons.2 ⟨hline, h.ended⟩, h.unended⟩
  rw [List.flatMap_cons, List.append_assoc, h.eq, List.append_assoc]
  rfl

theorem splitOn_eq (h : Lined t ls rest) : splitOn lineFeed t = ls ++ [rest] := by
  induction ls generalizing t with
  | nil => rw [← h.eq]; exact splitOn_of_not_mem h.unended
  | cons line ls ih =>
    obtain ⟨hline, hended⟩ := List.forall_mem_cons.1 h.ended
    have hrest := ih ⟨rfl, hended, h.unended⟩
    rw [← h.eq, List.flatMap_cons, List.append_assoc, List.append_assoc, List.singleton_append,
      splitOn_append_cons hline, hrest, List.cons_append]

theorem lines_eq (h : Lined t ls rest) : t.lines = ls := by
  rw [lines, h.splitOn_eq, List.dropLast_concat]

theorem unended_eq (h : Lined t ls rest) : t.unended = rest := by
  rw [Text.unended, h.splitOn_eq, List.getLastD_concat]

/-- The rest of a text goes on in what comes behind it. -/
theorem append {last : Text} (h : Lined s ls rest) (ht : Lined (rest ++ t) more last) :
    Lined (s ++ t) (ls ++ more) last := by
  refine ⟨?_, fun line hline => ?_, ht.unended⟩
  · rw [List.flatMap_append, List.append_assoc, ht.eq, ← List.append_assoc, h.eq]
  · exact (List.mem_append.1 hline).elim (h.ended line) (ht.ended line)

end Lined

theorem lined_of_not_mem (h : lineFeed ∉ t) : Lined t [] t :=
  ⟨rfl, by simp, h⟩

theorem exists_lined (t : Text) : ∃ ls rest, Lined t ls rest := by
  induction t with
  | nil => exact ⟨[], [], lined_of_not_mem List.not_mem_nil⟩
  | cons b t ih =>
    obtain ⟨ls, rest, h⟩ := ih
    by_cases hb : b = lineFeed
    · rw [hb]
      exact ⟨[] :: ls, rest, h.cons List.not_mem_nil⟩
    · cases ls with
      | nil =>
        have hrest : rest = t := h.eq
        refine ⟨[], b :: rest, congrArg (b :: ·) hrest, by simp, ?_⟩
        rw [List.mem_cons, not_or]
        exact ⟨Ne.symm hb, h.unended⟩
      | cons line ls =>
        obtain ⟨hline, hended⟩ := List.forall_mem_cons.1 h.ended
        refine ⟨(b :: line) :: ls, rest, congrArg (b :: ·) h.eq, ?_, h.unended⟩
        refine List.forall_mem_cons.2 ⟨?_, hended⟩
        rw [List.mem_cons, not_or]
        exact ⟨Ne.symm hb, hline⟩

/-- Every text consists of its lines and the rest behind them. -/
theorem lined (t : Text) : Lined t t.lines t.unended := by
  obtain ⟨ls, rest, h⟩ := exists_lined t
  rw [h.lines_eq, h.unended_eq]
  exact h

theorem lines_append (s t : Text) : (s ++ t).lines = s.lines ++ (s.unended ++ t).lines :=
  (s.lined.append (lined _)).lines_eq

theorem unended_append (s t : Text) : (s ++ t).unended = (s.unended ++ t).unended :=
  (s.lined.append (lined _)).unended_eq

theorem allLines_append (s t : Text) : (s ++ t).allLines = s.lines ++ (s.unended ++ t).allLines := by
  rw [allLines, allLines, lines_append, unended_append, List.append_assoc]

/-! ## Joining lines -/

theorem joinWith_append_singleton (ls : List Text) (rest : Text) :
    joinWith [lineFeed] (ls ++ [rest]) = ls.flatMap (· ++ [lineFeed]) ++ rest := by
  induction ls with
  | nil => rfl
  | cons line ls ih =>
    rw [List.flatMap_cons, List.append_assoc, ← ih]
    cases ls <;> rfl

/-- Lines that are joined by line feeds are the text they came from, but for a line feed at its
end. -/
theorem joinWith_allLines (t : Text) :
    joinWith [lineFeed] t.allLines ++ (if t.getLast? = some lineFeed then [lineFeed] else []) =
      t := by
  have h := t.lined
  by_cases hrest : t.unended = []
  · rw [allLines, if_pos hrest, List.append_nil]
    rw [hrest] at h
    rcases List.eq_nil_or_concat t.lines with hnil | ⟨ls, line, hlines⟩
    · have ht : t = [] := by rw [← h.eq, hnil]; rfl
      rw [ht]
      rfl
    · have ht : t = joinWith [lineFeed] t.lines ++ [lineFeed] := by
        rw [hlines, List.concat_eq_append, joinWith_append_singleton, ← h.eq, hlines]
        simp
      have hlast : t.getLast? = some lineFeed := by rw [ht, List.getLast?_concat]
      rw [if_pos hlast, ← ht]
  · have hlast : t.getLast? ≠ some lineFeed := by
      intro hlast
      rw [← h.eq, List.getLast?_append, List.getLast?_eq_some_getLast hrest] at hlast
      exact h.unended (Option.some.inj hlast ▸ List.getLast_mem hrest)
    rw [allLines, if_neg hrest, if_neg hlast, joinWith_append_singleton, List.append_nil, h.eq]

end Birdcall.Text
