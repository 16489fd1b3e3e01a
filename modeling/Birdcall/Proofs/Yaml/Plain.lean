import Birdcall.Proofs.Yaml.Gap

/-!
# Plain scalars read back

A text that can be written plain is read back as it was, up to the line feed behind it and the
beginning of the next line.
-/

namespace Birdcall.Yaml

open Cursor (Stands)

variable {c : Cursor} {m : Mark} {rest : List Char}

/-- A word of a plain scalar. -/
structure PlainWord (w : List Char) : Prop where
  ne_nil : w ≠ []
  ink : ∀ ch ∈ w, isInk ch = true
  /-- It is not taken for a comment. -/
  head : w.head? ≠ some '#'
  /-- It is not taken for a key. -/
  last : w.getLast? ≠ some ':'

/-- A plain scalar on one line: words with spaces between them. -/
inductive PlainText : List Char → Prop
  | word {w : List Char} (hw : PlainWord w) : PlainText w
  | space {w cs : List Char} (k : Nat) (hw : PlainWord w) (h : PlainText cs) :
      PlainText (w ++ (List.replicate (k + 1) ' ' ++ cs))

theorem PlainText.head {cs : List Char} (h : PlainText cs) :
    ∃ ch rest, cs = ch :: rest ∧ isInk ch = true := by
  have hword : ∀ {w : List Char}, PlainWord w → ∃ ch rest, w = ch :: rest ∧ isInk ch = true := by
    intro w hw
    obtain ⟨ch, rest, rfl⟩ := List.exists_cons_of_ne_nil hw.ne_nil
    exact ⟨ch, rest, rfl, hw.ink ch List.mem_cons_self⟩
  cases h with
  | word hw => exact hword hw
  | space k hw _ =>
    obtain ⟨ch, rest, rfl, hch⟩ := hword hw
    exact ⟨ch, _, rfl, hch⟩

/-! ## Reading -/

/-- A word is taken up to what ends it. -/
theorem plainRun_word {w : List Char} {r : Char} (hw : ∀ ch ∈ w, isInk ch = true)
    (hlast : w.getLast? = some ':' → isInk r = true) (hend : endsPlain false (r :: rest) = true) :
    plainRun false (w ++ r :: rest) = w := by
  induction w with
  | nil => simp [plainRun, hend]
  | cons ch w ih =>
    obtain ⟨hch, hw⟩ := List.forall_mem_cons.1 hw
    have hnext : ch = ':' → Cursor.atGap (w ++ r :: rest) = false := by
      rintro rfl
      cases w with
      | nil =>
        have hr := isInk_iff.1 (hlast rfl)
        simp [Cursor.atGap, Cursor.endsOr, hr]
      | cons d w =>
        have hd := isInk_iff.1 (hw d (by simp))
        simp [Cursor.atGap, Cursor.endsOr, hd]
    have hgoes : endsPlain false (ch :: (w ++ r :: rest)) = false := by
      simpa [endsPlain, isInk_iff.1 hch] using hnext
    have hlast' : w.getLast? = some ':' → isInk r = true := by
      intro hw'
      apply hlast
      rw [List.getLast?_cons, hw']
      rfl
    rw [List.cons_append, plainRun, hgoes, ih hw hlast']
    rfl

/-- A round of reading takes a word, and goes on behind white space. -/
theorem plain?_round (least fuel : Nat) (value : List Char) (gap : Gap) {w : List Char} {r : Char}
    (h : c.Stands (w ++ r :: rest) m) (hw : PlainWord w) (hend : endsPlain false (r :: rest) = true)
    (hmark : m.column ≠ 0 ∨ ∀ ch ∈ w.head?, ch ≠ '-' ∧ ch ≠ '.') :
    ∃ c', c'.Stands (r :: rest) (m.on w.length) ∧
      plain? false least (fuel + 1) value gap c =
        if isBlank r || isBreak r then
          (c'.ensure 1).bind fun c'' => (Gap.read (some least) c'.limit .none c'').bind fun x =>
            if x.2.mark.column < least then
              some ((w.reverse ++ gap.after value).reverse, x.1.broken, x.2)
            else plain? false least fuel (w.reverse ++ gap.after value) x.1 x.2
        else some ((w.reverse ++ gap.after value).reverse, false, c') := by
  obtain ⟨c₁, hensure, h₁⟩ := h.ensure 4
  have hrun : plainRun false c₁.rest = w := by
    rw [h₁.rest_eq]
    exact plainRun_word hw.ink (fun hlast => absurd hlast hw.last) hend
  obtain ⟨c₂, hpass, h₂⟩ := h₁.pass 2 w.length
  rw [List.drop_left] at h₂
  refine ⟨c₂, h₂, ?_⟩
  have hhead : (w ++ r :: rest).head? = w.head? := by
    obtain ⟨ch, w, rfl⟩ := List.exists_cons_of_ne_nil hw.ne_nil
    rfl
  have hsign : c₁.isAt '#' = false := by
    simpa only [Cursor.isAt, h₁.peek?, hhead, decide_eq_false_iff_not] using hw.head
  simp [plain?, hensure, h₁.notDocumentMark (hhead ▸ hmark), hsign, hrun, hw.ne_nil, hpass, h₂.peek?,
    Gap.none]

/-- A word in front of a colon is read back as it stands, if it begins no document. -/
theorem plain?_key (least fuel : Nat) {w : List Char} (h : c.Stands (w ++ ':' :: rest) m)
    (hw : PlainWord w) (hhead : ∀ ch ∈ w.head?, ch ≠ '-' ∧ ch ≠ '.')
    (hrest : Cursor.atGap rest = true) :
    ∃ c', plain? false least (fuel + 1) [] .none c = some (w, false, c') ∧
      c'.Stands (':' :: rest) (m.on w.length) := by
  obtain ⟨c₁, h₁, hword⟩ := plain?_round least fuel [] .none h hw (by simp [endsPlain, hrest])
    (.inr hhead)
  have hcolon : (isBlank ':' || isBreak ':') = false := rfl
  refine ⟨c₁, ?_, h₁⟩
  rw [hword, hcolon]
  simp [Gap.after, Gap.none]

/-- A round of reading takes a word and the white space behind it. -/
theorem plain?_word (least fuel : Nat) (value : List Char) (gap : Gap) {w : List Char} {r : Char}
    (h : c.Stands (w ++ r :: rest) m) (hw : PlainWord w) (hr : (isBlank r || isBreak r) = true)
    (hmark : m.column ≠ 0) :
    ∃ c' rounds, c'.Stands (r :: rest) (m.on w.length) ∧ (r :: rest).length ≤ rounds ∧
      plain? false least (fuel + 1) value gap c =
        (Gap.read (some least) rounds .none c').bind fun x =>
          if x.2.mark.column < least then
            some ((w.reverse ++ gap.after value).reverse, x.1.broken, x.2)
          else plain? false least fuel (w.reverse ++ gap.after value) x.1 x.2 := by
  obtain ⟨c₁, h₁, hword⟩ := plain?_round least fuel value gap h hw (by simp [endsPlain, hr])
    (.inl hmark)
  obtain ⟨c₂, hensure, h₂⟩ := h₁.ensure 1
  refine ⟨c₂, c₁.limit, h₂, h₁.room, ?_⟩
  rw [hword, if_pos hr, hensure, Option.bind_some]

/-- A plain scalar is read back up to the beginning of the next line, which is not as far in. -/
theorem plain?_line {least fuel k : Nat} {cs : List Char} (hcs : PlainText cs) (value : List Char)
    (gap : Gap) (h : c.Stands (cs ++ '\n' :: (List.replicate k ' ' ++ rest)) m)
    (hrest : ∀ ch ∈ rest.head?, isInk ch = true) (hk : k < least) (hm : least ≤ m.column)
    (hfuel : cs.length < fuel) :
    ∃ c' m', plain? false least fuel value gap c =
        some ((cs.reverse ++ gap.after value).reverse, true, c') ∧
      c'.Stands rest m' ∧ m'.column = k := by
  obtain ⟨fuel, rfl⟩ : ∃ n, fuel = n + 1 := ⟨fuel - 1, by omega⟩
  induction hcs generalizing value gap c m fuel with
  | @word w hw =>
    obtain ⟨c₁, rounds, h₁, hrounds, hword⟩ :=
      plain?_word least fuel value gap h hw rfl (by omega)
    rw [List.length_cons, List.length_append, List.length_replicate] at hrounds
    have h₁ : c₁.Stands (['\n'] ++ (List.replicate k ' ' ++ rest)) (m.on w.length) := h₁
    have hfuel : ([] : List Char).length + k < rounds := by simpa using by omega
    obtain ⟨c₂, m₂, hgap, h₂, hcolumn⟩ :=
      Gap.read_break (g := .none) (some least) h₁ (.inl rfl) (by simp) hrest rfl hfuel
    refine ⟨c₂, m₂, ?_, h₂, hcolumn⟩
    rw [hword, hgap]
    simp [h₂.mark_eq, hcolumn, hk]
  | @space w cs n hw htext ih =>
    rw [List.append_assoc, List.append_assoc] at h
    obtain ⟨c₁, rounds, h₁, hrounds, hword⟩ :=
      plain?_word least fuel value gap h hw rfl (by omega)
    have h₁ : c₁.Stands (List.replicate (n + 1) ' ' ++
        (cs ++ '\n' :: (List.replicate k ' ' ++ rest))) (m.on w.length) := h₁
    have hink : ∀ ch ∈ (cs ++ '\n' :: (List.replicate k ' ' ++ rest)).head?, isInk ch = true := by
      obtain ⟨ch, cs, rfl, hch⟩ := htext.head
      simpa using hch
    have hspaces : n + 1 ≤ rounds := by
      have hrounds : (List.replicate (n + 1) ' ' ++
        (cs ++ '\n' :: (List.replicate k ' ' ++ rest))).length ≤ rounds := hrounds
      rw [List.length_append, List.length_replicate] at hrounds
      omega
    obtain ⟨c₂, hgap, h₂⟩ := Gap.read_spaces (g := .none) (some least) h₁ hink hspaces
    have hcolumn : ¬ c₂.mark.column < least := by
      rw [h₂.mark_eq]
      simp
      omega
    rw [List.length_append, List.length_append, List.length_replicate] at hfuel
    obtain ⟨fuel, rfl⟩ : ∃ n, fuel = n + 1 := ⟨fuel - 1, by omega⟩
    obtain ⟨c₃, m₃, hplain, h₃, hcolumn₃⟩ := ih (w.reverse ++ gap.after value)
      (Gap.none.spaced (n + 1)) h₂ (by simp; omega) fuel (by omega)
    refine ⟨c₃, m₃, ?_, h₃, hcolumn₃⟩
    rw [hword, hgap, Option.bind_some, if_neg hcolumn, hplain, Gap.after_spaced]
    simp

/-! ## Looks -/

namespace Written

variable {before : Option Char} {w rest : List Char}

theorem hasIndicator_suffix (h : hasIndicator before (w ++ rest) = false) :
    hasIndicator (w.getLast?.or before) rest = false := by
  induction w generalizing before with
  | nil => exact h
  | cons ch w ih =>
    have ih := ih (Bool.or_eq_false_iff.1 h).2
    rw [List.getLast?_cons]
    cases hlast : w.getLast? with
    | none => simpa [hlast] using ih
    | some d => simpa [hlast] using ih

/-- No word ends with a colon. -/
theorem getLast?_of_hasIndicator (h : hasIndicator before (w ++ rest) = false)
    (hrest : ∀ ch ∈ rest.head?, isBlank ch = true) : w.getLast? ≠ some ':' := by
  intro hlast
  obtain ⟨xs, rfl⟩ : ∃ xs, w = xs ++ [':'] := List.getLast?_eq_some_iff.1 hlast
  have hfollowed : (rest.isEmpty || rest.head?.any isBlank) = true := by
    cases rest with
    | nil => rfl
    | cons ch rest => simpa using hrest ch rfl
  rw [List.append_assoc] at h
  have hcolon := (Bool.or_eq_false_iff.1 (hasIndicator_suffix h)).1
  cases hbefore : xs.getLast?.or before <;> simp [hbefore, hfollowed] at hcolon

/-- No word begins with a number sign. -/
theorem head?_of_hasIndicator (h : hasIndicator before w = false)
    (hbefore : ∀ b ∈ before, isBlank b = true) : w.head? ≠ some '#' := by
  intro hhead
  obtain ⟨tail, rfl⟩ := List.head?_eq_some_iff.1 hhead
  have hsign := (Bool.or_eq_false_iff.1 h).1
  cases before with
  | none => simp at hsign
  | some b => simp [hbefore b rfl] at hsign

end Written

/-- Words with spaces between them can be plain if none of them is taken for something else. -/
theorem PlainText.of_spread {cs : List Char} (hcs : Spread isInk (fun _ => false) cs)
    {before : Option Char} (hbefore : ∀ b ∈ before, isBlank b = true)
    (hindicator : Written.hasIndicator before cs = false)
    (hhead : ∃ ch ∈ cs.head?, isInk ch = true) (hlast : cs.getLast? ≠ some ' ') : PlainText cs := by
  induction hcs generalizing before with
  | @word w hw =>
    refine .word ⟨?_, hw, Written.head?_of_hasIndicator hindicator hbefore, ?_⟩
    · rintro rfl
      simp at hhead
    · rw [← List.append_nil w] at hindicator
      exact Written.getLast?_of_hasIndicator hindicator (by simp)
  | @space w cs k hw hnext _ ih =>
    have hcs : cs ≠ [] := by
      rintro rfl
      simp [List.getLast?_append, List.getLast?_replicate] at hlast
    have hne : w ≠ [] := by
      rintro rfl
      simp [List.replicate_succ, isInk, isBlank] at hhead
    have hfirst : (w ++ (List.replicate (k + 1) ' ' ++ cs)).head? = w.head? := by
      obtain ⟨ch, w, rfl⟩ := List.exists_cons_of_ne_nil hne
      rfl
    have hsign := Written.head?_of_hasIndicator hindicator hbefore
    have hcolon := Written.getLast?_of_hasIndicator hindicator
      (by simp [List.replicate_succ, isBlank])
    rw [← List.append_assoc] at hindicator
    have hrest := Written.hasIndicator_suffix hindicator
    rw [List.getLast?_append, List.getLast?_replicate] at hrest
    refine .space k ⟨hne, hw, hfirst ▸ hsign, hcolon⟩ (ih (by simp [isBlank]) hrest ?_ ?_)
    · obtain ⟨ch, cs, rfl⟩ := List.exists_cons_of_ne_nil hcs
      exact ⟨ch, rfl, hnext ch rfl⟩
    · obtain ⟨ch, cs, rfl⟩ := List.exists_cons_of_ne_nil hcs
      simpa [List.getLast?_append, List.getLast?_cons] using hlast
  | @line w bs cs b hw hb _ _ _ => cases hb b (by simp)

/-- A text that can be written plain reads back so. -/
theorem PlainText.of_looks {cs : List Char} (hne : cs ≠ []) (h : (Written.looks cs).plain = true) :
    PlainText cs := by
  simp only [Written.Looks.plain, Written.looks, Bool.not_eq_true', Bool.or_eq_false_iff,
    List.contains_eq_mem, decide_eq_false_iff_not, List.any_eq_false] at h
  obtain ⟨⟨⟨⟨⟨⟨⟨hopens, hcloses⟩, -⟩, -⟩, htabs⟩, -⟩, hbreaks⟩, -, hindicator⟩ := h
  have hink : ∀ ch ∈ cs, isInk ch = true ∨ ch = ' ' := by
    intro ch hch
    have htab : ch ≠ '\t' := fun htab => htabs (htab ▸ hch)
    by_cases hspace : ch = ' '
    · exact .inr hspace
    · exact .inl (by simp [isInk, isBlank, htab, hspace, hbreaks ch hch])
  have hfirst : ∀ b ∈ (none : Option Char), isBlank b = true := by simp
  refine .of_spread (.of_spaces hink) hfirst hindicator ?_ ?_
  · obtain ⟨ch, cs, rfl⟩ := List.exists_cons_of_ne_nil hne
    have hspace : ch ≠ ' ' := by
      rintro rfl
      simp at hopens
    exact ⟨ch, rfl, (hink ch (by simp)).resolve_right hspace⟩
  · intro hlast
    simp [hlast] at hcloses

end Birdcall.Yaml
