import Birdcall.Proofs.Yaml.Gap

/-!
# Block scalars read back

A text written as a block is read back line by line.  The first line is the one place where a block
can fail: a line break at its beginning ends the line of the bar and is lost, and a tab there is
malformed, because how far in the lines are is then found out from spaces alone.
-/

namespace Birdcall.Yaml

open Cursor (Stands)

variable {c : Cursor} {m : Mark} {rest : List Char} {indent fuel k : Nat}

/-! ## Indentation -/

/-- How many spaces are passed in front of a line: all there are, or up to the given column. -/
theorem spaces_eq {n : Nat} (hn : indent ≠ 0 → k ≤ n)
    (hrest : indent = 0 ∨ k < n → rest.head? ≠ some ' ') :
    (if indent = 0 then ((List.replicate k ' ' ++ rest).takeWhile (· = ' ')).length
      else min ((List.replicate k ' ' ++ rest).takeWhile (· = ' ')).length n) = k := by
  have hrun : (List.replicate k ' ' ++ rest).takeWhile (· = ' ') =
      List.replicate k ' ' ++ rest.takeWhile (· = ' ') :=
    List.takeWhile_append_of_pos (by simp)
  have hstop : rest.head? ≠ some ' ' → rest.takeWhile (· = ' ') = [] := by
    intro hhead
    cases rest with
    | nil => rfl
    | cons ch rest => simp_all
  rw [hrun, List.length_append, List.length_replicate]
  split
  · rename_i hzero
    simp [hstop (hrest (.inl hzero))]
  · rename_i hindent
    by_cases hk : k < n
    · simp [hstop (hrest (.inr hk))]
      omega
    · have hle := hn hindent
      omega

/-- One line of indentation. -/
theorem margin?_line (indent fuel : Nat) (breaks : List Char) (deepest : Nat)
    (h : c.Stands (List.replicate k ' ' ++ rest) m) (hk : indent ≠ 0 → k ≤ indent - m.column)
    (hrest : indent = 0 ∨ k < indent - m.column → rest.head? ≠ some ' ') :
    ∃ c', c'.Stands rest (m.on k) ∧
      margin? indent (fuel + 1) breaks deepest c =
        rest.head?.elim (some ⟨breaks, max deepest (m.column + k), c'⟩) fun ch =>
          if ch = '\t' && (indent = 0 || m.column + k < indent) then none
          else if isBreak ch then
            c'.passBreak.bind
              (margin? indent fuel (c'.breakText ++ breaks) (max deepest (m.column + k)))
          else some ⟨breaks, max deepest (m.column + k), c'⟩ := by
  obtain ⟨c₁, hensure, h₁⟩ := h.ensure 1
  obtain ⟨c₂, hpass, h₂⟩ := h₁.pass 1 k
  rw [List.drop_left' List.length_replicate] at h₂
  refine ⟨c₂, h₂, ?_⟩
  have hspaces := spaces_eq hk hrest
  simp only [margin?, hensure, Option.bind_eq_bind, Option.bind_some, Cursor.run, h₁.rest_eq,
    h₁.mark_eq, hspaces, hpass, h₂.peek?, h₂.mark_eq, Mark.column_on]
  cases rest with
  | nil => rfl
  | cons ch rest => rfl

/-- Empty lines and the spaces of the next one are passed, up to the given column. -/
theorem margin?_given {bs : List Char} (breaks : List Char) (deepest : Nat)
    (h : c.Stands (bs ++ (List.replicate k ' ' ++ rest)) m) (hbs : ∀ b ∈ bs, KeptBreak b)
    (hindent : indent ≠ 0) (hk : k ≤ indent) (hm : m.column = 0)
    (hrest : ∀ ch ∈ rest.head?, isBreak ch = false ∧ (k < indent → isBlank ch = false))
    (hfuel : bs.length < fuel) :
    ∃ d c' m', margin? indent fuel breaks deepest c = some ⟨bs.reverse ++ breaks, d, c'⟩ ∧
      c'.Stands rest m' ∧ m'.column = k := by
  obtain ⟨fuel, rfl⟩ : ∃ n, fuel = n + 1 := ⟨fuel - 1, by omega⟩
  induction bs generalizing c m breaks deepest fuel with
  | nil =>
    have hstop : indent = 0 ∨ k < indent - m.column → rest.head? ≠ some ' ' := by
      intro hlt hhead
      cases (hrest ' ' hhead).2 (by omega)
    obtain ⟨c₁, h₁, hline⟩ := margin?_line indent fuel breaks deepest h (by omega) hstop
    refine ⟨max deepest (m.column + k), c₁, m.on k, ?_, h₁, by simp [hm]⟩
    rw [hline]
    cases rest with
    | nil => rfl
    | cons ch rest =>
      obtain ⟨hbreak, hblank⟩ := hrest ch rfl
      have htab : (ch = '\t' && (indent = 0 || m.column + k < indent)) = false := by
        by_cases hch : ch = '\t'
        · have hge : ¬ k < indent := by
            intro hlt
            rw [hch] at hblank
            cases hblank hlt
          simpa [hch, hindent, hm] using hge
        · simp [hch]
      rw [List.head?_cons, Option.elim_some, htab, hbreak]
      rfl
  | cons b bs ih =>
    obtain ⟨hb, hbs⟩ := List.forall_mem_cons.1 hbs
    have hspace : b ≠ ' ' := by
      rintro rfl
      cases hb.isBreak
    have htab : b ≠ '\t' := by
      rintro rfl
      cases hb.isBreak
    have h : c.Stands (List.replicate 0 ' ' ++ b :: (bs ++ (List.replicate k ' ' ++ rest))) m := h
    obtain ⟨c₁, h₁, hline⟩ := margin?_line indent fuel breaks deepest h (by simp)
      (fun _ => by simpa using hspace)
    obtain ⟨c₂, hpass, h₂⟩ := h₁.passBreak hb.ne_return
    rw [List.length_cons] at hfuel
    obtain ⟨fuel, rfl⟩ : ∃ n, fuel = n + 1 := ⟨fuel - 1, by omega⟩
    obtain ⟨d, c₃, m₃, hmargin, h₃, hcolumn⟩ :=
      ih (b :: breaks) (max deepest m.column) h₂ hbs rfl fuel (by omega)
    refine ⟨d, c₃, m₃, ?_, h₃, hcolumn⟩
    rw [hline]
    simpa [htab, hb.isBreak, hpass, h₁.breakText hb] using hmargin

/-- How far in a block is can be found out where its first line does not begin with a tab. -/
theorem margin?_auto (fuel : Nat) {ch : Char} (h : c.Stands (List.replicate k ' ' ++ ch :: rest) m)
    (hm : m.column = 0) (hspace : ch ≠ ' ') (hbreak : isBreak ch = false) :
    ∃ c', c'.Stands (ch :: rest) (m.on k) ∧
      margin? 0 (fuel + 1) [] 0 c = if ch = '\t' then none else some ⟨[], k, c'⟩ := by
  obtain ⟨c₁, h₁, hline⟩ := margin?_line 0 fuel [] 0 h (by simp) (fun _ => by simpa using hspace)
  refine ⟨c₁, h₁, ?_⟩
  rw [hline]
  simp [hbreak, hm]

/-! ## Lines -/

/-- A text that begins with a line which is not empty. -/
inductive Lines : List Char → Prop
  | last {line : List Char} (hne : line ≠ []) (hline : ∀ ch ∈ line, isBreak ch = false) :
      Lines line
  | ended {line bs : List Char} {b : Char} (hne : line ≠ [])
      (hline : ∀ ch ∈ line, isBreak ch = false) (hbs : ∀ ch ∈ b :: bs, KeptBreak ch) :
      Lines (line ++ b :: bs)
  | more {line bs cs : List Char} {b : Char} (hne : line ≠ [])
      (hline : ∀ ch ∈ line, isBreak ch = false) (hbs : ∀ ch ∈ b :: bs, KeptBreak ch)
      (h : Lines cs) : Lines (line ++ b :: (bs ++ cs))

theorem blockLines?_stop (t : BlockText) (h : c.Stands rest m) (hm : m.column ≠ indent) :
    blockLines? true indent fuel t c = some (t, c) := by
  cases fuel with
  | zero => rfl
  | succ fuel =>
    rw [blockLines?, h.peek?]
    cases rest with
    | nil => rfl
    | cons ch rest => simp [h.mark_eq, hm]

/-- A round of reading takes a line, the empty lines behind it and the spaces of the next one. -/
theorem blockLines?_round (fuel : Nat) (t : BlockText) {line bs : List Char} {b : Char}
    (h : c.Stands (line ++ b :: (bs ++ (List.replicate k ' ' ++ rest))) m) (hne : line ≠ [])
    (hline : ∀ ch ∈ line, isBreak ch = false) (hbs : ∀ ch ∈ b :: bs, KeptBreak ch)
    (hindent : indent ≠ 0) (hk : k ≤ indent) (hm : m.column = indent)
    (hrest : ∀ ch ∈ rest.head?, isBreak ch = false ∧ (k < indent → isBlank ch = false)) :
    ∃ blank c' m', c'.Stands rest m' ∧ m'.column = k ∧
      blockLines? true indent (fuel + 1) t c =
        blockLines? true indent fuel
          ⟨line.reverse ++ (t.breaks ++ (t.lastBreak ++ t.value)), [b], bs.reverse, blank⟩ c' := by
  obtain ⟨hb, hbs⟩ := List.forall_mem_cons.1 hbs
  obtain ⟨ch, line, rfl⟩ := List.exists_cons_of_ne_nil hne
  obtain ⟨c₁, hpass, h₁⟩ := h.pass 1 (ch :: line).length
  rw [List.drop_left] at h₁
  obtain ⟨c₂, hbreak, h₂⟩ := h₁.passBreak hb.ne_return
  have hroom : bs.length < c₁.limit + 1 := by
    have hroom := h₁.room
    rw [List.length_cons, List.length_append] at hroom
    omega
  obtain ⟨d, c₃, m₃, hmargin, h₃, hcolumn⟩ :=
    margin?_given [] 0 h₂ hbs hindent hk rfl hrest hroom
  have hrun : c.run (fun ch => !isBreak ch) = ch :: line := by
    rw [Cursor.run, h.rest_eq]
    exact (takeWhile_append_of_head (by simpa using hline) (by simpa using hb.isBreak)).1
  refine ⟨isBlank ch, c₃, m₃, h₃, hcolumn, ?_⟩
  rw [blockLines?, h.peek?]
  rw [List.length_cons] at hpass
  simp [h.mark_eq, hm, hrun, hpass, hbreak, hmargin, h₁.breakText hb]

theorem Lines.head {cs : List Char} (h : Lines cs) :
    ∃ ch rest, cs = ch :: rest ∧ isBreak ch = false := by
  have hfirst : ∀ {line : List Char}, line ≠ [] → (∀ ch ∈ line, isBreak ch = false) →
      ∃ ch rest, line = ch :: rest ∧ isBreak ch = false := by
    intro line hne hline
    obtain ⟨ch, rest, rfl⟩ := List.exists_cons_of_ne_nil hne
    exact ⟨ch, rest, rfl, hline ch List.mem_cons_self⟩
  cases h with
  | last hne hline => exact hfirst hne hline
  | ended hne hline _ | more hne hline _ _ =>
    obtain ⟨ch, rest, rfl, hch⟩ := hfirst hne hline
    exact ⟨ch, _, rfl, hch⟩

/-! ## Ends of a text -/

/-- What is to become of the line breaks at the end of a text, so that they are read back. -/
def chompOf (cs : List Char) : Chomp :=
  match cs.reverse with
  | [] => .strip
  | [ch] => if isBreak ch then .keep else .strip
  | ch :: d :: _ => if isBreak ch then if isBreak d then .keep else .clip else .strip

/-- The line feed that a text without one at its end needs. -/
def lineEnd (cs : List Char) : List Char := if cs.getLast?.any isBreak then [] else ['\n']

/-- The value of a block scalar with what its last line breaks become, latest character first. -/
def Chomp.kept (chomp : Chomp) (t : BlockText) : List Char :=
  match chomp with
  | .strip => t.value
  | .clip => t.lastBreak ++ t.value
  | .keep => t.breaks ++ (t.lastBreak ++ t.value)

theorem chompOf_append {cs : List Char} (h : Lines cs) (xs : List Char) :
    chompOf (xs ++ cs) = chompOf cs := by
  obtain ⟨ch, rest, rfl, hch⟩ := h.head
  unfold chompOf
  rw [List.reverse_append, List.reverse_cons]
  cases rest.reverse with
  | nil => cases xs.reverse <;> simp [hch]
  | cons d r => cases r <;> rfl

theorem chompOf_line {line : List Char} (hline : ∀ ch ∈ line, isBreak ch = false) :
    chompOf line = .strip := by
  have hline : ∀ ch ∈ line.reverse, isBreak ch = false := by simpa using hline
  unfold chompOf
  generalize line.reverse = r at hline
  cases r with
  | nil => rfl
  | cons ch r => cases r <;> simp [hline ch]

theorem chompOf_ended {line bs : List Char} {b : Char} (hne : line ≠ [])
    (hline : ∀ ch ∈ line, isBreak ch = false) (hbs : ∀ ch ∈ b :: bs, isBreak ch = true) :
    chompOf (line ++ b :: bs) = if bs = [] then .clip else .keep := by
  have hb := hbs b List.mem_cons_self
  have hbs : ∀ ch ∈ bs.reverse, isBreak ch = true := fun ch hch =>
    hbs ch (.tail _ (List.mem_reverse.1 hch))
  have hempty : bs = [] ↔ bs.reverse = [] := by simp
  obtain ⟨d, l, hlast⟩ := List.exists_cons_of_ne_nil (mt List.reverse_eq_nil_iff.1 hne)
  have hd : isBreak d = false := hline d (List.mem_reverse.1 (hlast ▸ List.mem_cons_self))
  unfold chompOf
  rw [List.reverse_append, List.reverse_cons, hlast]
  simp only [hempty]
  generalize bs.reverse = r at hbs
  cases r with
  | nil => simp [hb, hd]
  | cons e r => 
    have he := hbs e List.mem_cons_self
    cases r with
    | nil => simp [he, hb]
    | cons f r => simp [he, hbs f]

theorem chompOf_breaks {bs : List Char} {b : Char} (hbs : ∀ ch ∈ b :: bs, isBreak ch = true) :
    chompOf (b :: bs) = .keep := by
  have hb := hbs b List.mem_cons_self
  have hbs : ∀ ch ∈ bs.reverse, isBreak ch = true := fun ch hch =>
    hbs ch (.tail _ (List.mem_reverse.1 hch))
  unfold chompOf
  rw [List.reverse_cons]
  generalize bs.reverse = r at hbs
  rcases r with _ | ⟨d, _ | ⟨e, r⟩⟩
  · simp [hb]
  · simp [hb, hbs d]
  · simp [hbs d, hbs e]

theorem lineEnd_concat (xs : List Char) (ch : Char) :
    lineEnd (xs ++ [ch]) = if isBreak ch then [] else ['\n'] := by
  simp [lineEnd]

theorem lineEnd_append {cs : List Char} (h : cs ≠ []) (xs : List Char) :
    lineEnd (xs ++ cs) = lineEnd cs := by
  obtain ⟨cs, ch, rfl⟩ : ∃ cs' ch, cs = cs' ++ [ch] :=
    ⟨_, _, (List.dropLast_concat_getLast h).symm⟩
  rw [← List.append_assoc, lineEnd_concat, lineEnd_concat]

theorem lineEnd_of_forall {cs : List Char} {broken : Bool} (hne : cs ≠ [])
    (h : ∀ ch ∈ cs, isBreak ch = broken) : lineEnd cs = if broken then [] else ['\n'] := by
  rw [← List.dropLast_concat_getLast hne, lineEnd_concat, h _ (List.getLast_mem hne)]

namespace Written

variable {line bs cs : List Char}

theorem blockBody_line (hline : ∀ ch ∈ line, isBreak ch = false) (cs : List Char) :
    blockBody indent false false (line ++ cs) = line ++ blockBody indent false false cs := by
  induction line with
  | nil => rfl
  | cons ch line ih =>
    obtain ⟨hch, hline⟩ := List.forall_mem_cons.1 hline
    simp [blockBody, hch, ih hline]

theorem blockBody_breaks (hbs : ∀ b ∈ bs, isBreak b = true) (cs : List Char) :
    blockBody indent true true (bs ++ cs) = bs ++ blockBody indent true true cs := by
  induction bs with
  | nil => rfl
  | cons b bs ih =>
    obtain ⟨hb, hbs⟩ := List.forall_mem_cons.1 hbs
    simp [blockBody, hb, ih hbs]

theorem blockBody_break {b : Char} (hb : isBreak b = true) (atStart broken : Bool) :
    blockBody indent atStart broken (b :: cs) = b :: blockBody indent true true cs := by
  simp [blockBody, hb]

theorem length_le_length_blockBody (indent : Nat) (atStart broken : Bool) (cs : List Char) :
    cs.length ≤ (blockBody indent atStart broken cs).length := by
  induction cs generalizing atStart broken with
  | nil => exact Nat.le_refl 0
  | cons ch cs ih =>
    have hbroken := ih true true
    have hgoing := ih false false
    simp only [blockBody]
    repeat' split
    all_goals simp only [List.length_cons, List.length_append, List.length_nil]; omega

/-- A line and the breaks behind it are written as they are. -/
theorem blockBody_ended {b : Char} (hline : ∀ ch ∈ line, isBreak ch = false)
    (hbreaks : ∀ ch ∈ b :: bs, isBreak ch = true) (cs : List Char) :
    blockBody indent false false (line ++ b :: (bs ++ cs)) =
      line ++ b :: (bs ++ blockBody indent true true cs) := by
  obtain ⟨hbreak, hothers⟩ := List.forall_mem_cons.1 hbreaks
  rw [blockBody_line hline, blockBody_break hbreak, blockBody_breaks hothers]

/-- A line that does not begin with a line break is indented. -/
theorem blockBody_indented {ch : Char} (hch : isBreak ch = false) :
    blockBody indent true true (ch :: cs) =
      List.replicate indent ' ' ++ blockBody indent false false (ch :: cs) := by
  simp [blockBody, hch]

end Written

/-- The lines of a block are read back. -/
theorem blockLines?_lines {cs : List Char} (hcs : Lines cs) (t : BlockText)
    (h : c.Stands (Written.blockBody indent false false cs ++
      (lineEnd cs ++ (List.replicate k ' ' ++ rest))) m)
    (hindent : indent ≠ 0) (hk : k < indent) (hm : m.column = indent)
    (hrest : ∀ ch ∈ rest.head?, isInk ch = true) (hfuel : cs.length < fuel) :
    ∃ t' c' m', blockLines? true indent fuel t c = some (t', c') ∧
      (chompOf cs).kept t' = cs.reverse ++ (t.breaks ++ (t.lastBreak ++ t.value)) ∧
      c'.Stands rest m' ∧ m'.column = k := by
  obtain ⟨fuel, rfl⟩ : ∃ n, fuel = n + 1 := ⟨fuel - 1, by omega⟩
  have hout : ∀ ch ∈ rest.head?, isBreak ch = false ∧ (k < indent → isBlank ch = false) :=
    fun ch hch => ⟨(isInk_iff.1 (hrest ch hch)).2, fun _ => (isInk_iff.1 (hrest ch hch)).1⟩
  induction hcs generalizing c m t fuel with
  | @last line hne hline =>
    have hbody : Written.blockBody indent false false line = line := by
      simpa [Written.blockBody] using Written.blockBody_line hline []
    rw [hbody, lineEnd_of_forall hne hline] at h
    have h : c.Stands (line ++ '\n' :: ([] ++ (List.replicate k ' ' ++ rest))) m := h
    obtain ⟨blank, c₁, m₁, h₁, hcolumn, hround⟩ := blockLines?_round fuel t h hne hline
      (by simp [KeptBreak]) hindent (Nat.le_of_lt hk) hm hout
    refine ⟨_, c₁, m₁, hround.trans (blockLines?_stop _ h₁ (by omega)), ?_, h₁, hcolumn⟩
    rw [chompOf_line hline]
    rfl
  | @ended line bs b hne hline hbs =>
    have hbreaks : ∀ ch ∈ b :: bs, isBreak ch = true := fun ch hch => (hbs ch hch).isBreak
    have hbody : Written.blockBody indent false false (line ++ b :: bs) = line ++ b :: bs := by
      simpa [Written.blockBody] using Written.blockBody_ended hline hbreaks []
    have hend : lineEnd (line ++ b :: bs) = [] := by
      rw [lineEnd_append (by simp), lineEnd_of_forall (by simp) hbreaks]
      rfl
    rw [hbody, hend, List.append_assoc, List.cons_append, List.nil_append] at h
    obtain ⟨blank, c₁, m₁, h₁, hcolumn, hround⟩ := blockLines?_round fuel t h hne hline hbs hindent
      (Nat.le_of_lt hk) hm hout
    refine ⟨_, c₁, m₁, hround.trans (blockLines?_stop _ h₁ (by omega)), ?_, h₁, hcolumn⟩
    rw [chompOf_ended hne hline hbreaks]
    split
    · rename_i hnil
      simp [Chomp.kept, hnil]
    · simp [Chomp.kept]
  | @more line bs cs b hne hline hbs hcs ih =>
    obtain ⟨ch, tail, hcons, hch⟩ := hcs.head
    have hbody : Written.blockBody indent false false (line ++ b :: (bs ++ cs)) =
        line ++ b ::
          (bs ++ (List.replicate indent ' ' ++ Written.blockBody indent false false cs)) := by
      rw [Written.blockBody_ended hline fun ch hch => (hbs ch hch).isBreak, hcons,
        Written.blockBody_indented hch]
    have hsplit : line ++ b :: (bs ++ cs) = (line ++ b :: bs) ++ cs := by simp
    have hend : lineEnd (line ++ b :: (bs ++ cs)) = lineEnd cs := by
      rw [hsplit, lineEnd_append (by simp [hcons])]
    have hchomp : chompOf (line ++ b :: (bs ++ cs)) = chompOf cs := by
      rw [hsplit, chompOf_append hcs]
    rw [hbody, hend, List.append_assoc, List.cons_append, List.append_assoc, List.append_assoc] at h
    have hnext : ∀ d ∈ (Written.blockBody indent false false cs ++
        (lineEnd cs ++ (List.replicate k ' ' ++ rest))).head?,
        isBreak d = false ∧ (indent < indent → isBlank d = false) := by
      simp [hcons, Written.blockBody, hch]
    obtain ⟨blank, c₁, m₁, h₁, hcolumn, hround⟩ := blockLines?_round fuel t h hne hline hbs hindent
      (Nat.le_refl _) hm hnext
    simp only [List.length_append, List.length_cons] at hfuel
    obtain ⟨fuel, rfl⟩ : ∃ n, fuel = n + 1 := ⟨fuel - 1, by omega⟩
    obtain ⟨t', c₂, m₂, hlines, hkept, h₂, hcolumn₂⟩ := ih
      ⟨line.reverse ++ (t.breaks ++ (t.lastBreak ++ t.value)), [b], bs.reverse, blank⟩ h₁ hcolumn fuel
      (by omega)
    refine ⟨t', c₂, m₂, hround.trans hlines, ?_, h₂, hcolumn₂⟩
    rw [hchomp, hkept]
    simp

/-- A text that does not begin with a line break begins with a line. -/
theorem Lines.of_head {cs : List Char} (hbreaks : ∀ ch ∈ cs, isBreak ch = true → KeptBreak ch)
    (hhead : ∃ ch ∈ cs.head?, isBreak ch = false) : Lines cs := by
  induction hn : cs.length using Nat.strongRecOn generalizing cs with
  | ind n ih =>
    subst hn
    obtain ⟨line, tail, rfl, hline, htail⟩ := exists_run (fun ch => !isBreak ch) cs
    have hline : ∀ ch ∈ line, isBreak ch = false := by simpa using hline
    have hne : line ≠ [] := by
      rintro rfl
      obtain ⟨ch, hch, hbreak⟩ := hhead
      have hnot := htail ch hch
      rw [hbreak] at hnot
      cases hnot
    cases tail with
    | nil => exact (List.append_nil line).symm ▸ .last hne hline
    | cons b tail =>
      obtain ⟨bs, cs, rfl, hbs, hcs⟩ := exists_run isBreak tail
      have hall : ∀ ch ∈ b :: bs, isBreak ch = true :=
        List.forall_mem_cons.2 ⟨by simpa using htail b rfl, hbs⟩
      have hkept : ∀ ch ∈ b :: bs, KeptBreak ch := fun ch hch =>
        hbreaks ch (List.mem_append_right _ (List.mem_append_left cs hch)) (hall ch hch)
      cases cs with
      | nil => exact (List.append_nil bs).symm ▸ .ended hne hline hkept
      | cons ch cs =>
        refine .more hne hline hkept (ih _ ?_ ?_ ⟨ch, rfl, hcs ch rfl⟩ rfl)
        · simp
          omega
        · exact fun d hd => hbreaks d (by simp at hd ⊢; simp [hd])

/-! ## The line of the bar -/

/-- The sign for what becomes of the line breaks at the end. -/
def Chomp.sign : Chomp → List Char
  | .strip => ['-']
  | .clip => []
  | .keep => ['+']

/-- Whether it is said how far in a block is, because its first line does not show it. -/
def hinted (cs : List Char) : Bool := cs.head?.any fun ch => ch = ' ' || isBreak ch

theorem Written.blockSigns_eq (cs : List Char) :
    blockSigns 4 cs = (if hinted cs then ['4'] else []) ++ (chompOf cs).sign := by
  unfold blockSigns chompOf hinted
  congr 1
  rcases cs.reverse with _ | ⟨ch, _ | ⟨d, r⟩⟩
  · rfl
  · cases h : isBreak ch <;> simp [h, Chomp.sign]
  · cases h : isBreak ch <;> cases h' : isBreak d <;> simp [h, h', Chomp.sign]

theorem chompSign?_sign (chomp : Chomp) {b : Char} (hb : KeptBreak b)
    (h : c.Stands (chomp.sign ++ b :: rest) m) :
    ∃ c' n, chompSign? c = some (if chomp = .clip then none else some chomp, c') ∧
      c'.Stands (b :: rest) (m.on n) := by
  cases chomp with
  | clip =>
    refine ⟨c, 0, ?_, h⟩
    rw [chompSign?, h.peek?]
    rcases hb with rfl | rfl | rfl <;> rfl
  | strip | keep =>
    obtain ⟨c₁, hpass, h₁⟩ := h.pass 1 1
    refine ⟨c₁, 1, ?_, h₁⟩
    rw [chompSign?, h.peek?]
    simp [Chomp.sign, hpass]

theorem indentDigit?_break {b : Char} (hb : KeptBreak b) (h : c.Stands (b :: rest) m) :
    indentDigit? c = some (none, c) := by
  rw [indentDigit?, h.peek?]
  rcases hb with rfl | rfl | rfl <;> rfl

/-- The signs behind the bar are read back. -/
theorem blockHeader?_signs (chomp : Chomp) (hint : Bool) {b : Char} (hb : KeptBreak b)
    (h : c.Stands ((if hint then ['4'] else []) ++ (chomp.sign ++ b :: rest)) m) :
    ∃ c' n, blockHeader? c = some (chomp, if hint then 4 else 0, c') ∧
      c'.Stands (b :: rest) (m.on n) := by
  cases hint with
  | false =>
    obtain ⟨c₁, n, hsign, h₁⟩ := chompSign?_sign chomp hb h
    refine ⟨c₁, n, ?_, h₁⟩
    have hdigit := indentDigit?_break hb h₁
    cases chomp <;> simp [blockHeader?, hsign, hdigit]
  | true =>
    have hnone : chompSign? c = some (none, c) := by
      rw [chompSign?, h.peek?]
      rfl
    obtain ⟨c₁, hpass, h₁⟩ := h.pass 1 1
    have hdigit : indentDigit? c = some (some 4, c₁) := by
      rw [indentDigit?, h.peek?]
      simp [hpass]
    obtain ⟨c₂, n, hsign, h₂⟩ := chompSign?_sign chomp hb h₁
    refine ⟨c₂, 1 + n, ?_, Mark.on_on m 1 n ▸ h₂⟩
    cases chomp <;> simp [blockHeader?, hnone, hdigit, hsign]

/-! ## Blocks -/

/-- The empty lines and the lines of a block are read back, where it is said how far in they are. -/
theorem blockLines?_given {bs cs : List Char} {rounds : Nat} (hbs : ∀ b ∈ bs, KeptBreak b)
    (hcs : Lines cs)
    (h : c.Stands (bs ++ (List.replicate indent ' ' ++ (Written.blockBody indent false false cs ++
      (lineEnd cs ++ (List.replicate k ' ' ++ rest))))) m)
    (hindent : indent ≠ 0) (hk : k < indent) (hm : m.column = 0)
    (hrest : ∀ ch ∈ rest.head?, isInk ch = true) (hrounds : (bs ++ cs).length < rounds) :
    ∃ d c' t c'' m', margin? indent rounds [] 0 c = some ⟨bs.reverse, d, c'⟩ ∧
      blockLines? true indent rounds ⟨[], [], bs.reverse, false⟩ c' = some (t, c'') ∧
      (chompOf cs).kept t = (bs ++ cs).reverse ∧ c''.Stands rest m' ∧ m'.column = k := by
  obtain ⟨ch, tail, hcons, hch⟩ := hcs.head
  have hfirst : ∀ d ∈ (Written.blockBody indent false false cs ++
      (lineEnd cs ++ (List.replicate k ' ' ++ rest))).head?,
      isBreak d = false ∧ (indent < indent → isBlank d = false) := by
    simp [hcons, Written.blockBody, hch]
  rw [List.length_append] at hrounds
  obtain ⟨d, c₁, m₁, hmargin, h₁, hcolumn⟩ :=
    margin?_given [] 0 h hbs hindent (Nat.le_refl _) hm hfirst (show bs.length < rounds by omega)
  obtain ⟨t, c₂, m₂, hlines, hkept, h₂, hcolumn₂⟩ := blockLines?_lines hcs
    ⟨[], [], bs.reverse, false⟩ h₁ hindent hk hcolumn hrest (show cs.length < rounds by omega)
  refine ⟨d, c₁, t, c₂, m₂, by simpa using hmargin, hlines, ?_, h₂, hcolumn₂⟩
  simpa using hkept

/-- The line of the bar is read. -/
theorem block?_header (cs : List Char) {b : Char} (hb : KeptBreak b)
    (h : c.Stands ('|' :: (Written.blockSigns 4 cs ++ b :: rest)) m) :
    ∃ c' m', c'.Stands rest m' ∧ m'.column = 0 ∧
      block? true 4 c =
        (margin? (if hinted cs then 8 else 0) (c'.limit + 1) [] 0 c').bind fun mg =>
          (blockLines? true (if hinted cs then 8 else max mg.deepest 5) (c'.limit + 1)
            ⟨[], [], mg.breaks, false⟩ mg.cursor).bind fun x =>
            some (((chompOf cs).kept x.1).reverse, x.2) := by
  obtain ⟨c₁, hpass, h₁⟩ := h.pass 1 1
  have h₁ : c₁.Stands ((if hinted cs then ['4'] else []) ++ ((chompOf cs).sign ++ b :: rest))
      (m.on 1) := by
    rwa [List.drop_one, List.tail_cons, Written.blockSigns_eq, List.append_assoc] at h₁
  obtain ⟨c₂, n, hsigns, h₂⟩ := blockHeader?_signs _ _ hb h₁
  obtain ⟨c₃, hline, h₃⟩ := h₂.restOfLine? hb.isBreak hb.ne_return
  refine ⟨c₃, _, h₃, rfl, ?_⟩
  cases hhint : hinted cs with
  | true =>
    simp [block?, hpass, hsigns, hhint, hline]
    rfl
  | false =>
    simp [block?, hpass, hsigns, hhint, hline]
    rfl

/-- A block that begins with a line break loses it. -/
theorem block?_break {cs : List Char} {b : Char}
    (hbreaks : ∀ ch ∈ b :: cs, isBreak ch = true → KeptBreak ch) (hb : isBreak b = true)
    (h : c.Stands (Written.block 4 8 (b :: cs) ++
      (lineEnd (b :: cs) ++ (List.replicate k ' ' ++ rest))) m)
    (hk : k < 8) (hrest : ∀ ch ∈ rest.head?, isInk ch = true) :
    ∃ c' m', block? true 4 c = some (cs, c') ∧ c'.Stands rest m' ∧ m'.column = k := by
  obtain ⟨hkept, hbreaks⟩ := List.forall_mem_cons.1 hbreaks
  obtain ⟨bs, cs, rfl, hbs, hcs⟩ := exists_run isBreak cs
  have hbs' : ∀ b ∈ bs, KeptBreak b := fun b hb => hbreaks b (List.mem_append_left _ hb) (hbs b hb)
  have h : c.Stands ('|' :: (Written.blockSigns 4 (b :: (bs ++ cs)) ++ b ::
      (bs ++ (Written.blockBody 8 true true cs ++ (lineEnd (b :: (bs ++ cs)) ++
        (List.replicate k ' ' ++ rest)))))) m := by
    simpa [Written.block, Written.blockBody_break hb, Written.blockBody_breaks hbs] using h
  have hhint : hinted (b :: (bs ++ cs)) = true := by simp [hinted, hb]
  obtain ⟨c₁, m₁, h₁, hcolumn, hblock⟩ := block?_header (b :: (bs ++ cs)) (hkept hb) h
  simp only [hhint, if_true] at hblock
  have hrounds : (bs ++ cs).length < c₁.limit + 1 := by
    have hroom := h₁.room
    have hlong := Written.length_le_length_blockBody 8 true true cs
    simp only [List.length_append] at hroom ⊢
    omega
  cases cs with
  | nil =>
    have hall : ∀ ch ∈ b :: (bs ++ []), isBreak ch = true := by simpa [hb] using hbs
    rw [lineEnd_of_forall (by simp) hall] at h₁
    rw [List.append_nil] at hrounds
    have hout : ∀ ch ∈ rest.head?, isBreak ch = false ∧ (k < 8 → isBlank ch = false) :=
      fun ch hch => ⟨(isInk_iff.1 (hrest ch hch)).2, fun _ => (isInk_iff.1 (hrest ch hch)).1⟩
    obtain ⟨d, c₂, m₂, hmargin, h₂, hcolumn₂⟩ :=
      margin?_given [] 0 h₁ hbs' (by decide) (Nat.le_of_lt hk) hcolumn hout hrounds
    refine ⟨c₂, m₂, ?_, h₂, hcolumn₂⟩
    rw [hblock, hmargin, Option.bind_some, blockLines?_stop _ h₂ (by omega), chompOf_breaks hall]
    simp [Chomp.kept]
  | cons d cs =>
    have hlines : Lines (d :: cs) := .of_head
      (fun ch hch => hbreaks ch (List.mem_append_right _ hch)) ⟨d, rfl, hcs d rfl⟩
    rw [Written.blockBody_indented (hcs d rfl), List.append_assoc, ← List.cons_append,
      lineEnd_append (by simp)] at h₁
    obtain ⟨n, c₂, t, c₃, m₃, hmargin, hread, hvalue, h₃, hcolumn₃⟩ :=
      blockLines?_given hbs' hlines h₁ (by decide) hk hcolumn hrest hrounds
    refine ⟨c₃, m₃, ?_, h₃, hcolumn₃⟩
    rw [hblock, hmargin, Option.bind_some, hread, Option.bind_some, ← List.cons_append,
      chompOf_append hlines, hvalue, List.reverse_reverse]

/-- Any other block is read back, unless it begins with a tab. -/
theorem block?_line {cs : List Char} {ch : Char}
    (hbreaks : ∀ d ∈ ch :: cs, isBreak d = true → KeptBreak d) (hch : isBreak ch = false)
    (h : c.Stands (Written.block 4 8 (ch :: cs) ++
      (lineEnd (ch :: cs) ++ (List.replicate k ' ' ++ rest))) m)
    (hk : k < 8) (hrest : ∀ ch ∈ rest.head?, isInk ch = true) :
    if ch = '\t' then block? true 4 c = none
    else ∃ c' m', block? true 4 c = some (ch :: cs, c') ∧ c'.Stands rest m' ∧ m'.column = k := by
  have hlines : Lines (ch :: cs) := .of_head hbreaks ⟨ch, rfl, hch⟩
  have hbody : Written.blockBody 8 false true (ch :: cs) =
      '\n' :: (List.replicate 8 ' ' ++ Written.blockBody 8 false false (ch :: cs)) := by
    simp [Written.blockBody, hch]
  have h : c.Stands ('|' :: (Written.blockSigns 4 (ch :: cs) ++ '\n' :: (List.replicate 8 ' ' ++
      (Written.blockBody 8 false false (ch :: cs) ++ (lineEnd (ch :: cs) ++
        (List.replicate k ' ' ++ rest)))))) m := by
    simpa [Written.block, hbody, -List.reduceReplicate] using h
  obtain ⟨c₁, m₁, h₁, hcolumn, hblock⟩ := block?_header (ch :: cs) (.inl rfl) h
  have hrounds : (ch :: cs).length < c₁.limit + 1 := by
    have hroom := h₁.room
    have hlong := Written.length_le_length_blockBody 8 false false (ch :: cs)
    simp only [List.length_append] at hroom
    omega
  by_cases hspace : ch = ' '
  · have hhint : hinted (ch :: cs) = true := by simp [hinted, hspace]
    have hnone : ∀ b ∈ ([] : List Char), KeptBreak b := by simp
    obtain ⟨n, c₂, t, c₃, m₃, hmargin, hread, hvalue, h₃, hcolumn₃⟩ :=
      blockLines?_given hnone hlines h₁ (by decide) hk hcolumn hrest hrounds
    rw [List.reverse_nil] at hmargin hread
    rw [if_neg (by simp [hspace])]
    refine ⟨c₃, m₃, ?_, h₃, hcolumn₃⟩
    simp only [hhint, if_true] at hblock
    rw [hblock, hmargin, Option.bind_some, hread, Option.bind_some, hvalue, List.nil_append,
      List.reverse_reverse]
  · have hhint : hinted (ch :: cs) = false := by simp [hinted, hspace, hch]
    simp only [hhint, Bool.false_eq_true, if_false] at hblock
    obtain ⟨tail, htail⟩ : ∃ tail, Written.blockBody 8 false false (ch :: cs) ++
        (lineEnd (ch :: cs) ++ (List.replicate k ' ' ++ rest)) = ch :: tail := by
      simp [Written.blockBody, hch]
    rw [htail] at h₁
    obtain ⟨c₂, h₂, hmargin⟩ := margin?_auto c₁.limit h₁ hcolumn hspace hch
    rw [hblock, hmargin]
    split
    · rfl
    · rw [← htail] at h₂
      obtain ⟨t, c₃, m₃, hread, hvalue, h₃, hcolumn₃⟩ := blockLines?_lines hlines
        ⟨[], [], [], false⟩ h₂ (by decide) hk (by simp [hcolumn]) hrest hrounds
      refine ⟨c₃, m₃, ?_, h₃, hcolumn₃⟩
      simp [hread, hvalue]

end Birdcall.Yaml
