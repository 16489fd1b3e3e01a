import Birdcall.Proofs.Yaml.Cursor
import Birdcall.Yaml.Token.Scalar
import Birdcall.Yaml.Written

/-!
# White space in scalars

Quoted and plain scalars are read a word at a time, with the white space between two words taken
together.  `Gap.read_spaces` and `Gap.read_break` say what is taken for spaces and for line breaks.

`Spread` says that a text consists of words and such white space.  What counts as a part of a word is
left open: where characters are escaped, white space can be.
-/

namespace Birdcall.Yaml

open Cursor (Stands)

/-! ## Reading white space -/

namespace Gap

variable {fuel k : Nat} {g : Gap} {c : Cursor} {rest : List Char} {m : Mark}

/-- White space with `k` more spaces. -/
def spaced (g : Gap) (k : Nat) : Gap :=
  if g.broken then g else { g with blanks := List.replicate k ' ' ++ g.blanks }

theorem spaced_zero (g : Gap) : g.spaced 0 = g := by
  unfold spaced
  split <;> rfl

theorem spaced_spaced_one (g : Gap) (k : Nat) : (g.spaced 1).spaced k = g.spaced (k + 1) := by
  unfold spaced
  cases hbroken : g.broken with
  | true => simp [hbroken]
  | false => simp [List.replicate_succ', List.append_assoc]

theorem read_spaces (least : Option Nat) (h : c.Stands (List.replicate k ' ' ++ rest) m)
    (hend : ∀ ch ∈ rest.head?, isInk ch = true) (hfuel : k ≤ fuel) :
    ∃ c', read least fuel g c = some (g.spaced k, c') ∧ c'.Stands rest (m.on k) := by
  induction k generalizing fuel g c m with
  | zero =>
    refine ⟨c, ?_, h⟩
    rw [spaced_zero]
    cases fuel with
    | zero => rfl
    | succ fuel =>
      rw [read, h.peek?]
      cases rest with
      | nil => rfl
      | cons ch rest =>
        obtain ⟨hblank, hbreak⟩ := isInk_iff.1 (hend ch rfl)
        simp [hblank, hbreak]
  | succ k ih =>
    cases fuel with
    | zero => omega
    | succ fuel =>
      obtain ⟨c₁, hpass, h₁⟩ := h.pass 1 1
      obtain ⟨c₂, hread, h₂⟩ := ih (g := g.spaced 1) h₁ (Nat.le_of_succ_le_succ hfuel)
      rw [spaced_spaced_one] at hread
      rw [Mark.on_on, Nat.add_comm] at h₂
      refine ⟨c₂, ?_, h₂⟩
      have hpeek : c.peek? = some ' ' := h.peek?
      simp only [read, hpeek]
      simp [isBlank, hpass]
      exact hread

theorem read_breaks (least : Option Nat) {bs : List Char}
    (h : c.Stands (bs ++ (List.replicate k ' ' ++ rest)) m)
    (hbs : ∀ b ∈ bs, KeptBreak b)
    (hend : ∀ ch ∈ rest.head?, isInk ch = true) (hg : g.broken = true)
    (hfuel : bs.length + k ≤ fuel) :
    ∃ c' m', read least fuel g c = some ({ g with more := bs.reverse ++ g.more }, c') ∧
      c'.Stands rest m' ∧ m'.column = (if bs = [] then m.column else 0) + k := by
  induction bs generalizing fuel g c m with
  | nil =>
    obtain ⟨c₁, hread, h₁⟩ := read_spaces (g := g) least h hend (by simpa using hfuel)
    refine ⟨c₁, _, ?_, h₁, rfl⟩
    rw [hread, spaced, if_pos hg]
    rfl
  | cons b bs ih =>
    cases fuel with
    | zero => simp at hfuel
    | succ fuel =>
      obtain ⟨hb, hbs⟩ := List.forall_mem_cons.1 hbs
      obtain ⟨c₁, hpass, h₁⟩ := h.passBreak hb.ne_return
      obtain ⟨c₂, hensure, h₂⟩ := h₁.ensure 1
      have hfuel : bs.length + k ≤ fuel := by
        rw [List.length_cons] at hfuel
        omega
      obtain ⟨c₃, m₃, hread, h₃, hcolumn⟩ := ih (g := { g with more := b :: g.more }) h₂ hbs hg hfuel
      refine ⟨c₃, m₃, ?_, h₃, ?_⟩
      · have hpeek : c.peek? = some b := h.peek?
        simp only [read, hpeek]
        simp [isBlank_of_isBreak hb.isBreak, hb.isBreak, hg, hpass, hensure, h.breakText hb]
        simpa [hg] using hread
      · rw [hcolumn]
        simp

/-- White space that begins with a line break. -/
theorem read_break (least : Option Nat) {b : Char} {bs : List Char}
    (h : c.Stands (b :: bs ++ (List.replicate k ' ' ++ rest)) m) (hb : KeptBreak b)
    (hbs : ∀ b ∈ bs, KeptBreak b)
    (hend : ∀ ch ∈ rest.head?, isInk ch = true) (hg : g.broken = false)
    (hfuel : bs.length + k < fuel) :
    ∃ c' m', read least fuel g c = some (⟨[], [b], bs.reverse, true⟩, c') ∧
      c'.Stands rest m' ∧ m'.column = k := by
  cases fuel with
  | zero => omega
  | succ fuel =>
    obtain ⟨c₁, hpass, h₁⟩ := h.passBreak hb.ne_return
    obtain ⟨c₂, hensure, h₂⟩ := h₁.ensure 1
    obtain ⟨c₃, m₃, hread, h₃, hcolumn⟩ := read_breaks (g := ⟨[], [b], [], true⟩) least h₂ hbs hend
      rfl (Nat.le_of_lt_succ hfuel)
    refine ⟨c₃, m₃, ?_, h₃, ?_⟩
    · have hpeek : c.peek? = some b := h.peek?
      simp only [read, hpeek]
      simp [isBlank_of_isBreak hb.isBreak, hb.isBreak, hg, hpass, hensure, h.breakText hb]
      simpa using hread
    · simpa using hcolumn

theorem after_spaced (value : List Char) (k : Nat) :
    (none.spaced k).after value = List.replicate k ' ' ++ value := by
  simp [spaced, none, after]

theorem after_breaks (value : List Char) {b : Char} (hb : b ≠ '\n') (bs : List Char) :
    (Gap.mk [] [b] bs.reverse true).after value = (b :: bs).reverse ++ value := by
  simp [after, hb]

end Gap

/-! ## Words and white space -/

/-- A text that consists of words, with spaces or line breaks between them. -/
inductive Spread (ink breaks : Char → Bool) : List Char → Prop
  | word {w : List Char} (hw : ∀ ch ∈ w, ink ch = true) : Spread ink breaks w
  | space {w cs : List Char} (k : Nat) (hw : ∀ ch ∈ w, ink ch = true)
      (hcs : ∀ ch ∈ cs.head?, ink ch = true) (h : Spread ink breaks cs) :
      Spread ink breaks (w ++ (List.replicate (k + 1) ' ' ++ cs))
  | line {w bs cs : List Char} {b : Char} (hw : ∀ ch ∈ w, ink ch = true)
      (hb : ∀ ch ∈ b :: bs, breaks ch = true) (hcs : ∀ ch ∈ cs.head?, ink ch = true)
      (h : Spread ink breaks cs) : Spread ink breaks (w ++ (b :: bs ++ cs))

/-- A text begins with a run of a class. -/
theorem exists_run (p : Char → Bool) (cs : List Char) :
    ∃ run rest, cs = run ++ rest ∧ (∀ ch ∈ run, p ch = true) ∧ ∀ ch ∈ rest.head?, p ch = false := by
  induction cs with
  | nil => exact ⟨[], [], rfl, by simp, by simp⟩
  | cons ch cs ih =>
    cases hp : p ch with
    | false => exact ⟨[], ch :: cs, rfl, by simp, by simpa using hp⟩
    | true =>
      obtain ⟨run, rest, rfl, hrun, hrest⟩ := ih
      exact ⟨ch :: run, rest, rfl, List.forall_mem_cons.2 ⟨hp, hrun⟩, hrest⟩

section Pairs

variable {p q : Char → Bool} {xs ys : List Char}

theorem Written.hasPair_suffix (h : hasPair p q (xs ++ ys) = false) : hasPair p q ys = false := by
  induction xs with
  | nil => exact h
  | cons x xs ih =>
    apply ih
    cases hxs : xs ++ ys with
    | nil => rfl
    | cons y zs =>
      rw [List.cons_append, hxs] at h
      exact (Bool.or_eq_false_iff.1 h).2

/-- Where a text has no pair of two classes, what follows a run of the first is not of the
second. -/
theorem Written.head_of_hasPair (run : List Char) (h : hasPair p q (run ++ ys) = false)
    (hne : run ≠ []) (hrun : ∀ a ∈ run, p a = true) : ∀ b ∈ ys.head?, q b = false := by
  obtain ⟨before, a, rfl⟩ : ∃ before a, run = before ++ [a] :=
    ⟨_, _, (List.dropLast_concat_getLast hne).symm⟩
  rw [List.append_assoc] at h
  have h := hasPair_suffix h
  cases ys with
  | nil => simp
  | cons y ys =>
    have ha := hrun a (by simp)
    simpa [ha] using (Bool.or_eq_false_iff.1 h).1

theorem Written.hasPair_mono {p' q' : Char → Bool} {cs : List Char}
    (hp : ∀ a, p a = true → p' a = true) (hq : ∀ b, q b = true → q' b = true)
    (h : hasPair p' q' cs = false) : hasPair p q cs = false := by
  induction cs with
  | nil => rfl
  | cons a cs ih =>
    cases cs with
    | nil => rfl
    | cons b cs =>
      obtain ⟨hpair, hrest⟩ := Bool.or_eq_false_iff.1 h
      refine Bool.or_eq_false_iff.2 ⟨?_, ih hrest⟩
      cases ha : p a <;> cases hb : q b <;> simp_all

end Pairs

theorem Written.keptBreak_of_isPrintable {b : Char} (h : isPrintable b = true)
    (hb : isBreak b = true) : KeptBreak b := by
  simp only [isBreak, Bool.or_eq_true, decide_eq_true_eq] at hb
  rcases hb with (((rfl | rfl) | rfl) | rfl) | rfl
  · exact .inl rfl
  · cases h
  · cases h
  · exact .inr (.inl rfl)
  · exact .inr (.inr rfl)

/-- A text is spread out unless spaces and line breaks stand side by side. -/
theorem Spread.of_pairs {ink breaks : Char → Bool} {cs : List Char}
    (hcs : ∀ ch ∈ cs, ink ch = true ∨ ch = ' ' ∨ breaks ch = true)
    (hspace : Written.hasPair (· = ' ') breaks cs = false)
    (hbreak : Written.hasPair breaks (· = ' ') cs = false) : Spread ink breaks cs := by
  induction hn : cs.length using Nat.strongRecOn generalizing cs with
  | ind n ih =>
    subst hn
    obtain ⟨w, tail, rfl, hw, htail⟩ := exists_run ink cs
    have hspace := Written.hasPair_suffix hspace
    have hbreak := Written.hasPair_suffix hbreak
    cases tail with
    | nil => exact (List.append_nil w).symm ▸ .word hw
    | cons ch tail =>
      have hch := hcs ch (by simp)
      rw [htail ch rfl] at hch
      rcases hch with hch | rfl | hch
      · cases hch
      · obtain ⟨run, tail, rfl, hrun, hend⟩ := exists_run (· = ' ') tail
        have hall : ∀ a ∈ ' ' :: run, (a = ' ' : Bool) = true := List.forall_mem_cons.2 ⟨rfl, hrun⟩
        have hrun : ' ' :: run = List.replicate (run.length + 1) ' ' :=
          List.eq_replicate_iff.2 ⟨rfl, by simpa using hall⟩
        have hafter := Written.head_of_hasPair (' ' :: run) hspace (by simp) hall
        rw [← List.cons_append, hrun] at hcs hspace hbreak ih ⊢
        refine .space _ hw ?_ ?_
        · intro d hd
          have hmem : d ∈ tail := List.mem_of_head? hd
          simpa [hafter d hd, by simpa using hend d hd] using hcs d (by simp [hmem])
        · exact ih _ (by simp; omega) (fun d hd => hcs d (by simp [hd]))
            (Written.hasPair_suffix hspace) (Written.hasPair_suffix hbreak) rfl
      · obtain ⟨run, tail, rfl, hrun, hend⟩ := exists_run breaks tail
        have hall : ∀ a ∈ ch :: run, breaks a = true := List.forall_mem_cons.2 ⟨hch, hrun⟩
        have hafter := Written.head_of_hasPair (ch :: run) hbreak (by simp) hall
        rw [← List.cons_append] at hcs hspace hbreak ih ⊢
        refine .line hw hall ?_ ?_
        · intro d hd
          have hmem : d ∈ tail := List.mem_of_head? hd
          have hnot : d ≠ ' ' := by simpa using hafter d hd
          simpa [hnot, hend d hd] using hcs d (by simp [hmem])
        · exact ih _ (by simp; omega) (fun d hd => hcs d (by simp [hd]))
            (Written.hasPair_suffix hspace) (Written.hasPair_suffix hbreak) rfl

theorem Written.hasPair_eq_false {p q : Char → Bool} {cs : List Char}
    (h : ∀ a ∈ cs, ∀ b ∈ cs, (p a && q b) = false) : hasPair p q cs = false := by
  induction cs with
  | nil => rfl
  | cons a cs ih =>
    cases cs with
    | nil => rfl
    | cons b cs =>
      have hrest := ih fun a ha b hb => h a (List.mem_cons_of_mem _ ha) b (List.mem_cons_of_mem _ hb)
      exact Bool.or_eq_false_iff.2 ⟨h a (by simp) b (by simp), hrest⟩

/-- A text without line breaks is spread out. -/
theorem Spread.of_spaces {ink : Char → Bool} {cs : List Char}
    (hcs : ∀ ch ∈ cs, ink ch = true ∨ ch = ' ') : Spread ink (fun _ => false) cs :=
  .of_pairs (fun ch hch => (hcs ch hch).imp_right .inl) (Written.hasPair_eq_false (by simp))
    (Written.hasPair_eq_false (by simp))

end Birdcall.Yaml
