import Birdcall.Proofs.Evaluation
import Birdcall.Proofs.Respelling

/-!
# Programs that tokens spell

Any list of instructions is a program, but tokens only spell those that are well formed: no
instruction holds more than its operation uses, and the bodies of functions nest.  Every well formed
program is spelled, by one sequence of words only.

* `Program.Nests` scans a range of instructions, passing over the bodies it meets and scanning each
  of them in the same way.  It is what statements look like once they are laid out
  (`Placed.nests`), and where it holds there are such statements (`Program.Nests.placed`).
* The words of a program are told from its instructions alone (`Program.words`), and tokens with
  other words spell something else (`Spells.map_bare`).
-/

namespace Birdcall

open Statement (flatten size flatten_inj length_flatten)

/-! ## Well formed programs -/

/-- The instructions in which nothing is set but what the operation uses: a known symbol, or a
name. -/
inductive Instruction.Proper : Instruction → Prop
  | print {s : Symbol} (hs : s.known = true) : Proper (.print s)
  | run {name : Text} (hname : name ≠ []) : Proper (.run name)
  | define {name : Text} (hname : name ≠ []) (last : Int) : Proper (.define name last)

namespace Program

/-- A range of instructions, from `lo` up to but not including `hi`, in which functions nest. -/
inductive Nests (p : Program) : Nat → Nat → Prop
  | done (hi : Nat) : Nests p hi hi
  | next {lo hi : Nat} {i : Instruction} (hlo : lo < hi) (hget : p[lo]? = some i)
      (hop : i.op ≠ .define) (h : Nests p (lo + 1) hi) : Nests p lo hi
  /-- A function ends inside the range, and not before it begins.  Its body nests in itself, and the
  range goes on behind the body. -/
  | define {lo last hi : Nat} {i : Instruction} (hget : p[lo]? = some i) (hop : i.op = .define)
      (hlast : i.last = last) (hlo : lo ≤ last) (hhi : last < hi)
      (hbody : Nests p (lo + 1) (last + 1)) (h : Nests p (last + 1) hi) : Nests p lo hi

/-- A program of proper instructions in which functions nest. -/
structure WellFormed (p : Program) : Prop where
  proper : ∀ i ∈ p, i.Proper
  nests : p.Nests 0 p.length

end Program

/-! ## From statements to nesting -/

/-- Statements are laid out as proper instructions. -/
theorem Spells.proper {tokens : List Token} {t : List Statement} (h : Spells tokens t)
    (index : Nat) : ∀ i ∈ flatten index t, i.Proper := by
  induction h generalizing index with
  | nil => simp [flatten]
  | print _ hs _ ih =>
    rw [flatten]
    exact List.forall_mem_cons.2 ⟨.print hs, ih _⟩
  | run _ hn _ ih =>
    rw [flatten]
    exact List.forall_mem_cons.2 ⟨.run hn.2, ih _⟩
  | define _ hn _ _ _ ihbody ih =>
    rw [flatten]
    exact List.forall_mem_cons.2 ⟨.define hn.2 _, List.forall_mem_append.2 ⟨ihbody _, ih _⟩⟩

theorem Op.print_ne_define : print ≠ define := by decide

theorem Op.run_ne_define : run ≠ define := by decide

/-- Where the instructions of statements stand functions nest. -/
theorem Placed.nests {p : Program} {index : Nat} {t : List Statement}
    (h : Placed p.toArray index t) : p.Nests index (index + size t) := by
  fun_induction flatten index t with
  | case1 index =>
    rw [size]
    exact .done index
  | case2 index s rest ih =>
    obtain ⟨-, hget, hrest⟩ := h.print
    rw [size, ← Nat.add_assoc]
    exact .next (by omega) (by simpa using hget) Op.print_ne_define (ih hrest)
  | case3 index name rest ih =>
    obtain ⟨hget, hrest⟩ := h.run
    rw [size, ← Nat.add_assoc]
    exact .next (by omega) (by simpa using hget) Op.run_ne_define (ih hrest)
  | case4 index name body rest ihbody ihrest =>
    obtain ⟨hget, hbody, hrest⟩ := h.define
    have hinside := ihbody hbody
    have hbehind := ihrest hrest
    have hend : index + 1 + size body = index + size body + 1 := by omega
    have hsize : index + 1 + size body + size rest = index + (1 + size body + size rest) := by omega
    rw [hsize, hend] at hbehind
    rw [hend] at hinside
    rw [size]
    exact .define (by simpa using hget) rfl rfl (by omega) (by omega) hinside hbehind

/-! ## From nesting to statements -/

namespace Placed

variable {p : Program} {index : Nat} {t : List Statement}

theorem drop_eq_cons {i : Instruction} (h : p[index]? = some i) :
    p.drop index = i :: p.drop (index + 1) := by
  obtain ⟨hlt, rfl⟩ := List.getElem?_eq_some_iff.1 h
  exact List.drop_eq_getElem_cons hlt

/-- Nothing stands anywhere. -/
theorem nil : Placed p.toArray index [] := by
  refine ⟨⟨[], .nil⟩, ?_⟩
  rw [flatten]
  exact List.nil_prefix

theorem print_cons {s : Symbol} (hs : s.known = true) (hget : p[index]? = some (.print s))
    (h : Placed p.toArray (index + 1) t) : Placed p.toArray index (.print s :: t) := by
  obtain ⟨⟨tokens, htokens⟩, hcode⟩ := h
  refine ⟨⟨⟨.symbol s, [], .zero⟩ :: tokens, .print rfl hs htokens⟩, ?_⟩
  rw [flatten, drop_eq_cons hget]
  exact List.cons_prefix_cons.2 ⟨rfl, hcode⟩

theorem run_cons {name : Text} (hname : name ≠ []) (hget : p[index]? = some (.run name))
    (h : Placed p.toArray (index + 1) t) : Placed p.toArray index (.run name :: t) := by
  obtain ⟨⟨tokens, htokens⟩, hcode⟩ := h
  let n : Token := ⟨.identifier, name, .zero⟩
  refine ⟨⟨⟨.runner, [], .zero⟩ :: n :: tokens, .run rfl ⟨rfl, hname⟩ htokens⟩, ?_⟩
  rw [flatten, drop_eq_cons hget]
  exact List.cons_prefix_cons.2 ⟨rfl, hcode⟩

/-- A body and the statements behind it stand behind the definition. -/
theorem define_cons {name : Text} {body : List Statement} (hname : name ≠ [])
    (hget : p[index]? = some (.define name (index + size body : Nat)))
    (hbody : Placed p.toArray (index + 1) body)
    (h : Placed p.toArray (index + 1 + size body) t) :
    Placed p.toArray index (.define name body :: t) := by
  obtain ⟨⟨inner, hinner⟩, hbodyCode⟩ := hbody
  obtain ⟨⟨tokens, htokens⟩, hcode⟩ := h
  let n : Token := ⟨.identifier, name, .zero⟩
  refine ⟨⟨⟨.opener, [], .zero⟩ :: n :: (inner ++ ⟨.closer, [], .zero⟩ :: tokens),
    .define rfl ⟨rfl, hname⟩ hinner rfl htokens⟩, ?_⟩
  rw [flatten, drop_eq_cons hget]
  refine List.cons_prefix_cons.2 ⟨rfl, ?_⟩
  obtain ⟨behind, hbehind⟩ := hbodyCode
  have hbehind : flatten (index + 1) body ++ behind = p.drop (index + 1) := hbehind
  have hdrop : p.drop (index + 1 + size body) = behind := by
    rw [← List.drop_drop, ← hbehind, ← length_flatten (index + 1) body, List.drop_left]
  rw [← hbehind, ← hdrop]
  exact (List.prefix_append_right_inj _).2 hcode

end Placed

/-- Functions that nest in a range are statements that stand there. -/
theorem Program.Nests.placed {p : Program} {lo hi : Nat} (h : p.Nests lo hi)
    (hproper : ∀ i ∈ p, i.Proper) : ∃ t, Placed p.toArray lo t ∧ lo + size t = hi := by
  induction h with
  | done hi => exact ⟨[], .nil, by rw [size]; rfl⟩
  | @next lo hi i hlo hget hop _ ih =>
    obtain ⟨t, ht, hsize⟩ := ih
    cases hproper i (List.mem_of_getElem? hget) with
    | @print s hs =>
      refine ⟨.print s :: t, .print_cons hs hget ht, ?_⟩
      rw [size]
      omega
    | @run name hname =>
      refine ⟨.run name :: t, .run_cons hname hget ht, ?_⟩
      rw [size]
      omega
    | define => exact absurd rfl hop
  | @define lo last hi i hget hop hlast hlo hhi _ _ ihbody ih =>
    obtain ⟨body, hbody, hinside⟩ := ihbody
    obtain ⟨t, ht, hbehind⟩ := ih
    cases hproper i (List.mem_of_getElem? hget) with
    | print => exact absurd hop Op.print_ne_define
    | run => exact absurd hop Op.run_ne_define
    | @define name hname _ =>
      have hend : lo + size body = last := by omega
      refine ⟨.define name body :: t, .define_cons hname ?_ hbody ?_, ?_⟩
      · rw [hget, hend, ← hlast]
        rfl
      · rwa [hinside]
      · rw [size]
        omega

/-! ## The words of a program -/

theorem Token.bare_reserved {t : Token} {k : Kind} (h : t.kind = k) (hk : k ≠ .identifier) :
    t.bare = Kind.bare (Program.reserved k) := by
  simp [bare, Kind.bare, word, Program.reserved, h, hk]

theorem Token.bare_name {n : Token} (h : n.kind = .identifier) :
    n.bare = Kind.bare (.identifier, n.text) := by
  simp [bare, word, h]

/-- Statements are spelled by their own words only. -/
theorem Spells.map_bare {tokens : List Token} {t : List Statement} (h : Spells tokens t) :
    tokens.map Token.bare = (Statement.words t).map Kind.bare := by
  induction h with
  | nil => rw [Statement.words]; rfl
  | print ht hs _ ih =>
    rw [Statement.words, List.map_cons, List.map_cons, ih,
      Token.bare_reserved ht (Kind.symbol_ne_identifier hs)]
  | run ht hn _ ih =>
    rw [Statement.words, List.map_cons, List.map_cons, List.map_cons, List.map_cons, ih,
      Token.bare_reserved ht (by decide), Token.bare_name hn.1]
  | define ht hn _ he _ ihbody ih =>
    rw [Statement.words, List.map_cons, List.map_cons, List.map_cons, List.map_cons,
      List.map_append, List.map_append, List.map_cons, List.map_cons, ihbody, ih,
      Token.bare_reserved ht (by decide), Token.bare_name hn.1, Token.bare_reserved he (by decide)]

namespace Program

/-- The statements of a well formed program. -/
theorem WellFormed.exists_spells {p : Program} (h : p.WellFormed) :
    ∃ tokens t, Spells tokens t ∧ p = flatten 0 t := by
  obtain ⟨t, ⟨⟨tokens, htokens⟩, hcode⟩, hsize⟩ := h.nests.placed h.proper
  refine ⟨tokens, t, htokens, ?_⟩
  rw [Nat.zero_add, ← length_flatten 0] at hsize
  exact (hcode.eq_of_length hsize).symm

/-- Tokens spell exactly the well formed programs.  Each of these is spelled by one sequence of
words, those it has by itself; of a token nothing matters but its kind, and its text if it is a
name. -/
theorem spelled_iff_wellFormed (p : Program) :
    ((∃ tokens, ofTokens tokens = .ok p) ↔ p.WellFormed) ∧
      (p.WellFormed → ∀ tokens,
        ofTokens tokens = .ok p ↔ tokens.map Token.bare = p.words.map Kind.bare) := by
  have hspelled : ∀ tokens, ofTokens tokens = .ok p → p.WellFormed := by
    intro tokens h
    obtain ⟨t, ht, rfl⟩ := ofTokens_eq_ok_iff.1 h
    have hnests := (Placed.flatten_zero ht).nests
    rw [Nat.zero_add, ← length_flatten 0] at hnests
    exact ⟨ht.proper 0, hnests⟩
  refine ⟨⟨?_, ?_⟩, ?_⟩
  · rintro ⟨tokens, h⟩
    exact hspelled tokens h
  · intro h
    obtain ⟨tokens, t, ht, hp⟩ := h.exists_spells
    exact ⟨tokens, ofTokens_eq_ok_iff.2 ⟨t, ht, hp⟩⟩
  · intro h tokens
    obtain ⟨own, t, hown, rfl⟩ := h.exists_spells
    rw [Statement.words_flatten, ← hown.map_bare]
    constructor
    · intro hok
      obtain ⟨u, hu, hsame⟩ := ofTokens_eq_ok_iff.1 hok
      rw [hu.map_bare, hown.map_bare, flatten_inj hsame]
    · intro hbare
      exact ofTokens_eq_ok_iff.2 ⟨t, hown.of_map_bare hbare.symm, rfl⟩

/-- The nested program has two functions that end in the same place, one of them empty. -/
theorem spelled_iff_wellFormed_nested :
    let f := Text.ofString "f"
    let g := Text.ofString "g"
    nested.WellFormed ∧ (∃ tokens, ofTokens tokens = .ok nested) ∧
      ∀ tokens, ofTokens tokens = .ok nested ↔ tokens.map Token.bare =
        [(.opener, []), (.identifier, f), (.symbol ⟨0⟩, []), (.opener, []), (.identifier, g),
          (.closer, []), (.closer, []), (.runner, []), (.identifier, f)] := by
  intro f g
  have hf : f ≠ [] := by decide
  have hg : g ≠ [] := by decide
  have hproper : ∀ i ∈ nested, i.Proper := by
    simp only [nested, List.forall_mem_cons]
    exact ⟨.define hf 2, .print rfl, .define hg 2, .run hf, by simp⟩
  have hempty : nested.Nests 2 3 :=
    .define rfl rfl rfl (Nat.le_refl 2) (Nat.lt_succ_self 2) (.done 3) (.done 3)
  have hbody : nested.Nests 1 3 := .next (by decide) rfl Op.print_ne_define hempty
  have hrest : nested.Nests 3 4 := .next (by decide) rfl Op.run_ne_define (.done 4)
  have hwhole : nested.WellFormed :=
    ⟨hproper, .define rfl rfl rfl (Nat.zero_le 2) (by decide) hbody hrest⟩
  have h := spelled_iff_wellFormed nested
  exact ⟨hwhole, h.1.2 hwhole, h.2 hwhole⟩

end Program
end Birdcall
