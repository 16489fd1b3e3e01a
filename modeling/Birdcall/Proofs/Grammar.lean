import Birdcall.Program.Spelling

/-!
# The grammar of programs

A program is a list of statements: print a symbol, run a function, or define a function by a list
of statements of its own.  `Spells` is the grammar, `Statement.flatten` lays statements out in
preorder, and this module proves that `Program.ofTokens` does the one for exactly the other.

There are four groups.

* The kinds of tokens.  The lemmas there say which kinds have which role, so that no later proof
  looks at the number of a kind.
* Laying out.  `Statement.flatten` is injective, since a definition says how long its body is.
* Reading what the grammar spells.  `emitFrom_append` says that the tokens of statements add the
  instructions of these statements and leave the open functions alone.
* Reading only what the grammar spells.  `Closes` says what may follow inside open functions, and
  `closes_of_emitFrom` finds it in every reading that succeeds.
-/

namespace Birdcall

/-! ## The kinds of tokens -/

namespace Kind

/-- The kind of the words with a given role, if there is just one. -/
def ofRole? : Role → Option Kind
  | .identifier => some identifier
  | .symbol s => if s.known then some (symbol s) else none
  | .opener => some opener
  | .closer => some closer
  | .runner => some runner
  | .unknown => none

/-- A kind with a role other than `unknown` is the only one with that role. -/
theorem ofRole?_eq_some {k : Kind} {r : Role} (h : k.role = r) (hr : r ≠ .unknown) :
    ofRole? r = some k := by
  subst h
  obtain ⟨c⟩ := k
  simp only [role] at hr ⊢
  split at hr
  case h_9 => exact absurd rfl hr
  all_goals
    rename_i hc
    exact congrArg (fun c => some (mk c)) (UInt8.toNat_inj.1 hc.symm)

/-- Only the kind of a known symbol prints it. -/
theorem eq_symbol_of_role {k : Kind} {s : Symbol} (h : k.role = .symbol s) :
    s.known = true ∧ k = symbol s := by
  have hk := ofRole?_eq_some h (by simp)
  by_cases hs : s.known = true
  · rw [ofRole?, if_pos hs] at hk
    exact ⟨hs, (Option.some.inj hk).symm⟩
  · rw [ofRole?, if_neg hs] at hk
    cases hk

/-- The kind of a known symbol prints it. -/
theorem role_symbol {s : Symbol} (hs : s.known = true) : (symbol s).role = .symbol s := by
  obtain ⟨c⟩ := s
  have hlt : c.toNat < 4 := of_decide_eq_true hs
  have hc : c = 0 ∨ c = 1 ∨ c = 2 ∨ c = 3 := by
    simp only [← UInt8.toNat_inj, UInt8.reduceToNat]
    omega
  rcases hc with rfl | rfl | rfl | rfl <;> rfl

theorem symbol_ne_identifier {s : Symbol} (hs : s.known = true) : symbol s ≠ identifier := by
  intro h
  have hrole := role_symbol hs
  rw [h] at hrole
  cases hrole

end Kind

/-- A token can name a function if it is an identifier with a text. -/
theorem Token.names_iff (t : Token) : t.names = true ↔ t.kind = .identifier ∧ t.text ≠ [] := by
  have hkind : t.kind.role = .identifier ↔ t.kind = .identifier := by
    refine ⟨fun h => ?_, fun h => h ▸ rfl⟩
    exact (Option.some.inj (Kind.ofRole?_eq_some h (by simp))).symm
  simp [names, hkind]

/-! ## Statements -/

/-- A statement of a program. -/
inductive Statement
  | print (s : Symbol)
  | run (name : Text)
  | define (name : Text) (body : List Statement)

/-- The tokens that spell a list of statements. -/
inductive Spells : List Token → List Statement → Prop
  | nil : Spells [] []
  /-- One of the four letters. -/
  | print {t : Token} {s : Symbol} {rest : List Token} {after : List Statement}
      (ht : t.kind = .symbol s) (hs : s.known = true) (h : Spells rest after) :
      Spells (t :: rest) (.print s :: after)
  /-- `RUN` and a name. -/
  | run {t n : Token} {rest : List Token} {after : List Statement}
      (ht : t.kind = .runner) (hn : n.kind = .identifier ∧ n.text ≠ [])
      (h : Spells rest after) :
      Spells (t :: n :: rest) (.run n.text :: after)
  /-- `FUN`, a name, the statements of the body and `END`. -/
  | define {t n e : Token} {inner rest : List Token} {body after : List Statement}
      (ht : t.kind = .opener) (hn : n.kind = .identifier ∧ n.text ≠ [])
      (hb : Spells inner body) (he : e.kind = .closer) (h : Spells rest after) :
      Spells (t :: n :: (inner ++ e :: rest)) (.define n.text body :: after)

namespace Statement

/-- How many statements a list holds, those in bodies included. -/
def size : List Statement → Nat
  | [] => 0
  | .print _ :: rest => 1 + size rest
  | .run _ :: rest => 1 + size rest
  | .define _ body :: rest => 1 + size body + size rest

/-- The instructions of statements, in preorder, of which the first stands at `index`.  A
definition at `index` is followed by its body, whose last instruction stands at
`index + size body`; that is the definition itself if the body is empty. -/
def flatten (index : Nat) : List Statement → Program
  | [] => []
  | .print s :: rest => .print s :: flatten (index + 1) rest
  | .run name :: rest => .run name :: flatten (index + 1) rest
  | .define name body :: rest =>
    .define name (index + size body : Nat) ::
      (flatten (index + 1) body ++ flatten (index + 1 + size body) rest)

/-- Every statement is one instruction. -/
@[simp]
theorem length_flatten (index : Nat) (t : List Statement) :
    (flatten index t).length = size t := by
  fun_induction flatten index t with
  | case1 => simp [size]
  | case2 index s rest ih | case3 index name rest ih =>
    simp only [List.length_cons, ih, size]
    omega
  | case4 index name body rest ihb ihr =>
    simp only [List.length_cons, List.length_append, ihb, ihr, size]
    omega

/-- Statements can be told from their instructions: a definition says where its body ends. -/
theorem flatten_inj {index : Nat} {t u : List Statement}
    (h : flatten index t = flatten index u) : t = u := by
  fun_induction flatten index t generalizing u with
  | case1 index =>
    fun_cases flatten index u with
    | case1 => rfl
    | case2 | case3 | case4 => simp [flatten] at h
  | case2 index s rest ih =>
    fun_cases flatten index u with
    | case1 | case3 | case4 =>
      simp [flatten, Instruction.print, Instruction.run, Instruction.define, Op.print, Op.run,
        Op.define] at h
    | case2 s' rest' =>
      simp only [flatten, Instruction.print, List.cons.injEq, Instruction.mk.injEq, true_and,
        and_true] at h
      rw [h.1, ih h.2]
  | case3 index name rest ih =>
    fun_cases flatten index u with
    | case1 | case2 | case4 =>
      simp [flatten, Instruction.print, Instruction.run, Instruction.define, Op.print, Op.run,
        Op.define] at h
    | case3 name' rest' =>
      simp only [flatten, Instruction.run, List.cons.injEq, Instruction.mk.injEq, true_and,
        and_true] at h
      rw [h.1, ih h.2]
  | case4 index name body rest ihb ihr =>
    fun_cases flatten index u with
    | case1 | case2 | case3 =>
      simp [flatten, Instruction.print, Instruction.run, Instruction.define, Op.print, Op.run,
        Op.define] at h
    | case4 name' body' rest' =>
      simp only [flatten, Instruction.define, List.cons.injEq, Instruction.mk.injEq, true_and] at h
      obtain ⟨⟨hname, hlast⟩, hcode⟩ := h
      have hsize : size body = size body' := by omega
      have hlen : (flatten (index + 1) body).length = (flatten (index + 1) body').length := by
        rw [length_flatten, length_flatten, hsize]
      obtain ⟨hbody, hrest⟩ := List.append_inj hcode hlen
      rw [← hsize] at hrest
      rw [hname, ihb hbody, ihr hrest]

end Statement

namespace Program

open Statement (flatten size flatten_inj length_flatten)

/-! ## Reading what the grammar spells -/

section Tokens

variable {opened : List Opening} {code : Array Instruction} {t n : Token} {rest : List Token}

theorem emitFrom_symbol {s : Symbol} (ht : t.kind = .symbol s) (hs : s.known = true) :
    emitFrom opened code (t :: rest) = emitFrom opened (code.push (.print s)) rest := by
  rw [emitFrom.eq_def]
  simp only [ht, Kind.role_symbol hs]

theorem emitFrom_runner (ht : t.kind = .runner) (hn : n.names = true) :
    emitFrom opened code (t :: n :: rest) = emitFrom opened (code.push (.run n.text)) rest := by
  rw [emitFrom.eq_def]
  simp only [ht]
  exact if_pos hn

theorem emitFrom_opener (ht : t.kind = .opener) (hn : n.names = true) :
    emitFrom opened code (t :: n :: rest) =
      emitFrom (⟨t, n.text, code.size⟩ :: opened) (code.push (.define n.text unknownEnd))
        rest := by
  rw [emitFrom.eq_def]
  simp only [ht]
  exact if_pos hn

theorem emitFrom_closer {o : Opening} (ht : t.kind = .closer) :
    emitFrom (o :: opened) code (t :: rest) = emitFrom opened (patch code o.index) rest := by
  rw [emitFrom.eq_def]
  simp only [ht]
  rfl

end Tokens

theorem size_push_append (code : Array Instruction) (i : Instruction) (body : Program) :
    (code.push i ++ body).size = code.size + 1 + body.length := by
  rw [← Array.length_toList, Array.toList_appendList, List.length_append, Array.length_toList,
    Array.size_push]

/-- Closing a function fills in the end of its definition, and changes nothing else. -/
theorem patch_define (code : Array Instruction) (name : Text) (body : Program) :
    patch (code.push (.define name unknownEnd) ++ body) code.size =
      code.push (.define name (code.size + body.length : Nat)) ++ body := by
  have hlast :
      ((code.size + 1 + body.length : Nat) : Int) - 1 = (code.size + body.length : Nat) := by
    omega
  apply Array.ext'
  rw [patch, Array.toList_modify, size_push_append, hlast,
    List.modify_eq_take_cons_drop (by rw [Array.length_toList, size_push_append]; omega)]
  simp [Instruction.define, List.drop_append]

/-- The tokens of statements add their instructions, whatever is open and whatever follows. -/
theorem emitFrom_append {tokens : List Token} {t : List Statement} (h : Spells tokens t)
    (opened : List Opening) (code : Array Instruction) (rest : List Token) :
    emitFrom opened code (tokens ++ rest) =
      emitFrom opened (code ++ flatten code.size t) rest := by
  induction h generalizing opened code rest with
  | nil => simp [flatten]
  | print ht hs _ ih =>
    rw [List.cons_append, emitFrom_symbol ht hs, ih]
    simp [flatten]
  | run ht hn _ ih =>
    rw [List.cons_append, List.cons_append, emitFrom_runner ht ((Token.names_iff _).2 hn), ih]
    simp [flatten]
  | @define t n e inner tail body after ht hn _ he _ ihb ih =>
    rw [List.cons_append, List.cons_append, emitFrom_opener ht ((Token.names_iff _).2 hn),
      List.append_assoc, ihb, List.cons_append, emitFrom_closer he]
    simp only [Array.size_push]
    rw [patch_define, ih]
    rw [size_push_append, length_flatten]
    congr 1
    apply Array.ext'
    simp [flatten]

/-! ## Reading only what the grammar spells -/

/-- The tokens that may follow inside open functions: statements and an `END` for each of them, and
statements at the end. -/
inductive Closes : List Opening → List Token → Prop
  | outermost {tokens : List Token} {t : List Statement} (h : Spells tokens t) : Closes [] tokens
  | inner {o : Opening} {opened : List Opening} {e : Token} {tokens rest : List Token}
      {t : List Statement} (h : Spells tokens t) (he : e.kind = .closer)
      (hrest : Closes opened rest) : Closes (o :: opened) (tokens ++ e :: rest)

/-- What can be put in front of all statements can be put in front of what follows. -/
theorem Closes.prepend {opened : List Opening} {tokens : List Token} (first : List Token)
    (hfirst : ∀ {ts : List Token} {t : List Statement}, Spells ts t → ∃ u, Spells (first ++ ts) u)
    (h : Closes opened tokens) : Closes opened (first ++ tokens) := by
  cases h with
  | outermost h =>
    obtain ⟨u, hu⟩ := hfirst h
    exact .outermost hu
  | inner h he hrest =>
    obtain ⟨u, hu⟩ := hfirst h
    rw [← List.append_assoc]
    exact .inner hu he hrest

/-- A reading that succeeds has closed every function that was open. -/
theorem closes_of_emitFrom {opened : List Opening} {code : Array Instruction} {tokens : List Token}
    {p : Program} (h : emitFrom opened code tokens = .ok p) : Closes opened tokens := by
  fun_induction emitFrom opened code tokens with
  | case1 => exact .outermost .nil
  | case2 | case4 | case6 | case7 | case9 | case10 | case12 | case13 => cases h
  | case3 opened code t rest s hr ih =>
    obtain ⟨hs, ht⟩ := Kind.eq_symbol_of_role hr
    exact (ih h).prepend [t] fun hu => ⟨_, .print ht hs hu⟩
  | case5 opened code t hr n rest hn ih =>
    have ht := (Option.some.inj (Kind.ofRole?_eq_some hr (by simp))).symm
    exact (ih h).prepend [t, n] fun hu => ⟨_, .run ht ((Token.names_iff n).1 hn) hu⟩
  | case8 opened code t hr n rest hn ih =>
    have ht := (Option.some.inj (Kind.ofRole?_eq_some hr (by simp))).symm
    -- The function opened here is closed first; what is left closes those opened before.
    cases ih h with
    | @inner _ _ e inner rest body hb he hrest =>
      have hfirst : ∀ {ts : List Token} {u : List Statement}, Spells ts u →
          ∃ u, Spells ((t :: n :: inner ++ [e]) ++ ts) u := by
        intro ts u hu
        refine ⟨.define n.text body :: u, ?_⟩
        rw [List.append_assoc]
        exact .define ht ((Token.names_iff n).1 hn) hb he hu
      simpa using hrest.prepend (t :: n :: inner ++ [e]) hfirst
  | case11 code t rest hr o opened ih =>
    have ht := (Option.some.inj (Kind.ofRole?_eq_some hr (by simp))).symm
    exact .inner .nil ht (ih h)

/-- Tokens spell a program if and only if the grammar derives statements from them, and then the
program is these statements laid out. -/
theorem ofTokens_eq_ok_iff {tokens : List Token} {p : Program} :
    ofTokens tokens = .ok p ↔ ∃ t, Spells tokens t ∧ p = flatten 0 t := by
  have hemit : ∀ {t : List Statement}, Spells tokens t → ofTokens tokens = .ok (flatten 0 t) := by
    intro t ht
    have h := emitFrom_append ht [] #[] []
    simpa [ofTokens, emitFrom] using h
  constructor
  · intro h
    cases closes_of_emitFrom h with
    | @outermost _ t ht =>
      rw [hemit ht] at h
      exact ⟨t, ht, (Except.ok.inj h).symm⟩
  · rintro ⟨t, ht, rfl⟩
    exact hemit ht

end Program

/-- The grammar is unambiguous. -/
theorem Spells.unique {tokens : List Token} {t u : List Statement} (ht : Spells tokens t)
    (hu : Spells tokens u) : t = u := by
  have h := Program.ofTokens_eq_ok_iff.2 ⟨t, ht, rfl⟩
  rw [Program.ofTokens_eq_ok_iff.2 ⟨u, hu, rfl⟩] at h
  exact Statement.flatten_inj (Except.ok.inj h).symm

namespace Program

open Statement (flatten)

/-- Exactly the token lists of the grammar spell programs.  There is one way to derive such a list,
and its program is the derived statements laid out in preorder. -/
theorem ofTokens_flattens_derivation (tokens : List Token) :
    ((∃ p, ofTokens tokens = .ok p) ↔ ∃ t, Spells tokens t) ∧
      ∀ p, ofTokens tokens = .ok p →
        ∃ t, Spells tokens t ∧ (∀ u, Spells tokens u → u = t) ∧ p = flatten 0 t := by
  refine ⟨⟨?_, ?_⟩, ?_⟩
  · rintro ⟨p, hp⟩
    obtain ⟨t, ht, _⟩ := ofTokens_eq_ok_iff.1 hp
    exact ⟨t, ht⟩
  · rintro ⟨t, ht⟩
    exact ⟨flatten 0 t, ofTokens_eq_ok_iff.2 ⟨t, ht, rfl⟩⟩
  · intro p hp
    obtain ⟨t, ht, rfl⟩ := ofTokens_eq_ok_iff.1 hp
    exact ⟨t, ht, fun u hu => hu.unique ht, rfl⟩

/-- `FUN f A FUN g END END RUN f`: a body that ends in a function with an empty body. -/
def nestedTokens : List Token :=
  [⟨.opener, [70, 85, 78], .zero⟩, ⟨.identifier, [102], .zero⟩, ⟨.symbol ⟨0⟩, [65], .zero⟩,
    ⟨.opener, [70, 85, 78], .zero⟩, ⟨.identifier, [103], .zero⟩, ⟨.closer, [69, 78, 68], .zero⟩,
    ⟨.closer, [69, 78, 68], .zero⟩, ⟨.runner, [82, 85, 78], .zero⟩, ⟨.identifier, [102], .zero⟩]

theorem ofTokens_flattens_derivation_nested :
    let p : Program := [.define [102] 2, .print ⟨0⟩, .define [103] 2, .run [102]]
    ofTokens nestedTokens = .ok p ∧
      ∃ t, Spells nestedTokens t ∧ (∀ u, Spells nestedTokens u → u = t) ∧ p = flatten 0 t :=
  ⟨rfl, (ofTokens_flattens_derivation nestedTokens).2 _ rfl⟩

end Program
end Birdcall
