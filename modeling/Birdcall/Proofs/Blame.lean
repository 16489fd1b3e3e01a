import Birdcall.Proofs.Grammar

/-!
# Which token is to blame

Tokens that spell no program are blamed on the first token with which no program could be completed
any more.  Tokens that merely stop too early are blamed on the word that still waits for its name,
or else on the innermost function still open.

* `Leaves` says which functions are open behind tokens, and `Stops` what can stop the reading there.
  A reading that fails has come to such a place (`stopped_of_emitFrom`), and what has been read up
  to there does not matter for what follows but for the functions left open
  (`Leaves.ofTokens_append`).
* `Viable` tokens can be completed.  That is so wherever functions are merely left open
  (`Leaves.viable`), and behind a word that waits for its name (`Leaves.viable_waiting`).
* `error_names_first_impossible` puts both together.
-/

namespace Birdcall

/-- Statements behind statements are statements. -/
theorem Spells.append {first rest : List Token} {t u : List Statement} (h : Spells first t)
    (hrest : Spells rest u) : Spells (first ++ rest) (t ++ u) := by
  induction h with
  | nil => exact hrest
  | print ht hs _ ih => exact .print ht hs ih
  | run ht hn _ ih => exact .run ht hn ih
  | define ht hn hb he _ _ ih =>
    rw [List.cons_append, List.cons_append, List.append_assoc, List.cons_append]
    exact .define ht hn hb he ih

/-- The words behind which a name is due: `FUN` and `RUN`. -/
def Token.AwaitsName (t : Token) : Prop := t.kind = .opener ∨ t.kind = .runner

namespace Program

/-! ## Where a reading stops -/

/-- The functions that are open behind tokens, innermost first, each by its `FUN` and its name.
Behind the name of the innermost one there are whole statements only. -/
inductive Leaves : List Token → List (Token × Text) → Prop
  | outermost {tokens : List Token} {t : List Statement} (h : Spells tokens t) : Leaves tokens []
  | inner {before inside : List Token} {opened : List (Token × Text)} {f n : Token}
      {body : List Statement} (h : Leaves before opened) (hf : f.kind = .opener)
      (hn : n.kind = .identifier ∧ n.text ≠ []) (hbody : Spells inside body) :
      Leaves (before ++ f :: n :: inside) ((f, n.text) :: opened)

/-- What comes next inside open functions if the reading stops there, and the error that it stops
with. -/
inductive Stops : List (Token × Text) → List Token → SyntaxError → Prop
  /-- No statement begins with an identifier, or with a token of no known kind. -/
  | unknownToken {opened : List (Token × Text)} {t : Token} (rest : List Token)
      (ht : t.kind.role = .identifier ∨ t.kind.role = .unknown) :
      Stops opened (t :: rest) (.unknownToken t)
  /-- There is no function to be closed. -/
  | strayEnd {t : Token} (rest : List Token) (ht : t.kind = .closer) :
      Stops [] (t :: rest) (.strayEnd t)
  | invalidName {opened : List (Token × Text)} {t n : Token} (rest : List Token)
      (ht : t.AwaitsName) (hn : n.names = false) : Stops opened (t :: n :: rest) (.invalidName n t)
  | missingName {opened : List (Token × Text)} {t : Token} (ht : t.AwaitsName) :
      Stops opened [t] (.missingName t)
  | unterminated {f : Token} {name : Text} {opened : List (Token × Text)} :
      Stops ((f, name) :: opened) [] (.unterminated name f)

/-- How an open function is known. -/
def Opening.key (o : Opening) : Token × Text := (o.opener, o.name)

namespace Leaves

variable {before : List Token} {opened : List (Token × Text)}

theorem statements (h : Leaves before opened) {tokens : List Token} {t : List Statement}
    (ht : Spells tokens t) : Leaves (before ++ tokens) opened := by
  cases h with
  | outermost h => exact .outermost (h.append ht)
  | inner h hf hn hbody =>
    rw [List.append_assoc, List.cons_append, List.cons_append]
    exact .inner h hf hn (hbody.append ht)

/-- A definition that is closed is a statement of the function around it. -/
theorem close {o : Token × Text} {e : Token} (h : Leaves before (o :: opened))
    (he : e.kind = .closer) : Leaves (before ++ [e]) opened := by
  cases h with
  | inner h hf hn hbody =>
    rw [List.append_assoc, List.cons_append, List.cons_append]
    exact h.statements (.define hf hn hbody he .nil)

/-- Only the open functions matter for what follows. -/
theorem ofTokens_append {tokens : List Token} (h : Leaves tokens opened) :
    ∃ os code, os.map Opening.key = opened ∧
      ∀ rest, ofTokens (tokens ++ rest) = emitFrom os code rest := by
  induction h with
  | outermost h => exact ⟨[], _, rfl, emitFrom_append h [] #[]⟩
  | @inner before inside opened f n body _ hf hn hbody ih =>
    obtain ⟨os, code, rfl, hread⟩ := ih
    have hopen : ∀ rest, ofTokens (before ++ f :: n :: inside ++ rest) =
        emitFrom (⟨f, n.text, code.size⟩ :: os) (code.push (.define n.text unknownEnd))
          (inside ++ rest) := by
      intro rest
      rw [List.append_assoc, hread, List.cons_append, List.cons_append,
        emitFrom_opener hf ((Token.names_iff n).2 hn)]
    exact ⟨_, _, rfl, fun rest => (hopen rest).trans (emitFrom_append hbody _ _ rest)⟩

end Leaves

/-- A place in the tokens where the reading stops. -/
def Stopped (tokens : List Token) (e : SyntaxError) : Prop :=
  ∃ read opened rest, tokens = read ++ rest ∧ Leaves read opened ∧ Stops opened rest e

/-- A reading that fails has come to a place where it stops. -/
theorem stopped_of_emitFrom {os : List Opening} {code : Array Instruction} {tokens : List Token}
    {e : SyntaxError} (h : emitFrom os code tokens = .error e) (before : List Token)
    (hbefore : Leaves before (os.map Opening.key)) : Stopped (before ++ tokens) e := by
  have hkind : ∀ {t : Token} {r : Role} {k : Kind}, t.kind.role = r → r ≠ .unknown →
      Kind.ofRole? r = some k → t.kind = k := by
    intro t r k hr hne hk
    exact Option.some.inj ((Kind.ofRole?_eq_some hr hne).symm.trans hk)
  -- What is read goes to the tokens before, and changes what they leave as it changes what is open.
  fun_induction emitFrom os code tokens generalizing before with
  | case1 => cases h
  | case2 code o os =>
    cases h
    exact ⟨_, _, _, rfl, hbefore, .unterminated⟩
  | case3 os code t rest s hr ih =>
    obtain ⟨hs, ht⟩ := Kind.eq_symbol_of_role hr
    simpa using ih h _ (hbefore.statements (.print ht hs .nil))
  | case4 os code t hr =>
    cases h
    exact ⟨_, _, _, rfl, hbefore, .missingName (.inr (hkind hr (by simp) rfl))⟩
  | case5 os code t hr n rest hn ih =>
    have ht := hkind hr (by simp) rfl
    simpa using ih h _ (hbefore.statements (.run ht ((Token.names_iff n).1 hn) .nil))
  | case6 os code t hr n rest hn =>
    cases h
    have ht := hkind hr (by simp) rfl
    exact ⟨_, _, _, rfl, hbefore, .invalidName rest (.inr ht) (by simpa using hn)⟩
  | case7 os code t hr =>
    cases h
    exact ⟨_, _, _, rfl, hbefore, .missingName (.inl (hkind hr (by simp) rfl))⟩
  | case8 os code t hr n rest hn ih =>
    have ht := hkind hr (by simp) rfl
    simpa using ih h _ (.inner hbefore ht ((Token.names_iff n).1 hn) .nil)
  | case9 os code t hr n rest hn =>
    cases h
    have ht := hkind hr (by simp) rfl
    exact ⟨_, _, _, rfl, hbefore, .invalidName rest (.inl ht) (by simpa using hn)⟩
  | case10 code t rest hr =>
    cases h
    exact ⟨_, _, _, rfl, hbefore, .strayEnd rest (hkind hr (by simp) rfl)⟩
  | case11 code t rest hr o os ih =>
    simpa using ih h _ (hbefore.close (hkind hr (by simp) rfl))
  | case12 os code t rest hr =>
    cases h
    exact ⟨_, _, _, rfl, hbefore, .unknownToken rest (.inl hr)⟩
  | case13 os code t rest hr =>
    cases h
    exact ⟨_, _, _, rfl, hbefore, .unknownToken rest (.inr hr)⟩

/-- A place where the reading stops is where it fails. -/
theorem Stops.emitFrom_eq {os : List Opening} {rest : List Token} {e : SyntaxError}
    (h : Stops (os.map Opening.key) rest e) (code : Array Instruction) :
    emitFrom os code rest = .error e := by
  generalize hopened : os.map Opening.key = opened at h
  cases h with
  | @unknownToken _ t rest ht => rcases ht with ht | ht <;> simp only [emitFrom.eq_def, ht]
  | @strayEnd t rest ht =>
    obtain rfl := List.map_eq_nil_iff.1 hopened
    rw [emitFrom.eq_def]
    simp only [ht]
    rfl
  | @invalidName _ t n rest ht hn =>
    rcases ht with ht | ht <;> rw [emitFrom.eq_def] <;> simp only [ht, Kind.role, hn] <;> rfl
  | @missingName _ t ht =>
    rcases ht with ht | ht <;> rw [emitFrom.eq_def] <;> simp only [ht] <;> rfl
  | @unterminated f name opened =>
    obtain ⟨o, os, rfl, ho, rfl⟩ := List.map_eq_cons_iff.1 hopened
    obtain ⟨rfl, rfl⟩ := Prod.mk.inj ho
    rw [emitFrom]

theorem Leaves.ofTokens_eq_error {read rest : List Token} {opened : List (Token × Text)}
    {e : SyntaxError} (h : Leaves read opened) (hstops : Stops opened rest e) :
    ofTokens (read ++ rest) = .error e := by
  obtain ⟨os, code, rfl, hread⟩ := h.ofTokens_append
  rw [hread, hstops.emitFrom_eq]

/-! ## What can be completed -/

/-- Tokens that are the beginning of a program. -/
def Viable (tokens : List Token) : Prop := ∃ rest p, ofTokens (tokens ++ rest) = .ok p

theorem Viable.of_isPrefix {tokens more : List Token} (hinit : tokens <+: more)
    (h : Viable more) : Viable tokens := by
  obtain ⟨rest, rfl⟩ := hinit
  obtain ⟨last, p, hp⟩ := h
  exact ⟨rest ++ last, p, by rw [← List.append_assoc, hp]⟩

/-- An `END` for each open function completes a program. -/
theorem exists_emitFrom_eq_ok (os : List Opening) (code : Array Instruction) :
    ∃ rest p, emitFrom os code rest = .ok p := by
  induction os generalizing code with
  | nil => exact ⟨[], code.toList, rfl⟩
  | cons o os ih =>
    obtain ⟨rest, p, hp⟩ := ih (patch code o.index)
    exact ⟨⟨.closer, [], .zero⟩ :: rest, p, by rw [emitFrom_closer rfl, hp]⟩

namespace Leaves

variable {tokens : List Token} {opened : List (Token × Text)}

theorem viable (h : Leaves tokens opened) : Viable tokens := by
  obtain ⟨os, code, -, hread⟩ := h.ofTokens_append
  obtain ⟨rest, p, hp⟩ := exists_emitFrom_eq_ok os code
  exact ⟨rest, p, by rw [hread, hp]⟩

/-- A word that waits for its name can be given one. -/
theorem viable_waiting (h : Leaves tokens opened) {t : Token} (ht : t.AwaitsName) :
    Viable (tokens ++ [t]) := by
  let n : Token := ⟨.identifier, [0], .zero⟩
  have hn : n.kind = .identifier ∧ n.text ≠ [] := ⟨rfl, by simp [n]⟩
  have hnamed : ∃ opened, Leaves (tokens ++ [t, n]) opened := by
    rcases ht with ht | ht
    · exact ⟨_, .inner h ht hn .nil⟩
    · exact ⟨_, h.statements (.run ht hn .nil)⟩
  obtain ⟨opened, hnamed⟩ := hnamed
  refine hnamed.viable.of_isPrefix ⟨[n], ?_⟩
  rw [List.append_assoc]
  rfl

end Leaves

/-- The token at which the tokens stop being the beginning of a program, so that the error stays the
same whatever comes behind it. -/
def Blames (tokens : List Token) (e : SyntaxError) (t : Token) : Prop :=
  ∃ i, tokens[i]? = some t ∧ Viable (tokens.take i) ∧ ¬Viable (tokens.take (i + 1)) ∧
    (∀ j, Viable (tokens.take j) → ¬Viable (tokens.take (j + 1)) → j = i) ∧
    ∀ rest, ofTokens (tokens.take (i + 1) ++ rest) = .error e

theorem blames_of_viable {before : List Token} {t : Token} {e : SyntaxError}
    (hviable : Viable before) (herror : ∀ rest, ofTokens (before ++ t :: rest) = .error e)
    (rest : List Token) : Blames (before ++ t :: rest) e t := by
  have htake : (before ++ t :: rest).take (before.length + 1) = before ++ [t] := by
    rw [List.take_length_add_append]
    rfl
  have hstays : ∀ more,
      ofTokens ((before ++ t :: rest).take (before.length + 1) ++ more) = .error e := by
    intro more
    rw [htake, List.append_assoc, List.singleton_append, herror]
  have hcan : Viable ((before ++ t :: rest).take before.length) := by rwa [List.take_left]
  have hcannot : ¬Viable ((before ++ t :: rest).take (before.length + 1)) := by
    rintro ⟨more, p, hp⟩
    rw [hstays] at hp
    cases hp
  refine ⟨before.length, by simp, hcan, hcannot, ?_, hstays⟩
  -- Up to the token everything can be completed, and nothing that contains it.
  intro j hj hj'
  rcases Nat.lt_trichotomy j before.length with hlt | heq | hgt
  · exact absurd (hcan.of_isPrefix (List.take_prefix_take_left hlt)) hj'
  · exact heq
  · exact absurd (hj.of_isPrefix (List.take_prefix_take_left hgt)) hcannot

/-! ## Errors -/

/-- A word at the end of the tokens that waits for its name. -/
def Waiting (tokens : List Token) (t : Token) : Prop :=
  t.AwaitsName ∧ ∃ before opened, tokens = before ++ [t] ∧ Leaves before opened

/-- What an error says about the tokens. -/
def Tells (tokens : List Token) (e : SyntaxError) : Prop :=
  match e with
  | .unknownToken t => Blames tokens e t
  | .strayEnd t => Blames tokens e t
  | .invalidName n after => Blames tokens e n ∧ after.AwaitsName ∧ [after, n] <:+: tokens
  | .missingName after => Viable tokens ∧ Waiting tokens after
  | .unterminated name opener =>
    Viable tokens ∧ (∀ t, ¬Waiting tokens t) ∧ (∃ opened, Leaves tokens opened) ∧
      ∀ opened, Leaves tokens opened → opened.head? = some (opener, name)
  | .noStatement => False

theorem Waiting.ofTokens_eq_error {tokens : List Token} {t : Token} (h : Waiting tokens t) :
    ofTokens tokens = .error (.missingName t) := by
  obtain ⟨ht, before, opened, rfl, hbefore⟩ := h
  exact hbefore.ofTokens_eq_error (.missingName ht)

/-- Every error names the first token that no program has there, which makes it the same whatever
comes behind that token.  Where there is no such token, the tokens could be completed: then the
error names the last token if that is `FUN` or `RUN` and waits for its name, and otherwise the
innermost function that is still open. -/
theorem error_names_first_impossible {tokens : List Token} {e : SyntaxError}
    (h : ofTokens tokens = .error e) : Tells tokens e := by
  obtain ⟨read, opened, rest, rfl, hread, hstops⟩ :=
    stopped_of_emitFrom h [] (.outermost .nil)
  cases hstops with
  | unknownToken rest ht =>
    have herror := fun more => hread.ofTokens_eq_error (.unknownToken more ht)
    exact blames_of_viable hread.viable herror rest
  | strayEnd rest ht =>
    have herror := fun more => hread.ofTokens_eq_error (.strayEnd more ht)
    exact blames_of_viable hread.viable herror rest
  | @invalidName _ t n rest ht hn =>
    -- The name is to blame, and the word before it belongs to what can be completed.
    have hsplit : ∀ more, read ++ t :: n :: more = read ++ [t] ++ n :: more :=
      fun more => List.append_cons read t (n :: more)
    have herror : ∀ more, ofTokens (read ++ [t] ++ n :: more) = .error (.invalidName n t) := by
      intro more
      rw [← hsplit]
      exact hread.ofTokens_eq_error (.invalidName more ht hn)
    have hblames := blames_of_viable (hread.viable_waiting ht) herror rest
    rw [← hsplit] at hblames
    exact ⟨hblames, ht, read, rest, by simp⟩
  | missingName ht => exact ⟨hread.viable_waiting ht, ht, read, _, rfl, hread⟩
  | @unterminated f name opened =>
    rw [List.append_nil] at h ⊢
    refine ⟨hread.viable, fun t hwaiting => ?_, ⟨_, hread⟩, fun others hothers => ?_⟩
    · rw [hwaiting.ofTokens_eq_error] at h
      cases h
    · obtain ⟨os, code, rfl, hall⟩ := hothers.ofTokens_append
      rw [← List.append_nil read, hall] at h
      cases os with
      | nil => cases h
      | cons o os =>
        cases h
        rfl

/-- `FUN f A FUN g`, behind which both functions are open. -/
def openTokens : List Token :=
  [⟨.opener, [70, 85, 78], .zero⟩, ⟨.identifier, [102], .zero⟩, ⟨.symbol ⟨0⟩, [65], .zero⟩,
    ⟨.opener, [102, 117, 110], .zero⟩, ⟨.identifier, [103], .zero⟩]

/-- Behind two open functions `RUN END` has an `END` where a name is due, which is to blame whatever
follows.  Without these two tokens the inner function is. -/
theorem error_names_first_impossible_open :
    let run : Token := ⟨.runner, [114, 117, 110], .zero⟩
    let close : Token := ⟨.closer, [101, 110, 100], .zero⟩
    let inner : Token := ⟨.opener, [102, 117, 110], .zero⟩
    (ofTokens (openTokens ++ [run, close, close]) = .error (.invalidName close run) ∧
        Blames (openTokens ++ [run, close, close]) (.invalidName close run) close) ∧
      ofTokens (openTokens ++ [run]) = .error (.missingName run) ∧
      Waiting (openTokens ++ [run]) run ∧
      ofTokens openTokens = .error (.unterminated [103] inner) ∧
      ∀ opened, Leaves openTokens opened → opened.head? = some (inner, [103]) := by
  intro run close inner
  have hinvalid : ofTokens (openTokens ++ [run, close, close]) =
      .error (.invalidName close run) := rfl
  have hmissing : ofTokens (openTokens ++ [run]) = .error (.missingName run) := rfl
  have hopen : ofTokens openTokens = .error (.unterminated [103] inner) := rfl
  exact ⟨⟨hinvalid, (error_names_first_impossible hinvalid).1⟩, hmissing,
    (error_names_first_impossible hmissing).2, hopen, (error_names_first_impossible hopen).2.2.2⟩

end Program
end Birdcall
