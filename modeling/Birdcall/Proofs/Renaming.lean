import Birdcall.Proofs.Delivery
import Birdcall.Proofs.Loading

/-!
# Sources under other names

What a source is called shows in the places of its tokens, and so in the syntax errors that blame
them, and nowhere else.  `under` is the same place, token or error in a source of another name.

The lemmas follow a text on its way to a program: its characters (`Location.located_under`), its
tokens (`Token.ofChars_under`) and what these spell (`Program.ofTokens_under`).
`Source.program_named` puts them together: loading a text under a name finds what listing the text
finds.
-/

namespace Birdcall

/-- The same line and column of a source of another name. -/
def Location.under (name : Text) (l : Location) : Location := { l with name := name }

/-- The same token of a source of another name. -/
def Token.under (name : Text) (t : Token) : Token := { t with loc := t.loc.under name }

/-- The same error in a source of another name: it is of the same type, and what it blames stands in
the same lines and columns. -/
def SyntaxError.under (name : Text) : SyntaxError → SyntaxError
  | unknownToken t => unknownToken (t.under name)
  | missingName t => missingName (t.under name)
  | invalidName n t => invalidName (n.under name) (t.under name)
  | unterminated f t => unterminated f (t.under name)
  | strayEnd t => strayEnd (t.under name)
  | noStatement => noStatement

@[simp]
theorem Token.kind_under (name : Text) (t : Token) : (t.under name).kind = t.kind := rfl

@[simp]
theorem Token.names_under (name : Text) (t : Token) : (t.under name).names = t.names := rfl

/-! ## Tokens -/

theorem Location.located_under (name name' : Text) (cs : List Char) :
    located name cs = (located name' cs).map fun q => (q.1, q.2.under name) := by
  rw [located, located, List.map_map]
  rfl

namespace Token

theorem classify_under (name w : Text) (loc : Location) :
    classify w (loc.under name) = (classify w loc).under name := by
  simp only [classify]
  split <;> rfl

/-- A token stands where the first character of its word does. -/
theorem ofWord_under (name : Text) {w : List (Char × Location)} (hw : w ≠ []) :
    ofWord (w.map fun q => (q.1, q.2.under name)) = (ofWord w).under name := by
  obtain ⟨q, rest, rfl⟩ := List.exists_cons_of_ne_nil hw
  rw [ofWord, ofWord, List.map_map, ← classify_under]
  rfl

/-- The tokens of characters that were moved to a source of another name. -/
theorem ofChars_under (name : Text) (chars : List (Char × Location)) :
    ofChars (chars.map fun q => (q.1, q.2.under name)) = (ofChars chars).map (·.under name) := by
  have hparted := parted_words chars
  let f : Char × Location → Char × Location := fun q => (q.1, q.2.under name)
  have hmoved : Parted (fun q => Text.isBlank q.1) (chars.map f) ((words chars).map (·.map f)) :=
    hparted.map (f := f) fun _ => rfl
  rw [ofChars, hmoved.unique (parted_words (chars.map f)), ofChars, List.map_map, List.map_map]
  exact List.map_congr_left fun w hw => ofWord_under name (hparted.of_mem hw).1

end Token

/-! ## Programs -/

namespace Program

/-- The same function of a source of another name. -/
def Opening.under (name : Text) (o : Opening) : Opening := { o with opener := o.opener.under name }

/-- Tokens are read in the same way wherever they stand. -/
theorem emitFrom_under (name : Text) (opened : List Opening) (code : Array Instruction)
    (tokens : List Token) :
    emitFrom (opened.map (·.under name)) code (tokens.map (·.under name)) =
      (emitFrom opened code tokens).mapError (·.under name) := by
  fun_induction emitFrom opened code tokens with
  | case1 => rfl
  | case2 => rfl
  | case3 opened code t rest symbol hrole ih =>
    rw [List.map_cons, emitFrom.eq_def]
    simp only [Token.kind_under, hrole]
    exact ih
  | case4 opened code t hrole | case7 opened code t hrole =>
    rw [List.map_singleton, emitFrom.eq_def]
    simp only [Token.kind_under, hrole]
    rfl
  | case5 opened code t hrole n rest hn ih | case8 opened code t hrole n rest hn ih =>
    rw [List.map_cons, List.map_cons, emitFrom.eq_def]
    simp only [Token.kind_under, hrole, Token.names_under, hn, if_true]
    exact ih
  | case6 opened code t hrole n rest hn | case9 opened code t hrole n rest hn =>
    rw [List.map_cons, List.map_cons, emitFrom.eq_def]
    simp only [Token.kind_under, hrole, Token.names_under, hn]
    rfl
  | case11 code t rest hrole o opened ih =>
    rw [List.map_cons, List.map_cons, emitFrom.eq_def]
    simp only [Token.kind_under, hrole]
    exact ih
  | case10 code t rest hrole | case12 opened code t rest hrole | case13 opened code t rest hrole =>
    rw [List.map_cons, emitFrom.eq_def]
    simp only [Token.kind_under, hrole]
    rfl

theorem ofTokens_under (name : Text) (tokens : List Token) :
    ofTokens (tokens.map (·.under name)) = (ofTokens tokens).mapError (·.under name) :=
  emitFrom_under name [] #[] tokens

end Program

/-- A text that is loaded under a name holds the program that is listed, and if it holds none, then
for the reason that is found when it is listed. -/
theorem Source.program_named (content name : Text) :
    ((Source.ofText content).named name).program =
      match Program.ofTokens (Token.lex content) with
      | .ok p => .ok p
      | .error e => .error (.failed (.spelling (e.under name))) := by
  obtain ⟨_, hload⟩ := World.outcome_load_eq ((Source.ofText content).named name) .empty
  rw [Source.program, hload, Input.scan_ofText, Token.lex_eq,
    Location.located_under name (Text.ofString "input"), Token.ofChars_under]
  simp only [Program.ofTokens_under]
  cases Program.ofTokens (Token.ofChars
    (Location.located (Text.ofString "input") (Text.decode content))) with
  | ok p => rfl
  | error e => rfl

end Birdcall
