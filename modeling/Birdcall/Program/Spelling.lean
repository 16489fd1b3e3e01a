import Birdcall.Program
import Birdcall.Token

/-!
# Spelling programs

The tokens of a program spell its instructions: a symbol prints, `RUN` and a name run a function,
and `FUN` and a name define one by what follows up to its `END`.  `Program.ofTokens` reads the
tokens once, from left to right.  The definition of a function is laid out when it is opened, and
where its body ends is filled in when it is closed.

An error names the first token with which the program could no longer be completed; a program that
merely stops too early is blamed on the word that still waits for its name, or else on the
innermost function still open.
-/

namespace Birdcall

/-- Why tokens spell no program. -/
inductive SyntaxError
  /-- A token that starts no statement. -/
  | unknownToken (token : Token)
  /-- The tokens end where a function name is due. -/
  | missingName (after : Token)
  /-- A token that cannot name a function stands where a function name is due. -/
  | invalidName (name after : Token)
  /-- The tokens end inside a function. -/
  | unterminated (name : Text) (opener : Token)
  /-- A function is closed where none is open. -/
  | strayEnd (token : Token)
  /-- A statement is due and no tokens remain. -/
  | noStatement
  deriving DecidableEq, Repr

/-- A syntax error as messages show it. -/
def SyntaxError.message : SyntaxError → Text
  | unknownToken token =>
    token.loc.text ++ Text.ofString ": unknown token " ++ token.text.quote
  | missingName after =>
    after.loc.text ++ Text.ofString ": missing function name after " ++ after.text
  | invalidName name after =>
    name.loc.text ++ Text.ofString ": invalid function name " ++ name.text.quote ++
      Text.ofString " after " ++ after.text
  | unterminated name opener =>
    opener.loc.text ++ Text.ofString ": function " ++ name ++ Text.ofString " has no END"
  | strayEnd token =>
    token.loc.text ++ Text.ofString ": unexpected " ++ token.text ++
      Text.ofString " outside of a function"
  | noStatement => Text.ofString "unexpected end of input, expected a statement"

/-- Whether a token can name a function. -/
def Token.names (t : Token) : Bool := t.kind.role == .identifier && !t.text.isEmpty

namespace Program

/-- A function that is open while tokens are read. -/
structure Opening where
  opener : Token
  name : Text
  /-- The index of its definition. -/
  index : Nat

/-- The end of a definition before its function is closed. -/
def unknownEnd : Int := -1

/-- The instructions with the definition at `index` ending where they end now. -/
def patch (code : Array Instruction) (index : Nat) : Array Instruction :=
  code.modify index ({ · with last := (code.size : Int) - 1 })

/-- Reads tokens inside the given open functions, innermost first, after the instructions laid out
so far. -/
def emitFrom (opened : List Opening) (code : Array Instruction) :
    List Token → Except SyntaxError Program
  | [] =>
    match opened with
    | [] => .ok code.toList
    | o :: _ => .error (.unterminated o.name o.opener)
  | t :: rest =>
    match t.kind.role with
    | .symbol s => emitFrom opened (code.push (.print s)) rest
    | .runner =>
      match rest with
      | [] => .error (.missingName t)
      | n :: rest =>
        if n.names then emitFrom opened (code.push (.run n.text)) rest
        else .error (.invalidName n t)
    | .opener =>
      match rest with
      | [] => .error (.missingName t)
      | n :: rest =>
        if n.names then
          emitFrom (⟨t, n.text, code.size⟩ :: opened) (code.push (.define n.text unknownEnd)) rest
        else .error (.invalidName n t)
    | .closer =>
      match opened with
      | [] => .error (.strayEnd t)
      | o :: opened => emitFrom opened (patch code o.index) rest
    | .identifier | .unknown => .error (.unknownToken t)

/-- The program that tokens spell. -/
def ofTokens (tokens : List Token) : Except SyntaxError Program := emitFrom [] #[] tokens

end Program
end Birdcall
