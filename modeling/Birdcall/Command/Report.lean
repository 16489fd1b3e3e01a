import Birdcall.Command.Run

/-!
# Reports

What a run leaves on the standard output and on the standard error.  The output is what the
programs printed.  A log line has the level, the message and the fields of an entry, with tabs
between them.
-/

namespace Birdcall

namespace Level

/-- The name of a level. -/
def name : Level → Text
  | debug => Text.ofString "DEBUG"
  | info => Text.ofString "INFO"
  | error => Text.ofString "ERROR"

end Level

namespace Report

/-- A field that holds a text. -/
def textField (name : String) (value : Text) : Text :=
  (Text.ofString name).quote ++ Text.ofString ": " ++ value.quote

/-- A field that holds a number. -/
def numberField (name : String) (value : Nat) : Text :=
  (Text.ofString name).quote ++ Text.ofString ": " ++ Text.ofNat value

/-- A log line. -/
def line (level : Level) (message : Text) (fields : List Text) : Text :=
  level.name ++ Text.ofString "\t" ++ message ++ Text.ofString "\t\x7b" ++
    Text.joinWith (Text.ofString ", ") fields ++ Text.ofString "\x7d\n"

/-- The log line of an event. -/
def logLine : Event → Text
  | .logged channel level message => line level message [textField "file" channel]
  | .reported stats =>
    line .info (Text.ofString "cache stats")
      [numberField "threshold" stats.threshold, numberField "entries" stats.entries,
        numberField "interpreted" stats.interpreted, numberField "compiled" stats.compiled,
        numberField "promotions" stats.promotions]
  | _ => []

end Report

namespace Outcome

/-- By what the record of events knows the standard output. -/
def outputLabel : String := "stdout"

/-- What stands on the standard output. -/
def outputText (o : Outcome) : Text :=
  o.events.toList.flatMap fun
    | .wrote label t => if label = outputLabel then t else []
    | _ => []

/-- What stands on the standard error. -/
def errorText (o : Outcome) : Text :=
  o.notice ++ o.events.toList.flatMap Report.logLine ++
    match o.failure with
    | some e => Report.line .error (Text.ofString "run failed") [Report.textField "error" e.message]
    | none => []

/-- The files that were written. -/
def stored (o : Outcome) : List (Text × Text) :=
  o.events.toList.filterMap fun
    | .stored name content => some (name, content)
    | _ => none

end Outcome
end Birdcall
