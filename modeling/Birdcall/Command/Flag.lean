import Birdcall.Text.Number
import Birdcall.Text.Quoted

/-!
# Flags

What the command line can say, how a help text lists it, and what can be wrong with it.
-/

namespace Birdcall

/-- What a flag takes. -/
inductive FlagShape
  | text
  /-- A number, and the one that holds without the flag, if the help text says so. -/
  | number (stock : Int)
  /-- Nothing, or a truth value behind an equals sign. -/
  | switch
  deriving DecidableEq, Repr

/-- Something the command line can set. -/
inductive Flag
  | config
  | dump
  | metricsFile
  | noTier
  | rounds
  | stats
  | threshold
  | trace
  deriving DecidableEq, Repr

namespace Flag

/-- All flags, in the order of the help text. -/
def all : List Flag := [config, dump, metricsFile, noTier, rounds, stats, threshold, trace]

/-- The name of a flag. -/
def name : Flag → String
  | config => "config"
  | dump => "dump"
  | metricsFile => "metrics-file"
  | noTier => "no-tier"
  | rounds => "repeat"
  | stats => "stats"
  | threshold => "threshold"
  | trace => "trace"

/-- The letter that stands for a flag. -/
def letter? : Flag → Option Char
  | config => some 'c'
  | rounds => some 'n'
  | threshold => some 't'
  | _ => none

/-- What a flag takes. -/
def shape : Flag → FlagShape
  | config | metricsFile => .text
  | rounds => .number 1
  | threshold => .number 10
  | dump | noTier | stats | trace => .switch

/-- What the help text says of a flag. -/
def help : Flag → String
  | config => "YAML config file"
  | dump => "log each program's bytecode listing"
  | metricsFile => "write prometheus metrics to this textfile when done"
  | noTier => "always interpret, never promote"
  | rounds => "execute each program this many times"
  | stats => "log cache statistics when done"
  | threshold => "interpreted executions before promotion"
  | trace => "enable trace logging"

/-- The flag with a given name. -/
def ofName? (t : Text) : Option Flag := all.find? fun f => Text.ofString f.name = t

/-- The flag that a letter stands for. -/
def ofLetter? (b : UInt8) : Option Flag := all.find? fun f => f.letter?.map Text.byte = some b

/-- A flag as messages show it. -/
def title (f : Flag) : Text :=
  (match f.letter? with
    | some c => [Text.byte '-', Text.byte c, Text.byte ',', Text.byte ' ']
    | none => []) ++
    Text.ofString "--" ++ Text.ofString f.name

/-! ## The help text -/

/-- A flag and what it takes, as the help text shows them. -/
def head (f : Flag) : Text :=
  Text.blanks (if f.letter?.isSome then 2 else 6) ++ f.title ++
    match f.shape with
    | .text => Text.ofString " string"
    | .number _ => Text.ofString " int"
    | .switch => []

/-- What holds without a flag, as the help text shows it. -/
def stock (f : Flag) : Text :=
  match f.shape with
  | .number n => Text.ofString " (default " ++ Text.ofInt n ++ Text.ofString ")"
  | _ => []

/-- The line of a flag in the help text, with `width` columns for what it is. -/
def helpLine (width : Nat) (f : Flag) : Text :=
  f.head ++ Text.blanks (width - f.head.length) ++ Text.ofString f.help ++ f.stock ++
    [Text.lineFeed]

/-- The help text. -/
def usage : Text :=
  let width := (all.map (·.head.length)).foldl max 0 + 3
  Text.ofString "Usage: flock [options] [FILE...]\n\n" ++
    Text.ofString
      "Runs each program FILE (or stdin), concurrently, sharing one compilation cache.\n\n" ++
    all.flatMap (helpLine width)

end Flag

/-- What is wrong with a command line. -/
inductive UsageError
  /-- Nothing is wrong, but help was asked for. -/
  | help
  | badFlag (argument : Text)
  | unknownFlag (name : Text)
  /-- A letter stands for no flag, in these letters. -/
  | unknownLetter (letter : UInt8) (letters : Text)
  /-- A flag, given by its name, lacks a value. -/
  | missingValue (argument : Text)
  /-- A flag, given by its letter, lacks a value. -/
  | missingLetterValue (letter : UInt8) (letters : Text)
  | badNumber (flag : Flag) (value : Text) (reason : Text.NumberError)
  | badSwitch (flag : Flag) (value : Text)
  | badRounds (rounds : Int)
  deriving DecidableEq, Repr

namespace UsageError

/-- Why a text is no number, as messages show it. -/
def reasonText : Text.NumberError → Text
  | .malformed => Text.ofString "invalid syntax"
  | .outOfRange => Text.ofString "value out of range"

/-- A value that a flag cannot take, as messages show it. -/
def badValue (flag : Flag) (value : Text) (reader : String) (reason : Text) : Text :=
  Text.ofString "invalid argument " ++ value.quote ++ Text.ofString " for " ++ flag.title.quote ++
    Text.ofString " flag: " ++ Text.ofString reader ++ Text.ofString ": parsing " ++ value.quote ++
    Text.ofString ": " ++ reason

/-- The character that shows a letter.  One outside ASCII is shown by the first byte of the
character with its number. -/
def shownLetter (letter : UInt8) : Char :=
  let spelled := Text.encodeChar (Char.ofNat letter.toNat)
  Char.ofNat (spelled.headD letter).toNat

/-- A letter among others, as messages show it. -/
def amongLetters (letter : UInt8) (letters : Text) : Text :=
  Text.quoteSingle (shownLetter letter) ++ Text.ofString " in -" ++ letters

/-- A usage error as messages show it. -/
def message : UsageError → Text
  | help => Text.ofString "pflag: help requested"
  | badFlag argument => Text.ofString "bad flag syntax: " ++ argument
  | unknownFlag name => Text.ofString "unknown flag: --" ++ name
  | unknownLetter letter letters =>
    Text.ofString "unknown shorthand flag: " ++ amongLetters letter letters
  | missingValue argument => Text.ofString "flag needs an argument: " ++ argument
  | missingLetterValue letter letters =>
    Text.ofString "flag needs an argument: " ++ amongLetters letter letters
  | badNumber flag value reason => badValue flag value "strconv.ParseInt" (reasonText reason)
  | badSwitch flag value => badValue flag value "strconv.ParseBool" (Text.ofString "invalid syntax")
  | badRounds rounds =>
    Text.ofString "invalid --repeat " ++ Text.ofInt rounds ++ Text.ofString ", must be at least 1"

end UsageError
end Birdcall
