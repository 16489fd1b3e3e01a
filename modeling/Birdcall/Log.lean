import Birdcall.Act
import Birdcall.Event
import Birdcall.Text.Template

/-!
# Logs

A log line starts with a mark that says what kind of line it is.  Marks line up: a mark shorter
than the widest one so far is widened by repeating its first character.  While a function body
runs, its lines get a further heading in front; headings are templates, as lines are.
-/

namespace Birdcall

/-- What happens after a line is logged. -/
inductive Reply
  | done
  | crash (message : Text)
  | exit
  deriving DecidableEq, Repr

/-- Where lines are logged. -/
structure Channel where
  name : Text
  level : Level
  /-- What logging a line leads to. -/
  reply : Text → Reply

/-- A log: where its lines go, the headings in front of them, and the widest mark so far. -/
structure Log where
  channel : Option Channel
  /-- The headings of the lines, innermost first. -/
  headings : List Text
  width : Nat

namespace Log

/-- A log that goes nowhere. -/
def silent : Log := ⟨none, [], 0⟩

/-- Puts a further heading in front of lines. -/
def push (heading : Text) (l : Log) : Log := { l with headings := heading :: l.headings }

/-- Drops the latest heading. -/
def pop (l : Log) : Log := { l with headings := l.headings.tail }

/-- A mark widened to `width` bytes by its first character, as far as whole characters go: one
character for each byte missing. -/
def widen (width : Nat) (mark : Text) : Text :=
  match Text.decode mark with
  | [] => mark
  | c :: _ => (List.replicate (width - mark.length) (Text.encodeChar c)).flatten ++ mark

/-- The line of a message, under its mark and behind the headings. -/
def line (l : Log) (mark message : Text) : Text :=
  Template.fill (l.headings.reverse.flatten ++ Text.ofString "%v %v") [widen l.width mark, message]

/-- The log after a line with the given mark. -/
def widened (l : Log) (mark : Text) : Log := { l with width := max l.width mark.length }

/-- The message of a template and the texts for its places.  Without texts it is taken as it is. -/
def message (template : Text) (args : List Text) : Text :=
  if args.isEmpty then template else Template.fill template args

/-- The line that logging gives, the channel it goes to, and the log after it. -/
def write (l : Log) (mark template : Text) (args : List Text) : Option (Channel × Text) × Log :=
  match l.channel with
  | none => (none, l)
  | some channel => (some (channel, l.line mark (message template args)), l.widened mark)

end Log
end Birdcall
