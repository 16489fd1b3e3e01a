import Birdcall.Text.Classes
import Birdcall.Text.Quoted

/-!
# Clean lines

A printed value takes exactly one line whatever it holds: control characters are escaped, bytes
outside any character become replacement characters, and everything else stays.
-/

namespace Birdcall.Text

/-- A character as it appears on an output line. -/
def cleanChar (c : Char) : Text := if isControl c then escapeChar c else encodeChar c

/-- A text without its control characters. -/
def clean (t : Text) : Text := (decode t).flatMap cleanChar

/-- A value as a line of output. -/
def line (t : Text) : Text := clean t ++ [lineFeed]

end Birdcall.Text
