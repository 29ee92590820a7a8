import CSharpOutline.Text.Basic

/-!
# Line endings

A document ends its lines with a line feed, or with a carriage return and a line feed. The first
line break decides; a document without one takes the line feed.
-/

namespace CSharpOutline

/-- How the lines of a document end. -/
inductive LineEnding where
  | lf
  | crlf
  deriving DecidableEq, Repr

namespace LineEnding

def text : LineEnding → Text
  | .lf => ['\n']
  | .crlf => ['\r', '\n']

/-- The ending of the first line of a text. -/
def detect : Text → LineEnding
  | [] => .lf
  | '\n' :: _ => .lf
  | '\r' :: '\n' :: _ => .crlf
  | _ :: t => detect t

/-- The ending to write lines with: the given one unless it is absent or empty, else the detected
one. -/
def orGiven (detected : LineEnding) : Option Text → Text
  | none | some [] => detected.text
  | some ending => ending

end LineEnding

end CSharpOutline
