import CSharpOutline.Code.Outermost

/-!
# Where a body ends

Bodies span lines. Reading starts at a line and column of the document and goes on line by line,
with angle brackets left out because a body holds comparisons; what is not closed runs to the last
line.
-/

namespace CSharpOutline

/-- The lines of a document read onward from a position: those from its line on, the first one cut
at its column. -/
def linesFrom (lines : List Text) (line column : Int) : Except Fault (List Text) :=
  match item? lines line, readFrom? lines line with
  | some _, some rest => .ok (rest.modifyHead (itemsFrom · column))
  | _, _ => .error .noLine

/-- The line at which reading from a position stops, or the last line if it does not stop. -/
def stopLineFrom (stop : Balance → Char → Bool) (lines : List Text) (line column : Int) :
    Except Fault Int := do
  let rest ← linesFrom lines line column
  return (Balance.withoutAngles.stopLine? stop rest).elim (lines.length - 1 : Int) (line + ·)

/-- The line on which the braces opened at a position are all closed again. -/
def blockEnd (lines : List Text) (line column : Int) : Except Fault Int :=
  stopLineFrom (Balance.closed .brace) lines line column

/-- The line of the semicolon that ends the statement which starts at a position. -/
def statementEnd (lines : List Text) (line column : Int) : Except Fault Int :=
  stopLineFrom Balance.endsStatement lines line column

end CSharpOutline
