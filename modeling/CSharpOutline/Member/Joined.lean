import CSharpOutline.Code.Comment
import CSharpOutline.Fault
import CSharpOutline.Text.Blank

/-!
# Joining the lines of a declaration

The lines of a declaration are joined into one text: comments are dropped, the blanks around each
line too, and a single space takes the place of the line break unless a bracket, comma or dot stands
next to it. Each line that contributes is kept as a *segment*, so that a place in the joined text
can be found again in the document.
-/

namespace CSharpOutline

/-- A line's share of a joined text: where it starts there, and the line and column of its first
character in the document. -/
structure Segment where
  start : Nat
  line : Int
  column : Nat
  deriving DecidableEq, Repr

/-- Lines joined into one text. -/
structure Joined where
  text : Text := []
  segments : List Segment := []
  deriving DecidableEq, Repr

namespace Joined

/-- The characters after which no space is put. -/
def tightAfter : List Char := ['(', ',', '<', '.']

/-- The characters in front of which no space is put. -/
def tightBefore : List Char := [')', ',', '>', '.']

/-- What is put between a joined text and the next piece. -/
def separator (text piece : Text) : Text :=
  if text.isEmpty || text.getLast?.any tightAfter.contains ||
      piece.head?.any tightBefore.contains then []
  else [' ']

/-- The joined text with one more piece, which stands at a line and column of the document. An empty
piece adds nothing. -/
def addPiece (j : Joined) (number : Int) (column : Nat) (piece : Text) : Joined :=
  if piece.isEmpty then j
  else
    { text := j.text ++ separator j.text piece ++ piece
      segments := j.segments ++ [⟨(j.text ++ separator j.text piece).length, number, column⟩] }

/-- The number of blanks that a line starts with. -/
def indent (line : Text) : Nat := line.length - line.trimStart.length

/-- The joined text with one more line, comments and the blanks around it left out. -/
def push (j : Joined) (number : Int) (line : Text) : Joined :=
  j.addPiece number (indent line.withoutComment) line.withoutComment.trim

/-- The segment that holds an offset of the joined text: the last one that starts no later. An
offset in front of all segments is taken from the last one. -/
def segmentOf? (j : Joined) (i : Int) : Option Segment :=
  (j.segments.takeWhile fun s ↦ (s.start : Int) ≤ i).getLast?.or j.segments.getLast?

/-- The line and column in the document of an offset of the joined text. -/
def locate (j : Joined) (i : Int) : Except Fault (Int × Int) :=
  match j.segmentOf? i with
  | some s => .ok (s.line, s.column + i - s.start)
  | none => .error .emptyDeclaration

end Joined

end CSharpOutline
