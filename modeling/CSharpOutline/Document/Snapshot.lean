import CSharpOutline.Document.LineEnding
import CSharpOutline.Fault
import CSharpOutline.Text.Offset

/-!
# Documents

A *snapshot* is a document cut into lines, together with the ending that its first line had. Joining
the lines again with that ending gives back the text, provided all lines ended alike. A *live*
document offers its text only, and a snapshot of it is taken when lines are needed.
-/

namespace CSharpOutline

/-- The lines of a document and how they end. -/
structure Snapshot where
  lines : List Text
  ending : LineEnding := .lf
  deriving DecidableEq, Repr

namespace Snapshot

/-- Whether a line carries the carriage return of its ending. -/
def hasReturn (line : Text) : Bool := line.getLast? == some '\r'

/-- A line without the carriage return of its ending. -/
def dropReturn (line : Text) : Text := if hasReturn line then line.dropLast else line

/-- The ending told by the lines between line breaks: a return at the end of the first of several
lines belongs to the line break after it. -/
def endingOf : List Text → LineEnding
  | line :: _ :: _ => if hasReturn line then .crlf else .lf
  | _ => .lf

def ofText (t : Text) : Snapshot where
  lines := t.lines.map dropReturn
  ending := endingOf t.lines

/-- The lines joined with the ending. -/
def text (s : Snapshot) : Text := s.ending.text.intercalate s.lines

def size (s : Snapshot) : Nat := s.lines.length

def get (s : Snapshot) (i : Int) : Except Fault Text :=
  match item? s.lines i with
  | some line => .ok line
  | none => .error .noSnapshotLine

/-- The snapshot with the line at a signed number replaced. -/
def replaceLine (s : Snapshot) (i : Int) (line : Text) : Except Fault Snapshot :=
  match position? s.lines.length i with
  | some k => .ok { s with lines := s.lines.set k line }
  | none => .error .noReplaceableLine

@[simp] theorem size_ofText (t : Text) : (ofText t).size = t.lines.length := by
  simp [ofText, size]

theorem lines_ofText_ne_nil (t : Text) : (ofText t).lines ≠ [] := by
  simp [ofText, Text.lines_ne_nil]

end Snapshot

/-- A document: text that a host holds, or a snapshot. -/
inductive Document where
  | live (text : Text)
  | snapshot (snapshot : Snapshot)
  deriving DecidableEq, Repr

namespace Document

def text : Document → Text
  | .live t => t
  | .snapshot s => s.text

/-- The document cut into lines. -/
def toSnapshot : Document → Snapshot
  | .live t => .ofText t
  | .snapshot s => s

/-- The ending of the first line of a document. -/
def lineEnding (d : Document) : LineEnding := .detect d.text

end Document

end CSharpOutline
