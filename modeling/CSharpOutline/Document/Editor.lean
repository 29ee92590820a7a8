import CSharpOutline.Document.Snapshot
import CSharpOutline.Text.Blank

/-!
# Editors

An editor shows a document and holds a cursor in it. The cursor counts lines and characters from
zero and may lie past the end of the document.
-/

namespace CSharpOutline

/-- A place in a document. -/
structure Cursor where
  line : Nat
  character : Nat := 0
  deriving DecidableEq, Repr

namespace Cursor

/-- The cursor at a line and character, neither of which may be negative. -/
def ofInts (line character : Int) : Except Fault Cursor :=
  if line < 0 ∨ character < 0 then .error (.naming .negativeCursor line character)
  else .ok ⟨line.toNat, character.toNat⟩

end Cursor

/-- A document with a cursor. -/
structure Editor where
  document : Document
  cursor : Cursor
  deriving DecidableEq, Repr

namespace Editor

/-- The line under the cursor without the blanks around it, unless the cursor lies past the last
line. -/
def lineAtCursor? (e : Editor) : Option Text :=
  e.document.toSnapshot.lines[e.cursor.line]?.map Text.trim

end Editor

end CSharpOutline
