import CSharpOutline.Document.Snapshot
import CSharpOutline.Using.Directive

/-!
# The block of using directives

The directives of a file stand together at its top, behind blank lines at most. The block cuts the
text in three: what is in front, the directives with their line endings, and the rest. A file that
does not start with a directive has an empty block in front of all its text.
-/

namespace CSharpOutline

/-- A text cut at its leading using directives. -/
structure UsingBlock where
  /-- The blank lines in front of the directives. -/
  lead : Text
  /-- The directives, each a line with its ending. -/
  statements : List Text
  /-- What follows the directives. -/
  rest : Text
  deriving DecidableEq, Repr

namespace Text

/-- The lines of a text with their line breaks. A last line without one counts if it is not
empty. -/
def keptLines (t : Text) : List Text :=
  match _h : t with
  | [] => []
  | c :: r => firstLine (c :: r) :: keptLines (afterFirstLine (c :: r))
termination_by t.length
decreasing_by
  have h := congrArg List.length (firstLine_append_afterFirstLine (c :: r))
  have hne : 0 < (firstLine (c :: r)).length := by
    rw [firstLine]
    split <;> simp
  simp only [List.length_append] at h
  omega

end Text

namespace UsingBlock

def ofText (t : Text) : UsingBlock :=
  let lines := t.keptLines
  let lead := lines.takeWhile Text.allBlank
  let after := lines.drop lead.length
  match after.takeWhile Text.isUsingLine with
  | [] => ⟨[], [], t⟩
  | statements => ⟨lead.flatten, statements, (after.drop statements.length).flatten⟩

/-- The text that the block was cut from, with other directives in place of its own. -/
def replace (b : UsingBlock) (directives : Text) : Text := b.lead ++ directives ++ b.rest

end UsingBlock

namespace Text

/-- The using directives at the top of a text. -/
def usings (t : Text) : List Text := (UsingBlock.ofText t).statements

/-- A directive without the line ending it carries. -/
def withoutEnding (t : Text) : Text :=
  (t.reverse.dropWhile fun c ↦ c == '\r' || c == '\n').reverse

/-- The text with its using directives replaced, each new one ended by `ending`. -/
def replaceUsings (t : Text) (statements : List Text) (ending : Text) : Text :=
  (UsingBlock.ofText t).replace (statements.flatMap fun s ↦ withoutEnding s ++ ending)

end Text

end CSharpOutline
