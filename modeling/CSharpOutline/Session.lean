import CSharpOutline.Declaration.Bases
import CSharpOutline.Member.Locate
import CSharpOutline.Member.Method
import CSharpOutline.Using.Block

/-!
# Editing sessions

A session holds one text and works on it step by step. Steps that edit answer with the new text; a
step that fails leaves the text as it was, and the session goes on.
-/

namespace CSharpOutline

/-- What is known about the line and the member at a cursor. -/
structure Place where
  line : Option Text
  block : Option Block
  method : Option Signature
  property : Option Signature
  deriving DecidableEq, Repr

/-- The place at an editor's cursor. -/
def Editor.place (e : Editor) : Except Fault Place := do
  return {
    line := e.lineAtCursor?
    block := ← e.memberAtCursor?
    method := ← e.methodSignature?
    property := ← e.propertySignature? }

/-- The place at the start of a line of a document. -/
def Document.placeAt (d : Document) (line : Int) : Except Fault Place := do
  Editor.place ⟨d, ← Cursor.ofInts line 0⟩

structure FileNames where
  namespaceName : Report
  className : Report
  inherited : List Text
  deriving DecidableEq, Repr

/-- The names that a text declares. -/
def Text.fileNames (t : Text) : Except Fault FileNames := do
  return {
    namespaceName := t.namespaceName.report
    className := t.className.report
    inherited := ← t.baseNames true }

namespace Session

/-- The steps of a session. -/
inductive Step where
  | setText (text : Text)
  /-- Replaces the using directives; without an ending, or with an empty one, the text's own line
  ending is used. -/
  | replaceUsings (statements : List Text) (ending : Option Text)
  | replaceLine (line : Int) (text : Text)
  | normalizeLines
  | usings
  | names
  | member (modifier : Text) (line : Int)
  | cursor (line : Int)
  deriving DecidableEq, Repr

inductive Answer where
  | text (text : Text)
  | usings (statements : List Text)
  | names (names : FileNames)
  | member (signature : Signature) (isMethod : Bool) (name : Option Text)
  | place (place : Place)
  deriving DecidableEq, Repr

/-- The answer of a step that leaves the text `t` as it is, or the text that it makes of `t`. -/
def perform (t : Text) : Step → Except Fault (Text ⊕ Answer)
  | .setText text => .ok (.inl text)
  | .replaceUsings statements ending =>
    .ok (.inl (t.replaceUsings statements
      ((Document.snapshot (.ofText t)).lineEnding.orGiven ending)))
  | .replaceLine line text => do
    return .inl (← (Snapshot.ofText t).replaceLine line text).text
  | .normalizeLines => .ok (.inl (Snapshot.ofText t).text)
  | .usings => .ok (.inr (.usings (Snapshot.ofText t).text.usings))
  | .names => do
    return .inr (.names (← t.fileNames))
  | .member modifier line => do
    let signature ← (Document.snapshot (.ofText t)).signatureAt modifier line
    return .inr (.member signature (signature.text.any Text.endsWithParameters)
      (signature.text.bind memberName?))
  | .cursor line => do
    return .inr (.place (← (Document.snapshot (.ofText t)).placeAt line))

/-- The text after a step, and its answer. -/
def step (t : Text) (s : Step) : Text × Except Fault Answer :=
  match perform t s with
  | .ok (.inl text) => (text, .ok (.text text))
  | .ok (.inr answer) => (t, .ok answer)
  | .error fault => (t, .error fault)

/-- The answers to the steps of a session that starts with a text. -/
def run (t : Text) : List Step → List (Except Fault Answer)
  | [] => []
  | s :: steps =>
    let (next, answer) := step t s
    answer :: run next steps

end Session

end CSharpOutline
