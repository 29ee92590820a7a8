import CSharpOutline.Code.Extent
import CSharpOutline.Document.Snapshot
import CSharpOutline.Member.Block
import CSharpOutline.Member.Head
import CSharpOutline.Member.Joined

/-!
# Reading a member at a line

The scan joins the lines from the given one on until the declaration shows what it is. After each
line it comes to a *verdict*: the text so far declares no member, or it is not decided yet, or it is
a member whose body opens at a known place. The place is found again in the document, and the body
is followed to its end from there.

The scan ends without a member at a line that marks the start of another one, and at the end of the
document.
-/

namespace CSharpOutline

/-- What opens a body, or stands in its place. -/
inductive Opener where
  | brace
  | arrow
  | semicolon
  deriving DecidableEq, Repr

namespace Opener

def symbol : Opener → String
  | .brace => "\x7b"
  | .arrow => "=>"
  | .semicolon => ";"

def read? : Text → Option Opener
  | '{' :: _ => some .brace
  | ';' :: _ => some .semicolon
  | '=' :: '>' :: _ => some .arrow
  | _ => none

end Opener

/-- The first opener outside every group, read onward from a signed offset, with its offset. -/
def Text.firstOpener? (t : Text) (start : Int) : Except Fault (Option (Int × Opener)) := do
  let stops ← t.stopsFrom start
  return stops.findSome? fun s ↦ (Opener.read? s.text).map (s.offset, ·)

/-- The last line of the body that opens at a position. -/
def Opener.lastLine (opener : Opener) (lines : List Text) (position : Int × Int) :
    Except Fault Int :=
  match opener with
  | .brace => blockEnd lines position.1 position.2
  | .arrow => statementEnd lines position.1 position.2
  | .semicolon => .ok position.1

/-- What the text of a declaration shows so far. -/
inductive Verdict where
  /-- More lines are needed. -/
  | undecided
  /-- No member with a body is declared here. -/
  | rejected
  /-- A member is declared, and its body opens at an offset of the text. -/
  | member (kind : Kind) (offset : Int) (opener : Opener)
  deriving DecidableEq, Repr

namespace Verdict

/-- The verdict on a declaration whose parameter list starts at an offset: a method, once both the
list is closed and the body is opened. -/
def ofParameters (text : Text) (start : Nat) : Except Fault Verdict := do
  let close ← text.closingAt start
  if close < 0 then return .undecided
  match ← text.firstOpener? (close + 1) with
  | none => return .undecided
  | some (offset, opener) => return .member .method offset opener

def ofText (text : Text) : Except Fault Verdict :=
  match Head.parse? text with
  | none => .ok .rejected
  | some head =>
    match head.boundary with
    | none => .ok .undecided
    | some .initializer | some .terminator => .ok .rejected
    | some .parameters => ofParameters text head.boundaryStart
    | some .accessors => .ok (.member .fullProperty head.boundaryStart .brace)
    | some .arrow => .ok (.member .arrowProperty head.boundaryStart .arrow)

end Verdict

namespace Scan

/-- The block of a member whose body opens at an offset of the joined text. -/
def toBlock (lines : List Text) (start : Nat) (joined : Joined) (kind : Kind) (offset : Int)
    (opener : Opener) : Except Fault Block := do
  let position ← joined.locate offset
  let endLine ← opener.lastLine lines position
  let shown := Text.collapse (joined.text.take offset.toNat)
  return { kind, startLine := start, endLine, text := shown }

/-- Goes on with the lines that follow the joined ones, the first of them being line `number`. -/
def follow (lines : List Text) (start : Nat) (joined : Joined) (number : Nat) :
    List Text → Except Fault (Option Block)
  | [] => .ok none
  | line :: rest =>
    if start < number ∧ line.endsMember then .ok none
    else
      let joined := joined.push number line
      match Verdict.ofText joined.text with
      | .error fault => .error fault
      | .ok .undecided => follow lines start joined (number + 1) rest
      | .ok .rejected => .ok none
      | .ok (.member kind offset opener) =>
        (toBlock lines start joined kind offset opener).map some

end Scan

namespace Document

/-- The member declared at a line with a given modifier. -/
def member? (d : Document) (modifier : Text) (line : Int) : Except Fault (Option Block) :=
  let lines := d.toSnapshot.lines
  if 0 ≤ line ∧ line < lines.length then
    let start := line.toNat
    if (lines.getD start []).carries modifier then
      Scan.follow lines start {} start (lines.drop start)
    else .ok none
  else .error (.naming .outsideDocument line (lines.length - 1))

/-- The signature of the member declared at a line with a given modifier. -/
def signatureAt (d : Document) (modifier : Text) (line : Int) : Except Fault Signature := do
  match ← d.member? modifier line with
  | none => return .unknown
  | some block => return block.signature

end Document

end CSharpOutline
