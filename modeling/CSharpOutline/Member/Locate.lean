import CSharpOutline.Document.Editor
import CSharpOutline.Member.Scan

/-!
# The member around the cursor

From the cursor the nearest public line above decides: the member declared there is the one around
the cursor, if it reaches that far. A member further up is not looked at, so a property declared
above a method is never reported inside the method's body.
-/

namespace CSharpOutline

/-- The number of the last public line among the first `n` lines. -/
def lastPublic? (lines : List Text) : (n : Nat) → Option Nat
  | 0 => none
  | n + 1 =>
    if (lines[n]?.any Text.declaresPublic) then some n else lastPublic? lines n

namespace Editor

/-- The public member whose lines hold the cursor. -/
def memberAtCursor? (e : Editor) : Except Fault (Option Block) :=
  let snapshot := e.document.toSnapshot
  match lastPublic? snapshot.lines (min (e.cursor.line + 1) snapshot.size) with
  | none => .ok none
  | some start => do
    let block ← (Document.snapshot snapshot).member? "public".toList start
    return block.filter (·.contains e.cursor.line)

/-- The signature of a block without the access modifiers in front. -/
def innerSignature (b : Block) : Signature := ⟨some b.text.withoutAccess, b.kind⟩

/-- The signature of the method around the cursor. -/
def methodSignature? (e : Editor) : Except Fault (Option Signature) := do
  let block ← e.memberAtCursor?
  return (block.filter (·.isMethod)).map innerSignature

/-- The signature of the property around the cursor. -/
def propertySignature? (e : Editor) : Except Fault (Option Signature) := do
  let block ← e.memberAtCursor?
  return (block.filter (!·.isMethod)).map innerSignature

end Editor

end CSharpOutline
