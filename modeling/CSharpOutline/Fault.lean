import CSharpOutline.Text.Quoted

/-!
# Faults

What can be wrong with a request: a position that the text or document does not have, or a value
that a type does not admit. Each fault is a cause; its wording is `Fault.message`.

Some wordings name the numbers that were asked for, and a whole number can be written out up to
`digitLimit` digits only. Where a number is longer, the wording itself fails, and `Fault.naming`
answers with that fault and not with the one that was to be worded.
-/

namespace CSharpOutline

/-! ## Written numbers -/

/-- The number of digits up to which a whole number can be written out. Its sign does not count. -/
@[irreducible] def digitLimit : Nat := 4300

/-- The least number that cannot be written out. -/
def leastUnwritable : Nat := Nat.pow 10 digitLimit

/-- Whether a whole number can be written out. -/
def isWritable (n : Int) : Bool := (Nat.toDigits 10 n.natAbs).length ≤ digitLimit

theorem digitLimit_pos : 0 < digitLimit := by decide +kernel

theorem ten_le_leastUnwritable : 10 ≤ leastUnwritable :=
  Nat.pow_le_pow_right (by decide : 0 < 10) (Nat.succ_le_of_lt digitLimit_pos)

theorem isWritable_iff {n : Int} : isWritable n = true ↔ n.natAbs < leastUnwritable := by
  rw [isWritable, decide_eq_true_iff]
  exact Nat.length_toDigits_le_iff (by decide) digitLimit_pos

/-! ## Causes and wordings -/

/-- The causes for which an operation answers with an error. -/
inductive Fault where
  /-- An offset names no character of its text. -/
  | noCharacter
  /-- A line number names no line of a list of lines. -/
  | noLine
  /-- A line number names no line of a document snapshot. -/
  | noSnapshotLine
  /-- A line number names no line that could be replaced. -/
  | noReplaceableLine
  /-- A position was asked of a declaration to which no line has been joined. -/
  | emptyDeclaration
  /-- A member was asked for at a line that the document, which ends at line `last`, does not
  have. -/
  | outsideDocument (line last : Int)
  /-- A cursor was placed before the first line or the first character. -/
  | negativeCursor (line character : Int)
  /-- A number that a wording names has too many digits to be written out. -/
  | unwritable
  /-- A word is not the label of a signature type. -/
  | unknownLabel (label : Text)
  deriving DecidableEq, Repr

namespace Fault

/-- Whether a fault is about a position that does not exist, and not about a value that is not
admitted. -/
def isPosition : Fault → Bool
  | .negativeCursor .. | .unwritable | .unknownLabel .. => false
  | _ => true

def message : Fault → String
  | .noCharacter => "string index out of range"
  | .noLine | .emptyDeclaration => "list index out of range"
  | .noSnapshotLine => "tuple index out of range"
  | .noReplaceableLine => "list assignment index out of range"
  | .outsideDocument line last =>
    "line " ++ toString line ++ " is outside the document (0.." ++ toString last ++ ")"
  | .negativeCursor line character =>
    "cursor position must be non-negative, got " ++ toString line ++ ":" ++ toString character
  | .unwritable =>
    "Exceeds the limit (" ++ toString digitLimit ++ " digits) for integer string conversion; " ++
      "use sys.set_int_max_str_digits() to increase the limit"
  | .unknownLabel label => String.ofList label.quoted ++ " is not a valid SignatureType"

/-- The fault whose wording names two numbers, which have to be written out for it. -/
def naming (fault : Int → Int → Fault) (m n : Int) : Fault :=
  if isWritable m && isWritable n then fault m n else .unwritable

/-- The wording of a line outside a document of `n` lines fails exactly if the line has too many
digits or the document too many lines. -/
theorem naming_outsideDocument (line : Int) (n : Nat) :
    naming .outsideDocument line (n - 1) =
      if line.natAbs < leastUnwritable ∧ n ≤ leastUnwritable then .outsideDocument line (n - 1)
      else .unwritable := by
  have hlast : ((n : Int) - 1).natAbs < leastUnwritable ↔ n ≤ leastUnwritable := by
    have hten := ten_le_leastUnwritable
    omega
  simp only [naming, Bool.and_eq_true, isWritable_iff, hlast]

end Fault

end CSharpOutline
