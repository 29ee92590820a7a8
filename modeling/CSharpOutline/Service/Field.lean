import CSharpOutline.Fault
import CSharpOutline.Service.Numeral
import CSharpOutline.Service.Value

/-!
# Checking the fields of a request

A reader turns a value into what an endpoint needs or lists everything that is wrong with it. The
issues of several fields are listed together, in the order of the fields, so that one reply shows
all of them.
-/

namespace CSharpOutline.Service

/-- What is wrong with a value. -/
inductive Problem where
  | missing
  | notObject
  | notText
  | notWhole
  | unreadableWhole
  | oversized
  | infinite
  | fraction
  | negative
  | notBool
  | unreadableBool
  | notList
  deriving DecidableEq, Repr

/-- The word under which a problem is reported. -/
def Problem.code : Problem → String
  | .missing => "missing"
  | .notObject => "model_attributes_type"
  | .notText => "string_type"
  | .notWhole => "int_type"
  | .unreadableWhole => "int_parsing"
  | .oversized => "int_parsing_size"
  | .infinite => "finite_number"
  | .fraction => "int_from_float"
  | .negative => "greater_than_equal"
  | .notBool => "bool_type"
  | .unreadableBool => "bool_parsing"
  | .notList => "list_type"

/-- A step from a value to one of its parts. -/
inductive Part where
  | field (name : String)
  | item (index : Nat)
  deriving DecidableEq, Repr

/-- A problem and the way to the part that has it. -/
structure Issue where
  problem : Problem
  location : List Part
  deriving DecidableEq, Repr

/-- What a reader makes of a value: the result, or all issues. -/
abbrev Checked (α : Type) := Except (List Issue) α

namespace Checked

variable {α β : Type}

/-- A single problem with the value itself. -/
def fail (p : Problem) : Checked α := .error [⟨p, []⟩]

/-- The outcome seen from the value that the checked one is a part of. -/
def inside (part : Part) : Checked α → Checked α
  | .ok a => .ok a
  | .error issues => .error (issues.map fun i ↦ { i with location := part :: i.location })

/-- Two outcomes together, with the issues of both. -/
def both : Checked α → Checked β → Checked (α × β)
  | .ok a, .ok b => .ok (a, b)
  | .error is, .ok _ => .error is
  | .ok _, .error js => .error js
  | .error is, .error js => .error (is ++ js)

end Checked

/-! ## Readers -/

def readText : Value → Checked Text
  | .text t => .ok t
  | _ => .fail .notText

/-- Whether a whole number fits a machine word with a sign. -/
def fitsWord (n : Int) : Bool := -0x8000000000000000 ≤ n && n < 0x8000000000000000

/-- Reads a decimal that is a whole number. Its size is limited: its binary form lies strictly
between the ends of a machine word. -/
def readDecimal (d : Decimal) : Checked Int :=
  match d.nearest? with
  | none => .fail .infinite
  | some b =>
    match b.whole? with
    | none => .fail .fraction
    | some n => if fitsWord n && fitsWord (-n) then .ok n else .fail .oversized

/-- Reads a whole number: a number or truth value, or a text that writes one. -/
def readInteger : Value → Checked Int
  | .bool b => .ok b.toNat
  | .whole n => .ok n
  | .decimal d => readDecimal d
  | .text t =>
    match Numeral.ofText t with
    | .whole n => .ok n
    | .tooLong => .fail .oversized
    | .unreadable => .fail .unreadableWhole
  | _ => .fail .notWhole

/-- Reads a whole number that is not negative. A number that cannot be written out is in no body
that could be parsed; it is refused as oversized. -/
def readCount (v : Value) : Checked Nat :=
  match readInteger v with
  | .error issues => .error issues
  | .ok n =>
    if n < 0 then .fail .negative
    else if isWritable n then .ok n.toNat
    else .fail .oversized

/-- The words for true, in lower case. -/
def trueWords : List Text := ["1", "on", "t", "true", "y", "yes"].map String.toList

/-- The words for false, in lower case. -/
def falseWords : List Text := ["0", "off", "f", "false", "n", "no"].map String.toList

/-- Reads a truth value from a number, which has to be one or zero. -/
def readBit (n : Int) : Checked Bool :=
  if n = 0 then .ok false else if n = 1 then .ok true else .fail .unreadableBool

/-- Reads a truth value: itself, one or zero, or a word for it in letters of any case. Numbers that
are not whole or do not fit a machine word are no truth values at all. -/
def readBool : Value → Checked Bool
  | .bool b => .ok b
  | .whole n => if fitsWord n then readBit n else .fail .notBool
  | .decimal d =>
    match readDecimal d with
    | .ok n => readBit n
    | .error _ => .fail .notBool
  | .text t =>
    let word := t.map Char.toLower
    if trueWords.contains word then .ok true
    else if falseWords.contains word then .ok false
    else .fail .unreadableBool
  | _ => .fail .notBool

/-- Reads the items of a list from a given index on, each as a text. -/
def readTextsFrom (index : Nat) : List Value → Checked (List Text)
  | [] => .ok []
  | v :: vs =>
    ((readText v).inside (.item index)).both (readTextsFrom (index + 1) vs) |>.map
      fun (t, ts) ↦ t :: ts

def readTexts : Value → Checked (List Text)
  | .list items => readTextsFrom 0 items
  | _ => .fail .notList

/-- Reads a text that null stands in for. -/
def readNullableText : Value → Checked (Option Text)
  | .null => .ok none
  | v => (readText v).map some

/-! ## Fields -/

abbrev Fields := List (String × Value)

variable {α : Type}

/-- Reads a field that has to be there. -/
def required (read : Value → Checked α) (name : String) (fields : Fields) : Checked α :=
  match fields.lookup name with
  | some v => (read v).inside (.field name)
  | none => (Checked.fail .missing).inside (.field name)

/-- Reads a field that has a default. -/
def optional (read : Value → Checked α) (default : α) (name : String) (fields : Fields) :
    Checked α :=
  match fields.lookup name with
  | some v => (read v).inside (.field name)
  | none => .ok default

end CSharpOutline.Service
