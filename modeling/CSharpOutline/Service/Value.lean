import CSharpOutline.Service.Decimal
import CSharpOutline.Text.Basic

/-!
# Structured values

The values that requests carry and replies hold. Whole numbers are exact whatever their size, and a
number written with a point or an exponent is told from them even when it has no fraction.
-/

namespace CSharpOutline.Service

inductive Value where
  | null
  | bool (b : Bool)
  | whole (n : Int)
  | decimal (d : Decimal)
  | text (t : Text)
  | list (items : List Value)
  | object (fields : List (String × Value))
  deriving Inhabited

namespace Value

/-- A text that may be absent. -/
def ofText? : Option Text → Value
  | none => .null
  | some t => .text t

def ofTexts (ts : List Text) : Value := .list (ts.map .text)

def ofString (s : String) : Value := .text s.toList

/-- The value of a field, when there is one of that name. -/
def field? (name : String) : Value → Option Value
  | .object fields => fields.lookup name
  | _ => none

end Value

end CSharpOutline.Service
