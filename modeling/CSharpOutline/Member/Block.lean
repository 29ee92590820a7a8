import CSharpOutline.Fault

/-!
# Members found in a document

A *block* is a member together with the lines it spans, its body included. Its text is the
declaration without the body; text and kind together are the *signature*.
-/

namespace CSharpOutline

/-- What a signature belongs to. -/
inductive Kind where
  | method
  /-- A property with accessors in braces. -/
  | fullProperty
  /-- A property with an expression body. -/
  | arrowProperty
  | unknown
  deriving DecidableEq, Repr

namespace Kind

/-- The label under which a kind is reported. -/
def label : Kind → String
  | .method => "Method"
  | .fullProperty => "FullProperty"
  | .arrowProperty => "LambaProperty"
  | .unknown => "Unknown"

def all : List Kind := [.method, .fullProperty, .arrowProperty, .unknown]

def ofLabel (label : Text) : Except Fault Kind :=
  match all.find? fun k ↦ k.label.toList == label with
  | some k => .ok k
  | none => .error (.unknownLabel label)

theorem ofLabel_label (k : Kind) : ofLabel k.label.toList = .ok k := by
  cases k <;> rfl

end Kind

/-- The declaration of a member without its body. The signature of no member has no text. -/
structure Signature where
  text : Option Text
  kind : Kind
  deriving DecidableEq, Repr

/-- The signature that stands for no member. -/
def Signature.unknown : Signature := ⟨none, .unknown⟩

/-- A member and the lines it spans. -/
structure Block where
  kind : Kind
  startLine : Int
  endLine : Int
  text : Text
  deriving DecidableEq, Repr

namespace Block

/-- Whether a block is a method's and not a property's. -/
def isMethod (b : Block) : Bool := b.kind == .method

def contains (b : Block) (line : Int) : Bool := b.startLine ≤ line && line ≤ b.endLine

def signature (b : Block) : Signature := ⟨some b.text, b.kind⟩

end Block

end CSharpOutline
