import CSharpOutline.Code.Group
import CSharpOutline.Member.Modifier

/-!
# The head of a member declaration

A declaration starts with attributes, modifiers and a type; then comes the name, and what follows
the name, its *boundary*, shows what is declared: a parameter list, accessors, an expression body,
or a field. A constructor has no type of its own, so what was read as the type is its name.

Declarations arrive line by line, so the text may end at any point. A head without a boundary says
that nothing is wrong so far and more is needed; no head at all says that this is no member.
-/

namespace CSharpOutline

/-- What follows the name of a member. -/
inductive Boundary where
  /-- The parameter list of a method or constructor, after `(`. -/
  | parameters
  /-- The accessors of a property, after an opening brace. -/
  | accessors
  /-- The expression body of a property, after `=>`. -/
  | arrow
  /-- The initial value of a field, after `=`. -/
  | initializer
  /-- The end of a field at `;`, or of its name at `,`. -/
  | terminator
  deriving DecidableEq, Repr

namespace Boundary

def symbol : Boundary → String
  | .parameters => "("
  | .accessors => "\x7b"
  | .arrow => "=>"
  | .initializer => "="
  | .terminator => ";"

/-- The boundary that `t` starts with: `none` if no boundary is written like this, `some none` if
the text has ended. -/
def read? : Text → Option (Option Boundary)
  | [] => some none
  | '=' :: '>' :: _ => some (some .arrow)
  | '(' :: _ => some (some .parameters)
  | '{' :: _ => some (some .accessors)
  | '=' :: _ => some (some .initializer)
  | ';' :: _ => some (some .terminator)
  | ',' :: _ => some (some .terminator)
  | _ => none

end Boundary

/-- The leading part of a declaration, up to what follows its name. -/
structure Head where
  /-- The name, empty if the text ended before it. -/
  name : Text
  nameStart : Nat
  /-- What follows the name, if the text goes on that far. -/
  boundary : Option Boundary
  boundaryStart : Nat
  /-- Whether a modifier stands in front of the type. -/
  hasModifiers : Bool := false
  deriving DecidableEq, Repr

namespace Head

/-! ## The parts in front of the name -/

/-- What follows the attributes at the start of `t`, each in square brackets and followed by blanks.
There is no answer if one of them is not closed. -/
def afterAttributes? : Text → Option Text
  | '[' :: t =>
    match _h : Text.after? ']' t with
    | none => none
    | some rest => afterAttributes? (Text.trimStart rest)
  | t => some t
termination_by t => t.length
decreasing_by
  have h₁ := Text.length_lt_of_after? _h
  have h₂ := Text.length_trimStart_le rest
  simp only [List.length_cons]
  omega

/-- What follows the word characters, dots and double colons at the start of `t`. -/
def afterQualified : Text → Text
  | [] => []
  | ':' :: ':' :: t => afterQualified t
  | c :: t => if isNamePart c then afterQualified t else c :: t

/-- What follows the type name at the start of `t`: an optional `@` and a qualified name. -/
def afterTypeName? (t : Text) : Option Text :=
  let body := match t with
    | '@' :: r => r
    | _ => t
  let rest := afterQualified body
  if rest.length < body.length then some rest else none

/-- What follows the suffixes of a type at the start of `t`: type arguments, `?`, `*` and ranks.
There is no answer if a rank is not closed. -/
def afterSuffixes? : Text → Option Text
  | [] => some []
  | c :: t =>
    if _h : c = '<' then afterSuffixes? (Text.afterGroup (c :: t))
    else if c = '?' ∨ c = '*' then afterSuffixes? t
    else if c = '[' then
      match _h : Text.after? ']' t with
      | none => none
      | some rest => afterSuffixes? rest
    else some (c :: t)
termination_by t => t.length
decreasing_by
  · exact Text.length_afterGroup_lt t (.inl _h)
  · simp
  · have h' := Text.length_lt_of_after? _h
    simp only [List.length_cons]
    omega

/-! ## The name and its boundary -/

/-- The head of a declaration whose text ends before its name is known. -/
def incomplete (text : Text) : Head where
  name := []
  nameStart := text.length
  boundary := none
  boundaryStart := text.length

/-- The head whose name starts the suffix `named` of `text` and is followed by `rest`. Type
parameters directly after the name belong to neither. -/
def ofName? (text named name rest : Text) (hasModifiers : Bool) : Option Head :=
  let rest := (if rest.head? = some '<' then rest.afterGroup else rest).trimStart
  (Boundary.read? rest).map fun boundary ↦
    { name
      nameStart := text.length - named.length
      boundary
      boundaryStart := text.length - rest.length
      hasModifiers }

/-- The head whose type starts the suffix `typed` of `text` and ends before its suffix `rest`. -/
def ofType? (text typed rest : Text) (isTuple hasModifiers : Bool) : Option Head :=
  let named := rest.trimStart
  if !isTuple ∧ named.head? = some '(' then
    some
      { name := typed.take (typed.length - rest.length)
        nameStart := text.length - typed.length
        boundary := some .parameters
        boundaryStart := text.length - named.length
        hasModifiers }
  else match Text.name? isNamePart named with
    | none => if named.isEmpty then some (incomplete text) else none
    | some (name, afterName) =>
      if !isTuple ∧ named.length = rest.length then none
      else ofName? text named name afterName hasModifiers

def parse? (text : Text) : Option Head :=
  match afterAttributes? text.trimStart with
  | none => none
  | some declared =>
    let (hasModifiers, typed) := Text.dropKeywords memberModifiers declared
    if typed.isEmpty then some (incomplete text)
    else
      let isTuple := typed.head? == some '('
      match if isTuple then some typed.afterGroup else afterTypeName? typed with
      | none => none
      | some suffixed =>
        match afterSuffixes? suffixed with
        | none => some (incomplete text)
        | some rest => ofType? text typed rest isTuple hasModifiers

end Head

/-- The name of the member that `text` declares. A text that ends right after the name declares a
member only if a modifier stands in front, so that two bare words are not taken for one. -/
def memberName? (text : Text) : Option Text :=
  match Head.parse? text with
  | none => none
  | some head =>
    if head.name.isEmpty ∨ (head.boundary.isNone ∧ !head.hasModifiers) then none
    else some head.name

end CSharpOutline
