import CSharpOutline.Member.Modifier

/-!
# Names of the namespace and the type

A namespace is found wherever its keyword stands as a word. A type declaration is looked for only
where a declaration can begin: at the start of a line, or right after a semicolon or a brace. From
there attributes that stay on one line and modifiers may come before the keyword.
-/

namespace CSharpOutline

/-! ## Searches -/

/-- What a file was searched for in vain. -/
inductive Missing where
  | namespaceName
  | className
  deriving DecidableEq, Repr

namespace Missing

/-- The word for what is missing. -/
def subject : Missing → String
  | .namespaceName => "namespace"
  | .className => "class"

def message : Missing → String
  | .namespaceName => "Could not find the namespace in the current file."
  | .className => "Could not find the class name in the current file."

end Missing

/-- The outcome of a search for a name. -/
abbrev Search := Except Missing Text

/-- A name as it is reported to a user: the name, and the messages for what was missing. -/
structure Report where
  name : Option Text
  errors : List String
  deriving DecidableEq, Repr

def Search.report : Search → Report
  | .ok name => ⟨some name, []⟩
  | .error missing => ⟨none, [missing.message]⟩

namespace Text

/-! ## The namespace -/

/-- The dotted name after the keyword `namespace` at the start of `t`. -/
def namespaceHere? (t : Text) : Option Text := do
  let rest ← (expect? "namespace".toList t).bind skipBlanks?
  let (name, _) ← name? isNamePart rest
  return name

/-- The name after the first keyword `namespace` of `t`, `before` being the character in front. -/
def namespaceAfter? (before : Option Char) : Text → Option Text
  | [] => none
  | c :: t =>
    if before.any isWord then namespaceAfter? (some c) t
    else (namespaceHere? (c :: t)).or (namespaceAfter? (some c) t)

def namespaceName (t : Text) : Search :=
  match t.namespaceAfter? none with
  | some name => .ok name
  | none => .error .namespaceName

/-! ## The start of a type declaration -/

/-- What follows the attributes at the start of `t`, each on one line and followed by blanks. -/
def afterLineAttributes (t : Text) : Text :=
  match _h : t with
  | '[' :: r =>
    match _hr : after? ']' r with
    | none => t
    | some rest =>
      if (r.take (r.length - rest.length)).contains '\n' then t
      else afterLineAttributes rest.trimStart
  | _ => t
termination_by t.length
decreasing_by
  have h₁ := length_lt_of_after? _hr
  have h₂ := length_trimStart_le rest
  simp only [List.length_cons]
  omega

/-- Whether a declaration can begin after the character `before`. -/
def beginsDeclaration (before : Option Char) : Bool :=
  before.all fun c ↦ c == '\n' || c == ';' || c == '{' || c == '}'

/-- What follows the attributes and modifiers at the start of a line. -/
def afterTypeModifiers (t : Text) : Text :=
  (dropKeywords typeModifiers (afterLineAttributes (t.dropWhile isGap))).2

/-- What follows the first keyword of `keywords` that `t` starts with. -/
def afterOneOf? (keywords : List Text) (t : Text) : Option Text :=
  keywords.findSome? (expect? · t)

/-- The name after one or more blanks, with what follows it. -/
def nameAfterBlanks? (t : Text) : Option (Text × Text) := t.skipBlanks?.bind (name? isWord)

/-- The class name in the declaration that starts `t`. -/
def classHere? (t : Text) : Option Text := do
  let rest ← expect? "class".toList t.afterTypeModifiers
  let (name, _) ← nameAfterBlanks? rest
  return name

/-- The name after the first class keyword of `t`, `before` being the character in front. -/
def classAfter? (before : Option Char) : Text → Option Text
  | [] => none
  | c :: t =>
    if beginsDeclaration before then (classHere? (c :: t)).or (classAfter? (some c) t)
    else classAfter? (some c) t

/-- The class that a file declares first. -/
def className (t : Text) : Search :=
  match t.classAfter? none with
  | some name => .ok name
  | none => .error .className

end Text

end CSharpOutline
