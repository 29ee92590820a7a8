import CSharpOutline.Text.Word

/-!
# Telling methods from properties

A signature is a method's when it ends with its parameter list. The brace that opens the body, and
the constraint clauses after the list, do not count as part of the signature.
-/

namespace CSharpOutline.Text

/-- Whether a constraint clause, `where` and a name and a colon, starts after the blanks at the
start of `t`. -/
def startsConstraint (t : Text) : Bool :=
  match (expect? "where".toList t.trimStart).bind skipBlanks? with
  | none => false
  | some rest =>
    match rest.takeWhile isWord with
    | [] => false
    | _ => (trimStart (rest.dropWhile isWord)).head? == some ':'

/-- Whether a closing parenthesis is followed by a constraint clause somewhere in the text. -/
def hasConstraintAfterParen : Text → Bool
  | [] => false
  | c :: t => (c == ')' && startsConstraint t) || hasConstraintAfterParen t

/-- The signature without the brace that opens the body and the blanks around. -/
def withoutBodyBrace (t : Text) : Text :=
  let t := t.trim
  if t.getLast? = some '{' then trimEnd t.dropLast else t

/-- Whether a signature ends with a parameter list, constraint clauses aside. -/
def endsWithParameters (signature : Text) : Bool :=
  let t := signature.withoutBodyBrace
  t.hasConstraintAfterParen || t.getLast? == some ')'

end CSharpOutline.Text
