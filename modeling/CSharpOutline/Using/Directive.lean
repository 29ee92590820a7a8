import CSharpOutline.Text.Word

/-!
# Using directives

A using directive stands on a line of its own: the keyword, with `global` in front if need be, then
a namespace or type, perhaps behind `static` or behind an alias and an equals sign, and a semicolon.
Everything up to the semicolon is told apart by the equals sign alone, since no other part of a
directive may hold one.
-/

namespace CSharpOutline.Text

/-- The characters of a namespace or type in a directive, and the blanks around it. -/
def isTargetPart (c : Char) : Bool :=
  isWord c || c == '.' || c == ':' || c == '<' || c == '>' || c == ',' || isGap c

/-- What is left after one space or tabulator and those that follow it. -/
def skipGaps? : Text → Option Text
  | [] => none
  | c :: t => if isGap c then some (t.dropWhile isGap) else none

/-- What follows the keyword `using`, with or without `global` in front, at the start of a line. -/
def afterUsing? (line : Text) : Option Text :=
  let t := line.dropWhile isGap
  expect? "using".toList ((expect? "global".toList t).bind skipGaps? |>.getD t)

/-- Whether a text is an alias name with spaces and tabulators after it. -/
def isAliasName (t : Text) : Bool :=
  match name? isWord t with
  | none => false
  | some (_, rest) => rest.all isGap

/-- Whether a text is what may stand between `using` and an equals sign: one or more gaps and an
alias name, `static` and a gap possibly between. -/
def isAlias (t : Text) : Bool :=
  match t.skipGaps? with
  | none => false
  | some rest =>
    isAliasName rest || ((expect? "static".toList rest).bind skipGaps?).any isAliasName

def isTarget (t : Text) : Bool := !t.isEmpty && t.all isTargetPart

/-- Whether a text may stand between `using` and the semicolon. -/
def isUsingBody (body : Text) : Bool :=
  match after? '=' body with
  | some target => isAlias (body.take (body.length - target.length - 1)) && isTarget target
  | none => body.head?.any isGap && isTarget (body.drop 1)

/-- The line endings that a directive may carry. -/
def directiveEndings : List Text := ["", "\r", "\n", "\r\n", "\n\n", "\r\n\n"].map String.toList

def isUsingLine (line : Text) : Bool :=
  match line.afterUsing? with
  | none => false
  | some rest =>
    match after? ';' rest with
    | none => false
    | some tail =>
      isUsingBody (rest.take (rest.length - tail.length - 1)) &&
        directiveEndings.contains (tail.dropWhile isGap)

end CSharpOutline.Text
