import CSharpOutline.Code.Lexer

/-!
# Trailing comments

A line comment starts at a slash that is code and has another slash right after it. What stands in
front of the first such slash is what the line says.
-/

namespace CSharpOutline

namespace Lexer

/-- The text in front of the first line comment that starts in it, `l` being the state in front of
the text. The whole text is kept if none starts. -/
def beforeComment (l : Lexer) : Text → Text
  | [] => []
  | c :: t =>
    if (l.step c).mode = .code .slash ∧ t.head? = some '/' then []
    else c :: beforeComment (l.step c) t

end Lexer

namespace Text

/-- The text without its trailing `//` comment. Slashes inside a literal or block comment start
none. -/
def withoutComment (t : Text) : Text := Lexer.beforeComment {} t

end Text

end CSharpOutline
