import CSharpOutline.Text.Basic

/-!
# Tokens of a line

A line falls into comments, literals and single characters of code. Here the division is made with
lookahead: each token is cut off whole, where its end is found. The lexer makes the same division
one character at a time, which is what reading line by line needs; this is the form in which the
rules of the language are stated.

The tokens of a line put together give the line (`flatten_text_tokens`).
-/

namespace CSharpOutline

/-- A token of a line. The bodies of literals and comments include their end, if they have one. -/
inductive Token where
  | code (c : Char)
  /-- What follows `//`. -/
  | lineComment (body : Text)
  /-- What follows the opening slash and star. -/
  | blockComment (body : Text)
  /-- What follows the opening quote of a verbatim string. -/
  | verbatim (body : Text)
  /-- What follows the opening `quote` of a regular literal. -/
  | literal (quote : Char) (body : Text)
  deriving DecidableEq, Repr

namespace Token

def text : Token → Text
  | .code c => [c]
  | .lineComment body => '/' :: '/' :: body
  | .blockComment body => '/' :: '*' :: body
  | .verbatim body => '"' :: body
  | .literal quote body => quote :: body

/-! ## Where a token ends -/

/-- The length of a block comment's body: up to the first star and slash. -/
def blockCommentLength : Text → Nat
  | [] => 0
  | '*' :: '/' :: _ => 2
  | _ :: t => blockCommentLength t + 1

/-- The length of a verbatim string's body: up to the first quote that is not doubled. -/
def verbatimLength : Text → Nat
  | [] => 0
  | '"' :: '"' :: t => verbatimLength t + 2
  | '"' :: _ => 1
  | _ :: t => verbatimLength t + 1

/-- The length of a regular literal's body: up to the first quote that no backslash escapes. -/
def literalLength (quote : Char) : Text → Nat
  | [] => 0
  | '\\' :: _ :: t => literalLength quote t + 2
  | c :: t => if c = quote then 1 else literalLength quote t + 1

/-- Whether a double quote opens a verbatim string after the characters `before` and `last`. -/
def opensVerbatim (before last : Option Char) : Bool :=
  last == some '@' || (before == some '@' && last == some '$')

end Token

namespace Text

/-- The tokens of a line, of which the characters `before` and `last` have already been read. -/
def tokensAfter (before last : Option Char) (t : Text) : List Token :=
  match t with
  | [] => []
  | '/' :: '/' :: r => [.lineComment r]
  | '/' :: '*' :: r =>
    let n := Token.blockCommentLength r
    .blockComment (r.take n) :: tokensAfter none none (r.drop n)
  | '"' :: r =>
    if Token.opensVerbatim before last then
      let n := Token.verbatimLength r
      .verbatim (r.take n) :: tokensAfter none none (r.drop n)
    else
      let n := Token.literalLength '"' r
      .literal '"' (r.take n) :: tokensAfter none none (r.drop n)
  | '\'' :: r =>
    let n := Token.literalLength '\'' r
    .literal '\'' (r.take n) :: tokensAfter none none (r.drop n)
  | c :: r => .code c :: tokensAfter last (some c) r
termination_by t.length
decreasing_by all_goals simp only [List.length_cons, List.length_drop]; omega

/-- The tokens of a line. -/
def tokens (t : Text) : List Token := t.tokensAfter none none

theorem flatten_text_tokensAfter (before last : Option Char) (t : Text) :
    ((t.tokensAfter before last).map Token.text).flatten = t := by
  fun_induction tokensAfter before last t <;> simp_all [Token.text]

/-- Nothing is lost and nothing is added by cutting a line into tokens. -/
theorem flatten_text_tokens (t : Text) : (t.tokens.map Token.text).flatten = t :=
  flatten_text_tokensAfter none none t

end Text

end CSharpOutline
