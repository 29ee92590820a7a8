import CSharpOutline.Text.Basic

/-!
# Telling code from literals and comments

The lexer reads one character at a time and never looks ahead. It knows which part of the program
the character belongs to, a *mode*, and, inside code, the little of what came before that can still
matter, a *trail*: `@` and `@$` make the next quote open a verbatim string, `/` may start a comment,
and `=` makes the next `>` an arrow.

A verbatim string ends at a quote that is not doubled, which only the character after the quote can
tell; `verbatimQuote` is the mode in between. A regular literal also ends at a line break.

The flag `escaping` says that the next character of a regular literal is taken as it is. It belongs
to the lexer and not to the literal: a literal cut short by a line break right after a backslash
leaves it set, and the next regular literal starts with it.
-/

namespace CSharpOutline

/-- What the preceding code characters can still do to the next one. -/
inductive Trail where
  /-- Nothing. -/
  | plain
  /-- The mark `@` makes a double quote open a verbatim string. -/
  | mark
  /-- The mark `@` followed by `$` does so too. -/
  | markDollar
  /-- A slash makes a second one, or a star, start a comment. -/
  | slash
  /-- An equals sign makes `>` the end of an arrow. -/
  | equals
  deriving DecidableEq, Repr

/-- The part of the program that the next character is read in. -/
inductive Mode where
  | code (trail : Trail)
  | lineComment
  /-- Inside a block comment; `star` when the last character could begin its end. -/
  | blockComment (star : Bool)
  /-- Inside a regular literal that the character `quote` opened. -/
  | literal (quote : Char)
  | verbatim
  /-- After a quote inside a verbatim string, which ends it unless another quote follows. -/
  | verbatimQuote
  deriving DecidableEq, Repr

namespace Trail

/-- Whether a double quote after this trail opens a verbatim string. -/
def marksVerbatim : Trail → Bool
  | .mark | .markDollar => true
  | _ => false

/-- The literal or comment that `c` opens after this trail, if it opens one. -/
def opens? (t : Trail) (c : Char) : Option Mode :=
  if c = '"' then some (if t.marksVerbatim then .verbatim else .literal c)
  else if c = '\'' then some (.literal c)
  else if t = .slash ∧ c = '/' then some .lineComment
  else if t = .slash ∧ c = '*' then some (.blockComment false)
  else none

/-- The trail that a code character leaves behind. -/
def next (t : Trail) (c : Char) : Trail :=
  if c = '@' then .mark
  else if c = '$' ∧ t = .mark then .markDollar
  else if c = '/' then .slash
  else if c = '=' then .equals
  else .plain

end Trail

namespace Mode

/-- The trail under which `c` is read as code. A verbatim string whose closing quote has been read
is over, unless `c` doubles that quote. -/
def trail? (m : Mode) (c : Char) : Option Trail :=
  match m with
  | .code t => some t
  | .verbatimQuote => if c = '"' then none else some .plain
  | _ => none

end Mode

/-- The state of the lexer between two characters. -/
structure Lexer where
  mode : Mode := .code .plain
  /-- The next character of a regular literal is taken as it is. -/
  escaping : Bool := false
  deriving DecidableEq, Repr

namespace Lexer

/-- Whether the next character `c` is part of the code. Line breaks, and the characters that open a
literal or complete the start of a comment, are not. -/
def isCode (l : Lexer) (c : Char) : Bool :=
  match l.mode.trail? c with
  | none => false
  | some t => c != '\n' && (t.opens? c).isNone

/-- Whether `c` is the `>` of an arrow, when it is read as code. -/
def closesArrow (l : Lexer) (c : Char) : Bool := c == '>' && l.mode == .code .equals

def codeStep (t : Trail) (c : Char) : Mode :=
  if c = '\n' then .code .plain
  else match t.opens? c with
    | some m => m
    | none => .code (t.next c)

/-- The state after a character inside a regular literal. -/
def literalStep (quote : Char) (escaping : Bool) (c : Char) : Lexer :=
  if c = '\n' then ⟨.code .plain, escaping⟩
  else if escaping then ⟨.literal quote, false⟩
  else if c = '\\' then ⟨.literal quote, true⟩
  else if c = quote then ⟨.code .plain, false⟩
  else ⟨.literal quote, false⟩

def step (l : Lexer) (c : Char) : Lexer :=
  match l.mode with
  | .code t => { l with mode := codeStep t c }
  | .lineComment => { l with mode := if c = '\n' then .code .plain else .lineComment }
  | .blockComment star =>
    { l with mode := if star ∧ c = '/' then .code .plain else .blockComment (c == '*') }
  | .literal quote => literalStep quote l.escaping c
  | .verbatim => { l with mode := if c = '"' then .verbatimQuote else .verbatim }
  | .verbatimQuote => { l with mode := if c = '"' then .verbatim else codeStep .plain c }

def run (l : Lexer) (t : Text) : Lexer := t.foldl step l

@[simp] theorem run_nil (l : Lexer) : l.run [] = l := rfl

@[simp] theorem run_cons (l : Lexer) (c : Char) (t : Text) :
    l.run (c :: t) = (l.step c).run t := rfl

theorem run_append (l : Lexer) (s t : Text) : l.run (s ++ t) = (l.run s).run t :=
  List.foldl_append

end Lexer

end CSharpOutline
