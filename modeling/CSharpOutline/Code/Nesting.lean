import CSharpOutline.Code.Bracket
import CSharpOutline.Code.Lexer

/-!
# Well-nested text

In well-nested text each closer matches the innermost open bracket. A single stack checks that for
the three kinds together, while a balance counts each kind for itself; the two agree on text that
the stack accepts.
-/

namespace CSharpOutline

/-- A lexer and the brackets that are open, the innermost first. -/
structure Nesting where
  lexer : Lexer := {}
  stack : List Bracket := []
  deriving DecidableEq, Repr

namespace Nesting

/-- The stack after a code character. A closer that does not match the innermost open bracket is
refused. -/
def match? (n : Nesting) (c : Char) : Option (List Bracket) :=
  match Bracket.ofOpener? c, Bracket.ofCloser? c with
  | some k, _ => some (k :: n.stack)
  | none, none => some n.stack
  | none, some k =>
    if n.lexer.closesArrow c then some n.stack
    else match n.stack with
      | [] => none
      | j :: rest => if j = k then some rest else none

/-- The nesting after one more character, unless the character is refused. -/
def step? (n : Nesting) (c : Char) : Option Nesting :=
  (if n.lexer.isCode c then n.match? c else some n.stack).map fun stack ↦ ⟨n.lexer.step c, stack⟩

def run? (n : Nesting) : Text → Option Nesting
  | [] => some n
  | c :: t => (n.step? c).bind (run? · t)

/-- Whether a text ends with no bracket open and refuses none of its characters. -/
def accepts (n : Nesting) (t : Text) : Bool := (n.run? t).any (·.stack.isEmpty)

/-- Whether the first bracket opened in `t` is closed by the last character of `t` and no earlier,
`n` being the nesting in front of `t`. -/
def closesAtEnd (n : Nesting) : Text → Bool
  | [] => false
  | c :: t =>
    match n.step? c with
    | none => false
    | some m => if m.stack.isEmpty then t.isEmpty else m.closesAtEnd t

@[simp] theorem run?_nil (n : Nesting) : n.run? [] = some n := rfl

@[simp] theorem run?_cons (n : Nesting) (c : Char) (t : Text) :
    n.run? (c :: t) = (n.step? c).bind (·.run? t) := rfl

theorem run?_append (n : Nesting) (s t : Text) :
    n.run? (s ++ t) = (n.run? s).bind (·.run? t) := by
  induction s generalizing n with
  | nil => rfl
  | cons c s ih =>
    rw [List.cons_append, run?_cons, run?_cons]
    cases n.step? c with
    | none => rfl
    | some m => exact ih m

end Nesting

namespace Text

/-- Whether every bracket of a text is matched. -/
def isNested (t : Text) : Bool := Nesting.accepts {} t

/-- Whether a text is one group: its first character is matched with its last, and every bracket
between them is matched. -/
def isGroup (t : Text) : Bool :=
  (t.head?.bind Bracket.ofOpener?).isSome && Nesting.closesAtEnd {} t

end Text

end CSharpOutline
