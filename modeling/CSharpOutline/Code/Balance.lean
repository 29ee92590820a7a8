import CSharpOutline.Code.Bracket
import CSharpOutline.Code.Lexer

/-!
# Balancing brackets

A balance is a lexer together with the depths it has counted so far. Only code characters count.
The three depths are independent of each other, so text that is not well nested still has a depth
of each kind. Angle brackets double as comparison operators, so counting them is optional, and the
`>` of an arrow `=>` never counts.
-/

namespace CSharpOutline

/-- A lexer and the depths it has counted. -/
structure Balance where
  lexer : Lexer := {}
  depths : Depths := {}
  /-- Whether angle brackets are counted. -/
  countsAngles : Bool := true
  deriving DecidableEq, Repr

namespace Balance

/-- The balance before any text, with every kind of bracket counted. -/
def fresh : Balance := {}

/-- The balance before any text, with angle brackets left out. -/
def withoutAngles : Balance := { countsAngles := false }

/-- Whether the next character `c` is part of the code. -/
def isCode (b : Balance) (c : Char) : Bool := b.lexer.isCode c

/-- Whether groups of kind `k` are counted. -/
def counts (b : Balance) (k : Bracket) : Bool := b.countsAngles || k != .angle

/-- The depths after a code character. -/
def count (b : Balance) (c : Char) : Depths :=
  match Bracket.ofOpener? c, Bracket.ofCloser? c with
  | some k, _ => if b.counts k then b.depths.push k else b.depths
  | none, some k =>
    if b.counts k && !b.lexer.closesArrow c then b.depths.pop k else b.depths
  | none, none => b.depths

def step (b : Balance) (c : Char) : Balance :=
  { b with
    lexer := b.lexer.step c
    depths := if b.isCode c then b.count c else b.depths }

def run (b : Balance) (t : Text) : Balance := t.foldl step b

/-- For each character of a text whether it is code, and the balance after it. -/
def trace (b : Balance) : Text → List (Bool × Balance)
  | [] => []
  | c :: t => (b.isCode c, b.step c) :: trace (b.step c) t

def atTop (b : Balance) : Bool := b.depths.total == 0

/-- Whether the next character `c` is code outside every group. -/
def isOutermost (b : Balance) (c : Char) : Bool := b.atTop && b.isCode c

def inLineComment (b : Balance) : Bool := b.lexer.mode == .lineComment

@[simp] theorem run_nil (b : Balance) : b.run [] = b := rfl

@[simp] theorem run_cons (b : Balance) (c : Char) (t : Text) :
    b.run (c :: t) = (b.step c).run t := rfl

theorem run_append (b : Balance) (s t : Text) : b.run (s ++ t) = (b.run s).run t :=
  List.foldl_append

@[simp] theorem step_lexer (b : Balance) (c : Char) : (b.step c).lexer = b.lexer.step c := rfl

@[simp] theorem step_countsAngles (b : Balance) (c : Char) :
    (b.step c).countsAngles = b.countsAngles := rfl

/-- Counting does not disturb the lexer. -/
theorem run_lexer (b : Balance) (t : Text) : (b.run t).lexer = b.lexer.run t := by
  induction t generalizing b with
  | nil => rfl
  | cons c t ih => rw [run_cons, ih, step_lexer, Lexer.run_cons]

/-! ## Stopping at a character -/

/-- The offset of the first character of `t` at which `stop` holds, given the balance before it. -/
def stopOffset? (stop : Balance → Char → Bool) (b : Balance) : Text → Option Nat
  | [] => none
  | c :: t => if stop b c then some 0 else (stopOffset? stop (b.step c) t).map (· + 1)

/-- The balance after `t`, unless `stop` holds at one of its characters. -/
def passes? (stop : Balance → Char → Bool) (b : Balance) : Text → Option Balance
  | [] => some b
  | c :: t => if stop b c then none else passes? stop (b.step c) t

/-- The number of the first line at which `stop` holds at some character. The line breaks are read
too, but nothing stops at them. -/
def stopLine? (stop : Balance → Char → Bool) (b : Balance) : List Text → Option Nat
  | [] => none
  | line :: rest =>
    match passes? stop b line with
    | none => some 0
    | some b' => (stopLine? stop (b'.step '\n') rest).map (· + 1)

/-- No group of kind `k` is open once the character is read. -/
def closed (k : Bracket) (b : Balance) (c : Char) : Bool := (b.step c).depths.of k == 0

/-- The character is a semicolon outside every group. -/
def endsStatement (b : Balance) (c : Char) : Bool := b.isOutermost c && c == ';'

end Balance

end CSharpOutline
