/-!
# Brackets and depths

The three kinds of bracket that group code, and how many groups of each kind are open. A depth
never goes below zero: a closer without an opener is ignored.
-/

namespace CSharpOutline

/-- The kinds of bracket that group code. -/
inductive Bracket where
  | angle
  | paren
  | brace
  deriving DecidableEq, Repr

namespace Bracket

def ofOpener? : Char → Option Bracket
  | '<' => some .angle
  | '(' => some .paren
  | '{' => some .brace
  | _ => none

def ofCloser? : Char → Option Bracket
  | '>' => some .angle
  | ')' => some .paren
  | '}' => some .brace
  | _ => none

end Bracket

/-- How many groups of each kind are open. -/
structure Depths where
  angle : Nat := 0
  paren : Nat := 0
  brace : Nat := 0
  deriving DecidableEq, Repr

namespace Depths

/-- The number of open groups of one kind. -/
def of (d : Depths) : Bracket → Nat
  | .angle => d.angle
  | .paren => d.paren
  | .brace => d.brace

def total (d : Depths) : Nat := d.angle + d.paren + d.brace

/-- The depths with the one of kind `k` changed by `f`. -/
def modify (d : Depths) (f : Nat → Nat) : Bracket → Depths
  | .angle => { d with angle := f d.angle }
  | .paren => { d with paren := f d.paren }
  | .brace => { d with brace := f d.brace }

/-- One more group of kind `k` is open. -/
def push (d : Depths) (k : Bracket) : Depths := d.modify (· + 1) k

/-- The innermost group of kind `k` is closed, if one is open. -/
def pop (d : Depths) (k : Bracket) : Depths := d.modify (· - 1) k

theorem of_push (d : Depths) (k j : Bracket) :
    (d.push k).of j = d.of j + if j = k then 1 else 0 := by
  cases k <;> cases j <;> simp [push, modify, of]

theorem of_pop (d : Depths) (k j : Bracket) :
    (d.pop k).of j = d.of j - if j = k then 1 else 0 := by
  cases k <;> cases j <;> simp [pop, modify, of]

theorem total_eq_zero_iff (d : Depths) : d.total = 0 ↔ ∀ k, d.of k = 0 := by
  constructor
  · intro h k
    cases k <;> simp only [total, of] at h ⊢ <;> omega
  · intro h
    have h₁ := h .angle
    have h₂ := h .paren
    have h₃ := h .brace
    simp only [of] at h₁ h₂ h₃
    simp [total, h₁, h₂, h₃]

end Depths

end CSharpOutline
