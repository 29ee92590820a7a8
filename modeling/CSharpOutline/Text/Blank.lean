import CSharpOutline.Text.Basic

/-!
# Blank characters

A character is blank when it separates words without being visible: the tabulation and line
controls, the four information separators, and every space of Unicode. Zero-width characters such
as U+200B are not blank.
-/

namespace CSharpOutline

/-- The characters that separate words. -/
def isBlank (c : Char) : Bool :=
  let n := c.toNat
  (0x09 ≤ n && n ≤ 0x0D) || (0x1C ≤ n && n ≤ 0x20) || n == 0x85 || n == 0xA0 || n == 0x1680 ||
    (0x2000 ≤ n && n ≤ 0x200A) || n == 0x2028 || n == 0x2029 || n == 0x202F || n == 0x205F ||
    n == 0x3000

/-- Spaces and tabulators, the blanks that keep to one line of a declaration. -/
def isGap (c : Char) : Bool := c == ' ' || c == '\t'

theorem isBlank_of_isWhitespace {c : Char} (h : c.isWhitespace = true) : isBlank c = true := by
  simp only [Char.isWhitespace, Bool.or_eq_true, decide_eq_true_eq] at h
  rcases h with ((rfl | rfl) | rfl) | rfl <;> decide

namespace Text

def trimStart (t : Text) : Text := t.dropWhile isBlank

def trimEnd (t : Text) : Text := (t.reverse.dropWhile isBlank).reverse

def trim (t : Text) : Text := t.trimStart.trimEnd

def allBlank (t : Text) : Bool := t.all isBlank

theorem length_trimStart_le (t : Text) : t.trimStart.length ≤ t.length :=
  (List.dropWhile_suffix _).length_le

/-- What is left after one blank and those that follow it, when the text starts with a blank. -/
def skipBlanks? : Text → Option Text
  | [] => none
  | c :: t => if isBlank c then some (trimStart t) else none

theorem length_lt_of_skipBlanks? {t rest : Text} (h : t.skipBlanks? = some rest) :
    rest.length < t.length := by
  cases t with
  | nil => simp [skipBlanks?] at h
  | cons c t =>
    simp only [skipBlanks?] at h
    split at h
    · obtain rfl := Option.some.inj h
      exact Nat.lt_succ_of_le (length_trimStart_le t)
    · simp at h

end Text

end CSharpOutline
