import CSharpOutline.Text.Basic
import CSharpOutline.Text.PrintableRanges

/-!
# Quoted text

How a word is shown inside a message: between single quotes, or between double quotes when it holds
a single quote and no double one. The quote in use and the backslash are escaped, and so is every
character that is not printable, so that the message stays on one line and shows all of the word.
-/

namespace CSharpOutline

/-- The characters that are shown as they are. The space is the only separator among them. -/
def isPrintable (c : Char) : Bool :=
  if c.toNat < 0x80 then 0x20 ≤ c.toNat && c.toNat ≤ 0x7E
  else printableRanges.any fun r ↦ r.1 ≤ c.toNat && c.toNat ≤ r.2

namespace Text

/-- The quote a word is shown in. -/
def quoteFor (t : Text) : Char := if t.contains '\'' && !t.contains '"' then '"' else '\''

/-- The last `width` hexadecimal digits of a number. -/
def hexDigits : (width n : Nat) → Text
  | 0, _ => []
  | width + 1, n => hexDigits width (n / 16) ++ [Nat.digitChar (n % 16)]

@[simp] theorem length_hexDigits (width n : Nat) : (hexDigits width n).length = width := by
  induction width generalizing n with
  | zero => rfl
  | succ width ih => simp [hexDigits, ih]

/-- A character shown by its code point, in as many digits as its size asks for. -/
def codeEscape (c : Char) : Text :=
  if c.toNat < 0x100 then '\\' :: 'x' :: hexDigits 2 c.toNat
  else if c.toNat < 0x10000 then '\\' :: 'u' :: hexDigits 4 c.toNat
  else '\\' :: 'U' :: hexDigits 8 c.toNat

/-- One character as it is shown between the quotes `q`. -/
def escaped (q : Char) (c : Char) : Text :=
  if c = q || c = '\\' then ['\\', c]
  else if c = '\n' then ['\\', 'n']
  else if c = '\r' then ['\\', 'r']
  else if c = '\t' then ['\\', 't']
  else if isPrintable c then [c]
  else codeEscape c

/-- A word as it is shown inside a message. -/
def quoted (t : Text) : Text :=
  let q := t.quoteFor
  q :: (t.flatMap (escaped q) ++ [q])

end Text

end CSharpOutline
