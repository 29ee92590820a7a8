import CSharpOutline.Text.Blank

/-!
# Whole numbers written as text

A plain numeral is an optional minus sign and digits that do not start with a needless zero. A text
that is not plain is tidied before it is read once more: spaces around it, a plus sign, leading
zeros, a fraction of zeros and single underscores between its digits say nothing about the number.

Plain numerals have a greatest number of digits. One with more digits is reported as such, unless it
had to be tidied.
-/

namespace CSharpOutline.Service

def valueOf (digits : Text) : Nat := digits.foldl (fun n c ↦ 10 * n + (c.toNat - '0'.toNat)) 0

/-- What a text is as a numeral. -/
inductive Numeral where
  | whole (n : Int)
  | tooLong
  | unreadable
  deriving DecidableEq, Repr

namespace Numeral

/-! ## Plain numerals -/

/-- The number of digits of the longest plain numeral. Its sign does not count. -/
def maxDigits : Nat := 4300

def signed (isNegative : Bool) (digits : Text) : Int :=
  if isNegative then -(valueOf digits : Int) else valueOf digits

/-- Reads the digits of a plain numeral. Too many of them are too many whatever follows. -/
def ofDigits (isNegative : Bool) (t : Text) : Numeral :=
  let digits := t.takeWhile Char.isDigit
  if t = ['0'] then .whole 0
  else if digits.isEmpty || digits.head? = some '0' then .unreadable
  else if maxDigits < digits.length then .tooLong
  else if digits.length = t.length then .whole (signed isNegative digits)
  else .unreadable

def plain : Text → Numeral
  | '-' :: t => ofDigits true t
  | t => ofDigits false t

/-! ## Tidying -/

/-- The blanks that may surround a number; the information separators are not among them. -/
def isSpace (c : Char) : Bool := isBlank c && !(0x1C ≤ c.toNat && c.toNat ≤ 0x1F)

def trimSpaces (t : Text) : Text :=
  ((t.dropWhile isSpace).reverse.dropWhile isSpace).reverse

/-- Whether a character may stand among leading zeros. -/
def isFiller (c : Char) : Bool := c == '0' || c == '_'

/-- A number without its leading zeros and the underscores among them. A minus sign may follow
them. The last of them stays when it is the only digit in front of a fraction or of the end. -/
def withoutZeros? : Text → Option Text
  | [] => none
  | '0' :: t =>
    let lastFiller := ('0' :: t.takeWhile isFiller).getLastD '0'
    match t.dropWhile isFiller with
    | [] => some [lastFiller]
    | '.' :: r => some (lastFiller :: '.' :: r)
    | c :: r => if c.isDigit || c == '-' then some (c :: r) else none
  | c :: t => if c.isDigit then some (c :: t) else none

/-- The text without a decimal point that only zeros follow, one of them at least. -/
def withoutFraction (t : Text) : Text :=
  match Text.after? '.' t with
  | some fraction =>
    if !fraction.isEmpty && fraction.all (· == '0') then t.take (t.length - fraction.length - 1)
    else t
  | none => t

/-- The text without its underscores, each of which has to stand alone between two characters. -/
def withoutUnderscores? : Text → Option Text
  | [] => none
  | [c] => if c = '_' then none else some [c]
  | c :: d :: t =>
    if c = '_' then none
    else if d = '_' then (withoutUnderscores? t).map (c :: ·)
    else (withoutUnderscores? (d :: t)).map (c :: ·)

/-- Tidies a number that has no sign in front. -/
def tidyUnsigned? (t : Text) : Option Text :=
  match withoutZeros? t with
  | none => none
  | some t => withoutUnderscores? (withoutFraction t)

/-- Tidies a text into what may be a plain numeral. -/
def tidy? (t : Text) : Option Text :=
  match trimSpaces t with
  | '+' :: t => tidyUnsigned? t
  | '-' :: t => (tidyUnsigned? t).map ('-' :: ·)
  | t => tidyUnsigned? t

/-! ## Reading -/

/-- Reads a text as a whole number, as it stands or else tidied. -/
def ofText (t : Text) : Numeral :=
  match plain t with
  | .unreadable =>
    match (tidy? t).map plain with
    | some (.whole n) => .whole n
    | _ => .unreadable
  | numeral => numeral

end Numeral

end CSharpOutline.Service
