import CSharpOutline.Service.Numeral
import CSharpOutline.Service.Value

/-!
# Values written as JSON

A text is cut into tokens, marks and scalars, and the tokens are put together to one value. Scalars
are read here and not in the assembly, so that the shape of lists and objects is decided on tokens
alone.
-/

namespace CSharpOutline.Service.Json

/-! ## Numbers and words -/

/-- The digits at the start of a text and what follows them; there has to be one. -/
def digits? (t : Text) : Option (Text × Text) :=
  match t.takeWhile Char.isDigit with
  | [] => none
  | digits => some (digits, t.dropWhile Char.isDigit)

/-- The digits after a decimal point and what follows them; none without a point. -/
def fraction? : Text → Option (Text × Text)
  | '.' :: t => digits? t
  | t => some ([], t)

/-- The power of ten at the end of a number, zero when there is none. -/
def power? : Text → Option Int
  | [] => some 0
  | e :: t =>
    if e = 'e' || e = 'E' then
      let (isNegative, t) := match t with
        | '-' :: t => (true, t)
        | '+' :: t => (false, t)
        | t => (false, t)
      match digits? t with
      | some (digits, []) => some (Numeral.signed isNegative digits)
      | _ => none
    else none

/-- A number with the given sign, whole unless it has a point or an exponent. -/
def unsigned? (isNegative : Bool) (t : Text) : Option Value := do
  let (digits, rest) ← digits? t
  if digits.length ≠ 1 && digits.head? = some '0' then none
  else if rest.isEmpty then return .whole (Numeral.signed isNegative digits)
  else
    let (fraction, rest) ← fraction? rest
    let power ← power? rest
    return .decimal ⟨Numeral.signed isNegative (digits ++ fraction), power - fraction.length⟩

/-- The value of a run of scalar characters: a number or one of the three words. -/
def scalar? (t : Text) : Option Value :=
  if t = "null".toList then some .null
  else if t = "true".toList then some (.bool true)
  else if t = "false".toList then some (.bool false)
  else match t with
    | '-' :: t => unsigned? true t
    | t => unsigned? false t

/-- The characters of numbers and words. -/
def isScalarPart (c : Char) : Bool := c.isAlphanum || c == '+' || c == '-' || c == '.'

/-! ## Quoted text -/

def hexValue? (c : Char) : Option Nat :=
  if c.isDigit then some (c.toNat - '0'.toNat)
  else if 'a' ≤ c && c ≤ 'f' then some (c.toNat - 'a'.toNat + 10)
  else if 'A' ≤ c && c ≤ 'F' then some (c.toNat - 'A'.toNat + 10)
  else none

/-- The value of four hexadecimal digits. -/
def hexUnit? (a b c d : Char) : Option Nat := do
  return ((← hexValue? a) * 16 + (← hexValue? b)) * 256 + ((← hexValue? c) * 16 + (← hexValue? d))

/-- The character that a one-letter escape stands for. -/
def escape? : Char → Option Char
  | '"' => some '"'
  | '\\' => some '\\'
  | '/' => some '/'
  | 'b' => some (Char.ofNat 0x08)
  | 'f' => some (Char.ofNat 0x0C)
  | 'n' => some '\n'
  | 'r' => some '\r'
  | 't' => some '\t'
  | _ => none

/-- Reads up to the closing quote: the code units of the text, with what follows the quote. A
character that is written out counts as one unit. -/
def units? : Text → Option (List Nat × Text)
  | [] => none
  | '"' :: t => some ([], t)
  | '\\' :: 'u' :: a :: b :: c :: d :: t =>
    match hexUnit? a b c d, units? t with
    | some unit, some (units, rest) => some (unit :: units, rest)
    | _, _ => none
  | '\\' :: c :: t =>
    match escape? c, units? t with
    | some c, some (units, rest) => some (c.toNat :: units, rest)
    | _, _ => none
  | c :: t =>
    if c.toNat < 0x20 || c = '\\' then none
    else match units? t with
      | some (units, rest) => some (c.toNat :: units, rest)
      | none => none

/-- What follows a quoted text is shorter than what follows its opening quote. -/
theorem length_lt_of_units? {t rest : Text} {units : List Nat} (h : units? t = some (units, rest)) :
    rest.length < t.length := by
  fun_induction units? t generalizing units rest with
  | case1 | case4 | case6 | case7 | case9 => simp at h
  | case2 t =>
    obtain ⟨-, rfl⟩ : [] = units ∧ t = rest := by simpa using h
    simp
  | case3 a b c d t unit units' rest' ht _ ih =>
    obtain ⟨-, rfl⟩ : unit :: units' = units ∧ rest' = rest := by simpa using h
    have := ih ht
    simp only [List.length_cons]
    omega
  | case5 c t _ c' units' rest' ht _ ih =>
    obtain ⟨-, rfl⟩ : c'.toNat :: units' = units ∧ rest' = rest := by simpa using h
    have := ih ht
    simp only [List.length_cons]
    omega
  | case8 c t _ _ _ _ units' rest' ht ih =>
    obtain ⟨-, rfl⟩ : c.toNat :: units' = units ∧ rest' = rest := by simpa using h
    have := ih ht
    simp only [List.length_cons]
    omega

/-- The character of a code point. -/
def char? (n : Nat) : Option Char := if n.isValidChar then some (Char.ofNat n) else none

/-- The characters of a sequence of code units: a high and a low surrogate are one character, and a
surrogate alone is none. -/
def chars? : List Nat → Option Text
  | [] => some []
  | [n] => (char? n).map ([·])
  | n :: m :: units =>
    if 0xD800 ≤ n && n < 0xDC00 && 0xDC00 ≤ m && m < 0xE000 then
      match char? (0x10000 + (n - 0xD800) * 0x400 + (m - 0xDC00)), chars? units with
      | some c, some t => some (c :: t)
      | _, _ => none
    else
      match char? n, chars? (m :: units) with
      | some c, some t => some (c :: t)
      | _, _ => none

/-! ## Tokens -/

/-- A token: a mark of structure, or a value without parts. -/
inductive Token where
  | mark (c : Char)
  | scalar (v : Value)

/-- The marks of structure. -/
def isMark (c : Char) : Bool := c ∈ ['[', ']', '\x7b', '\x7d', ',', ':']

/-- The blanks between tokens. -/
def isLayout (c : Char) : Bool := c ∈ [' ', '\t', '\n', '\r']

def tokens? (t : Text) : Option (List Token) :=
  match t with
  | [] => some []
  | c :: t =>
    if isLayout c then tokens? t
    else if isMark c then (tokens? t).map (.mark c :: ·)
    else if c = '"' then
      match _h : units? t with
      | none => none
      | some (units, rest) =>
        match chars? units with
        | none => none
        | some s => (tokens? rest).map (.scalar (.text s) :: ·)
    else
      match scalar? (c :: t.takeWhile isScalarPart) with
      | none => none
      | some v => (tokens? (t.dropWhile isScalarPart)).map (.scalar v :: ·)
termination_by t.length
decreasing_by
  · simp
  · simp
  · exact Nat.lt_succ_of_lt (length_lt_of_units? _h)
  · exact Nat.lt_succ_of_le (List.dropWhile_suffix _).length_le

/-! ## Assembly -/

/-- Adds a field in front of those that follow it. Of two fields of one name the later counts. -/
def addField (name : String) (v : Value) (fields : List (String × Value)) :
    List (String × Value) :=
  if (fields.lookup name).isSome then fields else (name, v) :: fields

mutual

/-- Reads one value, with the tokens that follow it. -/
def value? : (fuel : Nat) → List Token → Option (Value × List Token)
  | 0, _ => none
  | _ + 1, .scalar v :: ts => some (v, ts)
  | _ + 1, .mark '[' :: .mark ']' :: ts => some (.list [], ts)
  | n + 1, .mark '[' :: ts => (items? n ts).map fun (items, ts) ↦ (.list items, ts)
  | _ + 1, .mark '\x7b' :: .mark '\x7d' :: ts => some (.object [], ts)
  | n + 1, .mark '\x7b' :: ts => (fields? n ts).map fun (fields, ts) ↦ (.object fields, ts)
  | _ + 1, _ => none

/-- Reads the items of a list up to its closing mark. -/
def items? : (fuel : Nat) → List Token → Option (List Value × List Token)
  | 0, _ => none
  | n + 1, ts =>
    match value? n ts with
    | some (v, .mark ',' :: ts) => (items? n ts).map fun (items, ts) ↦ (v :: items, ts)
    | some (v, .mark ']' :: ts) => some ([v], ts)
    | _ => none

/-- Reads the fields of an object up to its closing mark. -/
def fields? : (fuel : Nat) → List Token → Option (List (String × Value) × List Token)
  | n + 1, .scalar (.text name) :: .mark ':' :: ts =>
    match value? n ts with
    | some (v, .mark ',' :: ts) =>
      (fields? n ts).map fun (fields, ts) ↦ (addField (String.ofList name) v fields, ts)
    | some (v, .mark '\x7d' :: ts) => some ([(String.ofList name, v)], ts)
    | _ => none
  | _, _ => none

end

/-- The value that a text writes. Each token is looked at twice at most, which bounds the depth. -/
def parse? (t : Text) : Option Value :=
  match tokens? t with
  | none => none
  | some ts =>
    match value? (2 * ts.length + 1) ts with
    | some (v, []) => some v
    | _ => none

end CSharpOutline.Service.Json
