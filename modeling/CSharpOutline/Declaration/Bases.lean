import CSharpOutline.Code.Group
import CSharpOutline.Declaration.Name

/-!
# Base types

The base list of a type follows the colon after its name, type parameters and primary constructor.
It ends at the body, at a semicolon or at the first constraint clause; its entries are separated by
the commas outside every group.
-/

namespace CSharpOutline.Text

/-! ## The first type declaration -/

def typeKeywords : List Text := ["class", "struct", "interface", "record"].map String.toList

/-- The keywords that may follow another type keyword, as in `record struct`. -/
def secondTypeKeywords : List Text := ["class", "struct"].map String.toList

/-- What follows the name of the type declaration that starts `t`. A second keyword is read as one
if a name follows it, and as the name otherwise. -/
def afterTypeHere? (t : Text) : Option Text := do
  let rest ← afterOneOf? typeKeywords t.afterTypeModifiers
  let second := rest.skipBlanks?.bind (afterOneOf? secondTypeKeywords)
  let (_, after) ← (second.bind nameAfterBlanks?).or (nameAfterBlanks? rest)
  return after

/-- What follows the name of the first type declaration of `t`, `before` being the character in
front. -/
def afterTypeFrom? (before : Option Char) : Text → Option Text
  | [] => none
  | c :: t =>
    if beginsDeclaration before then (afterTypeHere? (c :: t)).or (afterTypeFrom? (some c) t)
    else afterTypeFrom? (some c) t

/-! ## The base list -/

/-- Whether the keyword `where` stands at a stop of `t` as a whole word. -/
def startsWhere (t : Text) (s : Stop) : Except Fault Bool := do
  if !s.text.startsWith "where".toList then return false
  if s.offset ≠ 0 then
    match item? t (s.offset - 1) with
    | none => throw .noCharacter
    | some c => if isWord c then return false
  if t.length ≤ s.offset + 5 then return true
  match item? t (s.offset + 5) with
  | none => throw .noCharacter
  | some c => return !isWord c

/-- The offset of the first of the stops that ends a base list, if one does. -/
def endingStop? (t : Text) : List Stop → Except Fault (Option Int)
  | [] => return none
  | s :: stops => do
    if s.text.head?.any fun c ↦ c == '{' || c == ';' then return some s.offset
    if ← startsWhere t s then return some s.offset
    endingStop? t stops

/-- The offset at which the base list that starts at a signed offset ends. -/
def basesEnd (t : Text) (start : Int) : Except Fault Int := do
  let stops ← t.stopsFrom start
  return (← endingStop? t stops).getD t.length

/-- The name that an entry of a base list starts with, without type arguments or a call. -/
def entryName (entry : Text) : Text := trim (entry.takeWhile fun c ↦ c != '<' && c != '(')

/-- The text between the name of a type and its base list: type parameters and a primary
constructor are left out. -/
def afterTypeParameters (t : Text) : Text :=
  trimStart (afterGroup (trimStart (afterGroup t)))

def namesFrom (t : Text) (start : Nat) : Except Fault (List Text) := do
  let stop ← t.basesEnd start
  let list : Text := (t.take stop.toNat).drop start
  return ((list.splitOutermost [',']).map entryName).filter (!·.isEmpty)

/-- The names in the base list of the first type declaration, in order. The first of them is taken
for the base class, which can be left out. -/
def baseNames (t : Text) (includeBase : Bool) : Except Fault (List Text) := do
  match t.afterTypeFrom? none with
  | none => return []
  | some rest =>
    match afterTypeParameters rest with
    | ':' :: list =>
      let names ← t.namesFrom (t.length - list.length)
      return if includeBase then names else names.drop 1
    | _ => return []

end CSharpOutline.Text
