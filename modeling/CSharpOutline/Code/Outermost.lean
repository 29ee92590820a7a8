import CSharpOutline.Code.Balance
import CSharpOutline.Fault
import CSharpOutline.Text.Offset

/-!
# Code outside every group

A *stop* is a place where code stands outside every group: its offset and the text from there on.
The opener of an outermost group is such a place; what the group holds, and its closer, are not.
Separators of a list, and the words that end a declaration, are looked for among the stops.
-/

namespace CSharpOutline

/-- A place in a text: its offset and the text that starts there. -/
structure Stop where
  offset : Int
  text : Text
  deriving DecidableEq, Repr

namespace Balance

/-- The stops of `t`, whose first character has the offset `offset`. -/
def stops (b : Balance) (offset : Int) : Text → List Stop
  | [] => []
  | c :: t =>
    if b.isOutermost c then ⟨offset, c :: t⟩ :: stops (b.step c) (offset + 1) t
    else stops (b.step c) (offset + 1) t

/-- The pieces of `t` between the outermost characters that equal the separator. A separator that
is not one character long separates nothing. -/
def pieces (separator : Text) (b : Balance) : Text → List Text
  | [] => [[]]
  | c :: t =>
    if b.isOutermost c && separator == [c] then [] :: pieces separator (b.step c) t
    else (pieces separator (b.step c) t).modifyHead (c :: ·)

end Balance

namespace Text

/-- The stops of a text read onward from a signed offset. -/
def stopsFrom (t : Text) (start : Int) : Except Fault (List Stop) :=
  if 0 ≤ start then .ok (Balance.fresh.stops start (t.drop start.toNat))
  else if -t.length ≤ start then
    let last := itemsFrom t start
    .ok (Balance.fresh.stops start last ++ (Balance.fresh.run last).stops 0 t)
  else .error .noCharacter

/-- The pieces of a text between its outermost separators. -/
def splitOutermost (t : Text) (separator : Text) : List Text :=
  Balance.fresh.pieces separator t

theorem stopsFrom_natCast (t : Text) (k : Nat) :
    t.stopsFrom k = .ok (Balance.fresh.stops k (t.drop k)) := by
  simp [stopsFrom]

end Text

end CSharpOutline
