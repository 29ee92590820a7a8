import CSharpOutline.Code.Outermost

/-!
# Groups

A group runs from an opener to the closer that brings the depth of its kind back to zero. Only that
kind matters: brackets of the other kinds may cross it.
-/

namespace CSharpOutline.Text

/-- The offset of the closer of the group that the first character of `t` opens. -/
def closing? : Text → Option Nat
  | [] => none
  | c :: t =>
    match Bracket.ofOpener? c with
    | none => none
    | some k => Balance.fresh.stopOffset? (Balance.closed k) (c :: t)

/-- The offset of the closer of the group opened at a signed offset, read onward from there, or
`-1` when there is no such group or closer. -/
def closingAt (t : Text) (i : Int) : Except Fault Int :=
  match item? t i, readFrom? t i with
  | some _, some rest => .ok ((closing? rest).elim (-1) (i + ·))
  | _, _ => .error .noCharacter

/-- The text after the angle or parenthesis group that it starts with, or the whole text if it
starts with none. A group that is never closed runs to the end. -/
def afterGroup : Text → Text
  | [] => []
  | c :: t =>
    if c = '<' ∨ c = '(' then
      match closing? (c :: t) with
      | none => []
      | some k => t.drop k
    else c :: t

/-- The offset after the angle or parenthesis group that starts at a signed offset, or that offset
if none starts there. A group that is never closed runs to the end. -/
def afterGroupAt (t : Text) (i : Int) : Except Fault Int :=
  if t.length ≤ i then .ok i
  else match item? t i with
    | none => .error .noCharacter
    | some c =>
      if c = '<' ∨ c = '(' then do
        let close ← t.closingAt i
        return if close < 0 then t.length else close + 1
      else .ok i

theorem length_afterGroup_le (t : Text) : t.afterGroup.length ≤ t.length := by
  cases t with
  | nil => simp [afterGroup]
  | cons c t =>
    rw [afterGroup]
    split
    · split
      · simp
      · simp only [List.length_drop, List.length_cons]
        omega
    · exact Nat.le_refl _

theorem length_afterGroup_lt {c : Char} (t : Text) (h : c = '<' ∨ c = '(') :
    (afterGroup (c :: t)).length < (c :: t).length := by
  rw [afterGroup, if_pos h]
  split
  · simp
  · simp only [List.length_drop, List.length_cons]
    omega

end CSharpOutline.Text
