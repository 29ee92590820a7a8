import CSharpOutline.Text.Basic

/-!
# Signed offsets

Positions come in as integers: from zero up they count from the start, below zero from the end, so
that `-1` names the last item. Reading onward from a negative offset takes the items up to the end
and then starts over with the first one, because the offset itself keeps growing through zero.
-/

namespace CSharpOutline

variable {α : Type}

/-- The position that a signed offset names among `n` items. -/
def position? (n : Nat) (i : Int) : Option Nat :=
  if 0 ≤ i then
    if i < n then some i.toNat else none
  else if -n ≤ i then some (n - i.natAbs) else none

theorem position?_lt {n k : Nat} {i : Int} (h : position? n i = some k) : k < n := by
  unfold position? at h
  split at h
  · split at h <;> simp at h
    omega
  · split at h <;> simp at h
    omega

theorem position?_natCast {n k : Nat} (h : k < n) : position? n k = some k := by
  simp [position?, h]

/-- The item that a signed offset names. -/
def item? (xs : List α) (i : Int) : Option α := (position? xs.length i).bind (xs[·]?)

/-- The items from a signed offset to the end. An offset before the first item stands for it, one
past the last item leaves nothing. -/
def itemsFrom (xs : List α) (i : Int) : List α :=
  if 0 ≤ i then xs.drop i.toNat else xs.drop (xs.length - i.natAbs)

/-- The items read onward from a signed offset, as far as the offset that names the last item. -/
def readFrom? (xs : List α) (start : Int) : Option (List α) :=
  if 0 ≤ start then some (xs.drop start.toNat)
  else if -xs.length ≤ start then some (xs.drop (xs.length - start.natAbs) ++ xs)
  else none

@[simp] theorem itemsFrom_natCast (xs : List α) (k : Nat) : itemsFrom xs k = xs.drop k := by
  simp [itemsFrom]

@[simp] theorem readFrom?_natCast (xs : List α) (k : Nat) :
    readFrom? xs k = some (xs.drop k) := by
  simp [readFrom?]

end CSharpOutline
