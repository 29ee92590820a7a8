/-!
# Decimals and the nearest binary number

A number that is written with a point or an exponent is a decimal. It is held as the binary number
nearest to it: a significand of 53 bits and an exponent of the double format, a half going to the
even significand. Only that number decides whether the decimal counts as whole, so a fraction that
is too small to be held is no fraction. All of it is exact arithmetic on natural numbers.
-/

namespace CSharpOutline.Service

/-! ## Rounding a quotient -/

/-- The whole number nearest to a quotient, the even one of two that are equally near. -/
def roundDiv (num den : Nat) : Nat :=
  let quotient := num / den
  let twice := 2 * (num % den)
  if twice < den || (twice == den && quotient % 2 == 0) then quotient else quotient + 1

/-- Rounding moves a quotient by half a unit at most. -/
theorem roundDiv_near {num den : Nat} (h : 0 < den) :
    2 * num ≤ (2 * roundDiv num den + 1) * den ∧ 2 * roundDiv num den * den ≤ 2 * num + den := by
  have hdiv : den * (num / den) + num % den = num := Nat.div_add_mod num den
  have hmod : num % den < den := Nat.mod_lt num h
  have hcomm : (num / den) * den = den * (num / den) := Nat.mul_comm _ _
  unfold roundDiv
  by_cases hc : 2 * (num % den) < den ∨ 2 * (num % den) = den ∧ num / den % 2 = 0
  · rw [if_pos (by simpa using hc)]
    have hle : 2 * (num % den) ≤ den := by omega
    rw [Nat.add_mul, Nat.mul_assoc, hcomm]
    omega
  · rw [if_neg (by simpa using hc)]
    have hle : den ≤ 2 * (num % den) := by omega
    rw [Nat.mul_add, Nat.add_mul, Nat.add_mul, Nat.mul_assoc, hcomm]
    omega

/-! ## Binary numbers -/

/-- The number `significand * 2 ^ exponent`. -/
structure Binary where
  significand : Int
  exponent : Int
  deriving DecidableEq, Repr

namespace Binary

def precision : Nat := 53

def minExponent : Int := -1074

def maxExponent : Int := 971

/-- The whole number that a binary number equals, if it equals one. -/
def whole? (b : Binary) : Option Int :=
  let unit : Int := Nat.pow 2 b.exponent.natAbs
  if 0 ≤ b.exponent then some (b.significand * unit)
  else if b.significand % unit = 0 then some (b.significand / unit)
  else none

/-- The greatest exponent `k` for which `2 ^ k` does not exceed a positive quotient. -/
def log (num den : Nat) : Int :=
  let k : Int := (num.log2 : Int) - den.log2
  if den * Nat.pow 2 k.toNat ≤ num * Nat.pow 2 (-k).toNat then k else k - 1

/-- The binary number nearest to a positive quotient, or nothing beyond the greatest one. -/
def ofQuotient? (num den : Nat) : Option Binary :=
  let exponent := max (log num den - (precision - 1)) minExponent
  let significand :=
    roundDiv (num * Nat.pow 2 (-exponent).toNat) (den * Nat.pow 2 exponent.toNat)
  if maxExponent < exponent || (exponent == maxExponent && significand == Nat.pow 2 precision) then
    none
  else some ⟨significand, exponent⟩

end Binary

/-! ## Decimals -/

/-- The number `mantissa * 10 ^ exponent`. -/
structure Decimal where
  mantissa : Int
  exponent : Int
  deriving DecidableEq, Repr

namespace Decimal

/-- Whether a decimal is less than half of the least binary number, because of its exponent. -/
def isNegligible (d : Decimal) : Bool := (d.mantissa.natAbs.log2 : Int) + 1 + 3 * d.exponent < -1075

/-- The binary number nearest to a decimal, or nothing when it is beyond the greatest one. An
exponent that settles the matter by itself is not multiplied out. -/
def nearest? (d : Decimal) : Option Binary :=
  let size := d.mantissa.natAbs
  if size = 0 || d.isNegligible then some ⟨0, 0⟩
  else if 308 < d.exponent then none
  else
    (Binary.ofQuotient? (size * Nat.pow 10 d.exponent.toNat)
      (Nat.pow 10 (-d.exponent).toNat)).map fun b ↦
        { b with significand := d.mantissa.sign * b.significand }

end Decimal

end CSharpOutline.Service
