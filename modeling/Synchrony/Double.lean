/-!
# Finite binary floating point numbers

A `Double` is a finite number of the 64-bit binary format, `± mantissa · 2 ^ (exponent − 1074)`,
in its one normalised form. Rounding to the nearest such number, ties to the even mantissa, is
done in exact arithmetic on natural numbers (`Double.ofRatio?`).
-/

namespace Synchrony

/-- A finite number `± mantissa · 2 ^ (exponent − 1074)`; `normal` makes the form unique. -/
structure Double where
  negative : Bool
  mantissa : Nat
  exponent : Nat
  normal : mantissa < Nat.pow 2 53 ∧ exponent ≤ 2045 ∧ (exponent = 0 ∨ Nat.pow 2 52 ≤ mantissa)
deriving DecidableEq

namespace Double

/-- Positive or negative zero. -/
def zero (negative : Bool) : Double := ⟨negative, 0, 0, by decide⟩

/-- Whether the number is one of the two zeros. -/
def isZero (x : Double) : Bool := x.mantissa == 0

/-- Equality of numbers: the two zeros are one number. -/
def same (x y : Double) : Bool := x = y || (x.isZero && y.isZero)

/-- The same number with another sign. -/
def withSign (negative : Bool) (x : Double) : Double := { x with negative }

/-! ### Rounding -/

/-- The quotient rounded to the nearest natural number, a tie going to the even one. -/
def roundDiv (num den : Nat) : Nat :=
  let q := num / den
  let r := num % den
  if 2 * r < den ∨ (2 * r = den ∧ q % 2 = 0) then q else q + 1

/-- The number nearest to `± num / den`, if it is within range. -/
def ofRatio? (negative : Bool) (num den : Nat) : Option Double :=
  let scaled := num * Nat.pow 2 1074
  let e := (scaled / den).log2 - 52
  let m := roundDiv scaled (den * Nat.pow 2 e)
  let (m, e) := if m = Nat.pow 2 53 then (Nat.pow 2 52, e + 1) else (m, e)
  if h : m < Nat.pow 2 53 ∧ e ≤ 2045 ∧ (e = 0 ∨ Nat.pow 2 52 ≤ m) then some ⟨negative, m, e, h⟩ else none

/-- The nearest number to a natural number. -/
def ofNat? (n : Nat) : Option Double := ofRatio? false n 1

/-- The product, rounded. -/
def mul? (x y : Double) : Option Double :=
  ofRatio? (x.negative != y.negative)
    (x.mantissa * y.mantissa * Nat.pow 2 (x.exponent + y.exponent)) (Nat.pow 2 2148)

/-- The quotient by a number other than zero, rounded. -/
def div? (x y : Double) : Option Double :=
  ofRatio? (x.negative != y.negative) (x.mantissa * Nat.pow 2 x.exponent)
    (y.mantissa * Nat.pow 2 y.exponent)

/-- The number nearest to a power of ten. -/
def pow10? (n : Nat) : Option Double := ofRatio? false (Nat.pow 10 n) 1

/-! ### Decimal literals -/

/--
Multiplies by a power of ten: one rounded multiplication or division by the rounded power, after
as many divisions by `10 ^ 308` as a smaller exponent needs. There is no result out of range.
-/
def scale? (x : Double) (e : Int) : Option Double :=
  if x.isZero then some x
  else if 308 < e then none
  else if 0 ≤ e then do x.mul? (← pow10? e.toNat)
  else if -308 ≤ e then do x.div? (← pow10? (-e).toNat)
  else do scale? (← x.div? (← pow10? 308)) (e + 308)
termination_by (-e).toNat
decreasing_by omega

/-- The number a literal with these digits and this power of ten stands for. -/
def ofDecimal? (negative : Bool) (significand : Nat) (e : Int) : Option Double := do
  let x ← (← ofNat? significand).scale? e
  pure (x.withSign negative)

end Double

end Synchrony
