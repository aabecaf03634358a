/-!
Finite binary64 numbers as exact values: a sign and a whole number of units of `2 ^ (-1074)`, of
which at most 53 bits from the highest one on are not zero.

Every operation takes the exact result as a quotient of natural numbers and rounds it to the nearest
number of the format, a tie going to the even significand. A result beyond the largest finite number
is no number.
-/

namespace CollectionRunner.Decimal

/-- A power of two. -/
def twoTo (n : Nat) : Nat := Nat.pow 2 n

/-- A power of ten. -/
def tenTo (n : Nat) : Nat := Nat.pow 10 n

/-- The natural number nearest to `num / den`; a tie goes to the even one. -/
def roundDiv (num den : Nat) : Nat :=
  let q := num / den
  let r := num % den
  if 2 * r < den then q else if den < 2 * r then q + 1 else q + q % 2

/-- `significand * 2 ^ shift` units of `2 ^ (-1074)`, with a sign. -/
structure Binary64 where
  negative : Bool
  significand : Nat
  shift : Nat
  deriving DecidableEq, Repr

namespace Binary64

/-- The exponent of the unit, without its sign. -/
def unitExponent : Nat := 1074

/-- The least significand of 53 bits. -/
def leastFull : Nat := 4503599627370496

/-- The largest shift of a finite number. -/
def maxShift : Nat := 2045

/-- Zero. -/
def zero : Binary64 := ⟨false, 0, 0⟩

instance : Inhabited Binary64 := ⟨zero⟩

/-- Whether the number is zero, of either sign. -/
def isZero (x : Binary64) : Bool := x.significand == 0

/-- The number of the other sign. -/
def neg (x : Binary64) : Binary64 := { x with negative := !x.negative }

/-- The numerator of the absolute value over `2 ^ unitExponent`. -/
def units (x : Binary64) : Nat := x.significand * twoTo x.shift

/-- The number nearest to `num / den`, unless that is beyond the finite ones. -/
def nearest? (num den : Nat) : Option Binary64 :=
  let scaled := num * twoTo unitExponent
  let shift := (scaled / den).log2 - 52
  let significand := roundDiv scaled (den * twoTo shift)
  let (significand, shift) :=
    if significand = 2 * leastFull then (leastFull, shift + 1) else (significand, shift)
  if shift ≤ maxShift then some ⟨false, significand, shift⟩ else none

/-- The product of the absolute values. -/
def mul? (x y : Binary64) : Option Binary64 :=
  nearest? (x.units * y.units) (twoTo (2 * unitExponent))

/-- The quotient of the absolute values. -/
def div? (x y : Binary64) : Option Binary64 :=
  nearest? x.units y.units

/-- The number nearest to `10 ^ n`. -/
def powerOfTen? (n : Nat) : Option Binary64 := nearest? (tenTo n) 1

/-- `x` times the power of ten of `exponent`: one rounded product or quotient with the rounded
power, after as many rounded quotients by `10 ^ 308` as an exponent below `-308` needs. Numbers too
large are no number, numbers too small become zero; `fuel` quotients are enough for that. -/
def scale? : (fuel : Nat) → Binary64 → (exponent : Int) → Option Binary64
  | fuel, x, exponent =>
    if exponent.natAbs ≤ 308 then
      match powerOfTen? exponent.natAbs with
      | none => none
      | some p => if 0 ≤ exponent then mul? x p else div? x p
    else if x.isZero then some x
    else if 0 ≤ exponent then none
    else
      match fuel with
      | 0 => some zero
      | fuel + 1 =>
        match (powerOfTen? 308).bind (div? x) with
        | none => none
        | some y => scale? fuel y (exponent + 308)

/-- The number read from the decimal digits `significand` and the power of ten `exponent`. -/
def ofDecimal? (negative : Bool) (significand : Nat) (exponent : Int) : Option Binary64 := do
  let x ← nearest? significand 1
  let y ← scale? 3 x exponent
  pure { y with negative := negative }

/-- The whole number nearest to the absolute value; a tie goes to the even one. -/
def roundNat (x : Binary64) : Nat := roundDiv x.units (twoTo unitExponent)

example : ofDecimal? false 1 0 = some ⟨false, leastFull, 1022⟩ := by decide +kernel
example : (ofDecimal? false 25 (-1)).map roundNat = some 2 := by decide +kernel
example : ofDecimal? false 1 400 = none := by decide +kernel

end Binary64

end CollectionRunner.Decimal
