import CollectionRunner.Decimal.Binary64

/-!
The shortest decimal digits that read back as a given number.

For one digit, two digits, and so on, the two points of the decimal grid next to the number are
tried: a point is taken when it lies in the interval of the reals that round to the number. Of two
such points the nearer one is taken, and the even one when both are equally near.
-/

namespace CollectionRunner.Decimal

/-- The decimal exponent of `num / den ≥ 1`: the greatest `e` with `10 ^ e ≤ num / den`. -/
def upExponent : (fuel : Nat) → (whole : Nat) → Nat
  | 0, _ => 0
  | fuel + 1, whole => if whole < 10 then 0 else upExponent fuel (whole / 10) + 1

/-- The least `j` from `start` on with `den ≤ num * 10 ^ j`, if it is at most `fuel` away. -/
def downExponent : (fuel : Nat) → (num den start : Nat) → Nat
  | 0, _, _, start => start
  | fuel + 1, num, den, start =>
    if den ≤ num then start else downExponent fuel (num * 10) den (start + 1)

/-- The greatest `e` with `10 ^ e ≤ num / den`, for a positive quotient of binary64 size. -/
def decimalExponent (num den : Nat) : Int :=
  if den ≤ num then (upExponent 400 (num / den) : Int) else -(downExponent 400 num den 0 : Int)

/-- Digits and the power of ten they are multiplied with. -/
structure Digits where
  digits : Nat
  exponent : Int
  deriving DecidableEq, Repr

/-- The interval of the reals that round to a number, with the number itself, as numerators over one
denominator. -/
structure Interval where
  low : Nat
  value : Nat
  high : Nat
  denominator : Nat
  closed : Bool

/-- Whether `num / den` lies in the interval. -/
def Interval.holds (i : Interval) (num den : Nat) : Bool :=
  if i.closed then
    i.low * den ≤ num * i.denominator && num * i.denominator ≤ i.high * den
  else
    i.low * den < num * i.denominator && num * i.denominator < i.high * den

/-- The interval of a number that is not zero: half a step to each side, and only a quarter of the
step above to the side where the steps become smaller. Its ends belong to it when the significand is
even. -/
def Binary64.interval (x : Binary64) : Interval :=
  let step := twoTo x.shift
  let narrow := x.significand == Binary64.leastFull && x.shift != 0
  ⟨4 * x.units - (if narrow then step else 2 * step), 4 * x.units, 4 * x.units + 2 * step,
    4 * twoTo Binary64.unitExponent, x.significand % 2 == 0⟩

/-- The point of the grid with `count` digits that reads back, if one does. -/
def Interval.pick? (i : Interval) (leading : Int) (count : Nat) : Option Digits :=
  let exponent := leading - (count : Int) + 1
  let up := tenTo exponent.toNat
  let down := tenTo (-exponent).toNat
  let scaled := i.value * down
  let unit := i.denominator * up
  let below := scaled / unit
  let distance := scaled % unit
  let belowHolds := i.holds (below * up) down
  let aboveHolds := i.holds ((below + 1) * up) down
  if belowHolds && aboveHolds then
    if 2 * distance < unit then some ⟨below, exponent⟩
    else if unit < 2 * distance then some ⟨below + 1, exponent⟩
    else some ⟨below + below % 2, exponent⟩
  else if belowHolds then some ⟨below, exponent⟩
  else if aboveHolds then some ⟨below + 1, exponent⟩
  else none

/-- The digits without the zeros at their end; there are at most `fuel` of them. -/
def Digits.strip : (fuel : Nat) → Digits → Digits
  | 0, d => d
  | fuel + 1, d =>
    if d.digits ≠ 0 ∧ d.digits % 10 = 0 then
      Digits.strip fuel ⟨d.digits / 10, d.exponent + 1⟩
    else d

/-- The shortest digits that read back as `x`, which is not zero. -/
def Binary64.shortest (x : Binary64) : Digits :=
  let i := x.interval
  let leading := decimalExponent i.value i.denominator
  match (List.range 17).findSome? (fun k => i.pick? leading (k + 1)) with
  | some d => d.strip 20
  | none => ⟨0, 0⟩

/-- Where a number is written with its point in place, and how an exponent is written. -/
structure Style where
  /-- Positional from this power of ten of the first digit on. -/
  leastPositional : Int
  /-- Positional below this power of ten of the first digit. -/
  mostPositional : Int
  /-- A plus sign before a positive exponent. -/
  plus : Bool

/-- The decimal digits of a natural number. -/
def natDigits (n : Nat) : List Char := (toString n).toList

/-- The exponent after the mark, with its sign. -/
def Style.exponentText (style : Style) (e : Int) : List Char :=
  if e < 0 then '-' :: natDigits e.natAbs
  else (if style.plus then ['+'] else []) ++ natDigits e.natAbs

/-- Digits that are not all zero, in the given style. A whole number keeps `.0`. -/
def Style.digitsText (style : Style) (d : Digits) : List Char :=
  let ds := natDigits d.digits
  let leading := (ds.length : Int) + d.exponent - 1
  if style.leastPositional ≤ leading ∧ leading < style.mostPositional then
    if 0 ≤ d.exponent then ds ++ List.replicate d.exponent.toNat '0' ++ ['.', '0']
    else if 0 ≤ leading then
      ds.take (leading.toNat + 1) ++ '.' :: ds.drop (leading.toNat + 1)
    else '0' :: '.' :: (List.replicate ((-leading).toNat - 1) '0' ++ ds)
  else
    match ds with
    | [] => []
    | first :: [] => first :: 'e' :: style.exponentText leading
    | first :: more => first :: '.' :: more ++ 'e' :: style.exponentText leading

/-- The text of a number: the shortest digits that read back, zero as `0.0`. -/
def Style.text (style : Style) (x : Binary64) : List Char :=
  let sign := if x.negative then ['-'] else []
  if x.isZero then sign ++ ['0', '.', '0'] else sign ++ style.digitsText x.shortest

end CollectionRunner.Decimal
