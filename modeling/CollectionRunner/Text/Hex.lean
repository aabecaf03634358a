/-!
Hexadecimal digits.
-/

namespace CollectionRunner.Text

/-- The value of a hexadecimal digit. -/
def hexValue? (c : Char) : Option Nat :=
  if c.isDigit then some (c.toNat - 0x30)
  else if 'a' ≤ c ∧ c ≤ 'f' then some (c.toNat - 0x57)
  else if 'A' ≤ c ∧ c ≤ 'F' then some (c.toNat - 0x37)
  else none

/-- The digit of `n % 16`, in lower case. -/
def hexDigit (n : Nat) : Char :=
  let d := n % 16
  Char.ofNat (if d < 10 then 0x30 + d else 0x57 + d)

/-- The digit of `n % 16`, in upper case. -/
def hexDigitUpper (n : Nat) : Char :=
  let d := n % 16
  Char.ofNat (if d < 10 then 0x30 + d else 0x37 + d)

/-- The digits of `n` in base 16, without leading zeros; `n` has at most `fuel` of them. -/
def hexDigitsFrom : (fuel n : Nat) → List Char → List Char
  | 0, _, done => done
  | fuel + 1, n, done =>
    if n < 16 then hexDigit n :: done else hexDigitsFrom fuel (n / 16) (hexDigit n :: done)

/-- `n` in base 16, in lower case, without leading zeros. -/
def toHex (n : Nat) : List Char := hexDigitsFrom (n + 1) n []

end CollectionRunner.Text
