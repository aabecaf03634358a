/-!
Punycode: a text of any characters as letters, digits and hyphens.

The ASCII characters come first. The others follow in order of their code points, each one as the
distance from the one before it, counted over code points and places and written in digits of base
36 whose thresholds adapt to the distances.
-/

namespace CollectionRunner.Url.Punycode

/-- The character of a digit. -/
def digitChar (d : Nat) : Char := Char.ofNat (if d < 26 then 0x61 + d else 0x30 + (d - 26))

/-- The value of a digit. -/
def digitValue? (c : Char) : Option Nat :=
  if 'a' ≤ c ∧ c ≤ 'z' then some (c.toNat - 0x61)
  else if 'A' ≤ c ∧ c ≤ 'Z' then some (c.toNat - 0x41)
  else if c.isDigit then some (c.toNat - 0x30 + 26)
  else none

/-- The threshold of the digit at a place that counts in steps of 36. -/
def threshold (place bias : Nat) : Nat :=
  if place ≤ bias then 1 else if bias + 26 ≤ place then 26 else place - bias

/-- Divides by 35 as long as the value is above 455; also 36 for every division. -/
def adaptFrom : (fuel delta bias : Nat) → Nat × Nat
  | 0, delta, bias => (delta, bias)
  | fuel + 1, delta, bias =>
    if 455 < delta then adaptFrom fuel (delta / 35) (bias + 36) else (delta, bias)

/-- The bias behind a distance, when `count` characters are written. -/
def adapt (delta count : Nat) (first : Bool) : Nat :=
  let delta := if first then delta / 700 else delta / 2
  let (delta, bias) := adaptFrom 12 (delta + delta / count) 0
  bias + 36 * delta / (delta + 38)

/-- A distance in digits, the least significant one first. -/
def digits : (fuel bias place n : Nat) → List Char
  | 0, _, _, _ => []
  | fuel + 1, bias, place, n =>
    let t := threshold place bias
    if n < t then [digitChar n]
    else digitChar (t + (n - t) % (36 - t)) :: digits fuel bias (place + 36) ((n - t) / (36 - t))

/-- An encoder: the distance so far, the bias, and how many characters are written. -/
structure Encoder where
  delta : Nat
  bias : Nat
  written : Nat
  output : List Char

/-- Writes the occurrences of the code point `n` in a text with `basic` ASCII characters. -/
def Encoder.pass (basic n : Nat) (e : Encoder) (s : List Char) : Encoder :=
  s.foldl
    (fun e c =>
      if c.toNat < n then { e with delta := e.delta + 1 }
      else if c.toNat = n then
        ⟨0, adapt e.delta (e.written + 1) (e.written == basic), e.written + 1,
          e.output ++ digits 32 e.bias 36 e.delta⟩
      else e)
    e

/-- The least code point of a text from `n` on. -/
def least? (n : Nat) (s : List Char) : Option Nat :=
  ((s.map Char.toNat).filter (n ≤ ·)).min?

/-- Writes the code points from `n` on; there are at most `fuel` of them. -/
def Encoder.passes (basic : Nat) (s : List Char) : (fuel n : Nat) → Encoder → Encoder
  | 0, _, e => e
  | fuel + 1, n, e =>
    match least? n s with
    | none => e
    | some m =>
      let e := { e with delta := e.delta + (m - n) * (e.written + 1) }
      let e := e.pass basic m s
      passes basic s fuel (m + 1) { e with delta := e.delta + 1 }

/-- The Punycode form of a text. -/
def encode (s : List Char) : List Char :=
  let ascii := s.filter fun c => c.toNat < 0x80
  let start := if ascii.isEmpty then [] else ascii ++ ['-']
  (Encoder.passes ascii.length s s.length 0x80 ⟨0, 72, ascii.length, start⟩).output

/-- Reads a distance in digits, and the rest of the text. -/
def readDigits (bias : Nat) : (place n weight : Nat) → List Char → Option (Nat × List Char)
  | _, _, _, [] => none
  | place, n, weight, c :: s => do
    let d ← digitValue? c
    let n := n + d * weight
    let t := threshold place bias
    if d < t then pure (n, s) else readDigits bias (place + 36) n (weight * (36 - t)) s

/-- Reads distances and puts their characters into place; there are at most `fuel` of them. -/
def decodeFrom : (fuel n i bias : Nat) → (done s : List Char) → Option (List Char)
  | _, _, _, _, done, [] => some done
  | 0, _, _, _, _, _ :: _ => none
  | fuel + 1, n, i, bias, done, s => do
    let (j, rest) ← readDigits bias 36 i 1 s
    let count := done.length + 1
    let n := n + j / count
    if h : n.isValidChar then
      let at_ := j % count
      decodeFrom fuel n (at_ + 1) (adapt (j - i) count (i == 0))
        (done.take at_ ++ Char.ofNatAux n h :: done.drop at_) rest
    else none

/-- The text that has the given Punycode form. -/
def decode? (s : List Char) : Option (List Char) :=
  let back := s.reverse
  let tail := (back.takeWhile (· != '-')).reverse
  let ascii := ((back.dropWhile (· != '-')).drop 1).reverse
  decodeFrom (tail.length + 1) 0x80 0 72 ascii tail

end CollectionRunner.Url.Punycode
