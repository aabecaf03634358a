import CollectionRunner.Text.Hex
import CollectionRunner.Text.Utf8

/-!
Forms as one line of text: `key=value` pairs with `&` between them, a space as `+`, and all but a
few characters as percent signs and digits.
-/

namespace CollectionRunner.Form

open Text

/-- The form of one byte. -/
def encodeByte (b : UInt8) : List Char :=
  let c := Char.ofNat b.toNat
  if c = ' ' then ['+']
  else if c.isAlphanum ∨ c = '*' ∨ c = '-' ∨ c = '.' ∨ c = '_' then [c]
  else ['%', hexDigitUpper (b.toNat / 16), hexDigitUpper b.toNat]

/-- The form of a text. -/
def encodeText (s : String) : List Char := (toBytes s).flatMap encodeByte

/-- The form of a key with its value. -/
def encodePair (p : String × String) : List Char := encodeText p.1 ++ '=' :: encodeText p.2

/-- The form of a list of pairs. -/
def encode : List (String × String) → List Char
  | [] => []
  | [p] => encodePair p
  | p :: q :: ps => encodePair p ++ '&' :: encode (q :: ps)

end CollectionRunner.Form
