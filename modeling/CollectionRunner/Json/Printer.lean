import CollectionRunner.Decimal.Shortest
import CollectionRunner.Json.Value
import CollectionRunner.Text.Hex

/-!
JSON text of a value: without any space, or with one member or item on a line, indented by two
spaces a level.
-/

namespace CollectionRunner.Json

open Decimal

/-- Numbers with a fraction are positional from `0.00001` up to below `10 ^ 16`. -/
def numberStyle : Style := ⟨-5, 16, true⟩

/-- The text of a number. -/
def Number.text : Number → List Char
  | .int n => if n < 0 then '-' :: natDigits n.natAbs else natDigits n.natAbs
  | .float x => numberStyle.text x

/-- A character inside a string: quote, backslash and the controls below space are escaped. -/
def escapeChar (c : Char) : List Char :=
  if c = '\"' then ['\\', '\"']
  else if c = '\\' then ['\\', '\\']
  else if c = '\n' then ['\\', 'n']
  else if c = '\r' then ['\\', 'r']
  else if c = '\t' then ['\\', 't']
  else if c = '\x08' then ['\\', 'b']
  else if c = '\x0c' then ['\\', 'f']
  else if c.toNat < 0x20 then
    ['\\', 'u', '0', '0', Text.hexDigit (c.toNat / 16), Text.hexDigit c.toNat]
  else [c]

/-- A string with its quotes. -/
def quote (s : String) : List Char := '\"' :: s.toList.flatMap escapeChar ++ ['\"']

mutual
/-- The text of a value without any space. -/
def Value.compact : Value → List Char
  | .null => ['n', 'u', 'l', 'l']
  | .bool true => ['t', 'r', 'u', 'e']
  | .bool false => ['f', 'a', 'l', 's', 'e']
  | .number n => n.text
  | .string s => quote s
  | .array items => '[' :: Value.compactItems items ++ [']']
  | .object members => '\x7b' :: Value.compactMembers members ++ ['\x7d']

/-- The items of an array, with commas between them. -/
def Value.compactItems : List Value → List Char
  | [] => []
  | [v] => v.compact
  | v :: w :: vs => v.compact ++ ',' :: Value.compactItems (w :: vs)

/-- The members of an object, with commas between them. -/
def Value.compactMembers : List (String × Value) → List Char
  | [] => []
  | [(k, v)] => quote k ++ ':' :: v.compact
  | (k, v) :: m :: ms => quote k ++ ':' :: v.compact ++ ',' :: Value.compactMembers (m :: ms)
end

/-- A new line at the given level. -/
def newLine (level : Nat) : List Char := '\n' :: List.replicate (2 * level) ' '

mutual
/-- The text of a value with one item or member on a line; `level` is the level of the line that it
starts on. -/
def Value.indented (level : Nat) : Value → List Char
  | .null => ['n', 'u', 'l', 'l']
  | .bool true => ['t', 'r', 'u', 'e']
  | .bool false => ['f', 'a', 'l', 's', 'e']
  | .number n => n.text
  | .string s => quote s
  | .array [] => ['[', ']']
  | .array (v :: vs) =>
    '[' :: Value.indentedItems (level + 1) (v :: vs) ++ newLine level ++ [']']
  | .object [] => ['\x7b', '\x7d']
  | .object (m :: ms) =>
    '\x7b' :: Value.indentedMembers (level + 1) (m :: ms) ++ newLine level ++ ['\x7d']

/-- The items of an array, each on a line of its own. -/
def Value.indentedItems (level : Nat) : List Value → List Char
  | [] => []
  | [v] => newLine level ++ v.indented level
  | v :: w :: vs => newLine level ++ v.indented level ++ ',' :: Value.indentedItems level (w :: vs)

/-- The members of an object, each on a line of its own. -/
def Value.indentedMembers (level : Nat) : List (String × Value) → List Char
  | [] => []
  | [(k, v)] => newLine level ++ quote k ++ ':' :: ' ' :: v.indented level
  | (k, v) :: m :: ms =>
    newLine level ++ quote k ++ ':' :: ' ' :: v.indented level ++
      ',' :: Value.indentedMembers level (m :: ms)
end

/-- The compact text of a value. -/
def Value.text (v : Value) : String := String.ofList v.compact

/-- The indented text of a value. -/
def Value.pretty (v : Value) : String := String.ofList (v.indented 0)

end CollectionRunner.Json
