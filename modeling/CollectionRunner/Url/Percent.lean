import CollectionRunner.Text.Hex
import CollectionRunner.Text.Utf8

/-!
Percent-encoding: a byte as a percent sign and two hexadecimal digits. Which characters are written
so depends on the part of an address that they stand in.
-/

namespace CollectionRunner.Url

open Text

/-- A byte as a percent sign and two digits. -/
def escapeByte (b : UInt8) : List Char :=
  ['%', hexDigitUpper (b.toNat / 16), hexDigitUpper b.toNat]

/-- The text with the bytes of every character of a class escaped. -/
def escape (escaped : Char → Bool) (s : List Char) : List Char :=
  s.flatMap fun c => if escaped c then (encodeChar c).flatMap escapeByte else [c]

/-- The byte that a percent sign and two digits at the start of a text stand for. -/
def escapedByte? : List Char → Option UInt8
  | '%' :: a :: b :: _ => do
    let x ← hexValue? a
    let y ← hexValue? b
    pure (x * 16 + y).toUInt8
  | _ => none

/-- The bytes of a text behind its first `skip` characters. -/
def unescapeFrom : (skip : Nat) → List Char → Bytes
  | _, [] => []
  | skip + 1, _ :: s => unescapeFrom skip s
  | 0, c :: s =>
    match escapedByte? (c :: s) with
    | some b => b :: unescapeFrom 2 s
    | none => encodeChar c ++ unescapeFrom 0 s

/-- The bytes of a text in which a percent sign and two digits stand for a byte. -/
def unescape (s : List Char) : Bytes := unescapeFrom 0 s

/-- A control, or a character beyond ASCII. -/
def isControl (c : Char) : Bool := c.toNat < 0x20 || 0x7F ≤ c.toNat

/-- What is escaped in a fragment. -/
def escapedInFragment (c : Char) : Bool :=
  isControl c || c == ' ' || c == '\"' || c == '<' || c == '>' || c == '\x60'

/-- What is escaped in a path. -/
def escapedInPath (c : Char) : Bool :=
  escapedInFragment c || c == '#' || c == '?' || c == '\x7b' || c == '\x7d'

/-- What is escaped in a user name or password. -/
def escapedInCredentials (c : Char) : Bool :=
  escapedInPath c || c == '/' || c == ':' || c == ';' || c == '=' || c == '@' || c == '[' ||
    c == '\\' || c == ']' || c == '^' || c == '|'

/-- What is escaped in a query. -/
def escapedInQuery (c : Char) : Bool :=
  isControl c || c == ' ' || c == '\"' || c == '#' || c == '<' || c == '>'

/-- What is escaped in the query of a web address. -/
def escapedInWebQuery (c : Char) : Bool := escapedInQuery c || c == '\x27'

end CollectionRunner.Url
