import CollectionRunner.Json.Document
import CollectionRunner.Text.Hex
import CollectionRunner.Text.Utf8

/-!
The document that a text holds.

The scanner follows the form of the text and notes beside it what a reader would make of strings and
numbers. Every function that consumes text returns the rest of it, and no rest when the text breaks.
-/

namespace CollectionRunner.Json

open Decimal Text

/-- The text behind a value, unless the text breaks inside it. -/
abbrev Rest := Option (List Char)

/-- White space between the tokens. -/
def isGap (c : Char) : Bool := c == ' ' || c == '\n' || c == '\t' || c == '\r'

/-- The text from its first token on. -/
def skipGaps (s : List Char) : List Char := s.dropWhile isGap

/-! ### Strings -/

/-- What a reader has of a string so far; the characters stand in reverse. -/
inductive Reading
  | text (done : List Char)
  /-- A leading surrogate waits for the trailing one. -/
  | half (done : List Char) (surrogate : Nat)
  | failed (f : Fault)

/-- The next character is an ordinary one. -/
def Reading.push (c : Char) : Reading → Reading
  | .text done => .text (c :: done)
  | .half _ _ => .failed .malformed
  | .failed f => .failed f

/-- The next character is given by a code unit of 16 bits. -/
def Reading.pushUnit (n : Nat) : Reading → Reading
  | .text done =>
    if 0xD800 ≤ n ∧ n < 0xDC00 then .half done n
    else if 0xDC00 ≤ n ∧ n < 0xE000 then .failed .malformed
    else .text (Char.ofNat n :: done)
  | .half done surrogate =>
    if 0xDC00 ≤ n ∧ n < 0xE000 then
      .text (Char.ofNat (0x10000 + (surrogate - 0xD800) * 0x400 + (n - 0xDC00)) :: done)
    else .failed .malformed
  | .failed f => .failed f

/-- The string ends here. -/
def Reading.finish : Reading → Except Fault String
  | .text done => .ok (String.ofList done.reverse)
  | .half _ _ => .error .malformed
  | .failed f => .error f

/-- The text breaks here; an earlier fault comes first for a reader. -/
def Reading.break (f : Fault) : Reading → Break
  | .failed earlier => ⟨earlier, f⟩
  | _ => .of f

/-- A string with what follows it, or the place where it breaks. -/
inductive StringScan
  | ends (content : Except Fault String) (rest : List Char)
  | breaks (b : Break)

/-- The character that an escape of one letter stands for. -/
def escaped? (c : Char) : Option Char :=
  if c = '\"' ∨ c = '\\' ∨ c = '/' then some c
  else if c = 'b' then some '\x08'
  else if c = 'f' then some '\x0c'
  else if c = 'n' then some '\n'
  else if c = 'r' then some '\r'
  else if c = 't' then some '\t'
  else none

/-- The code unit of four hexadecimal digits. -/
def unit? (a b c d : Char) : Option Nat := do
  let a ← hexValue? a
  let b ← hexValue? b
  let c ← hexValue? c
  let d ← hexValue? d
  pure (((a * 16 + b) * 16 + c) * 16 + d)

/-- Reads on behind the opening quote. -/
def scanString (reading : Reading) : List Char → StringScan
  | [] => .breaks (reading.break .eof)
  | c :: rest =>
    if c = '\"' then .ends reading.finish rest
    else if c = '\\' then
      match rest with
      | [] => .breaks (reading.break .eof)
      | e :: rest =>
        if e = 'u' then
          match rest with
          | h₁ :: h₂ :: h₃ :: h₄ :: rest =>
            match unit? h₁ h₂ h₃ h₄ with
            | some n => scanString (reading.pushUnit n) rest
            | none => .breaks (reading.break .malformed)
          | short =>
            .breaks (reading.break (if byteLength short < 4 then .eof else .malformed))
        else
          match escaped? e with
          | some c => scanString (reading.push c) rest
          | none => .breaks (reading.break .malformed)
    else if c.toNat < 0x20 then .breaks (reading.break .malformed)
    else scanString (reading.push c) rest

/-! ### Numbers -/

/-- The largest whole number of 64 bits. -/
def maxWhole : Nat := 18446744073709551615

/-- The largest exponent that is added up digit by digit. -/
def maxExponent : Nat := 2147483647

/-- Appends digits to a significand as long as it keeps to 64 bits; also how many were appended. -/
def absorb (significand : Nat) : List Char → Nat × Nat
  | [] => (significand, 0)
  | c :: cs =>
    let next := significand * 10 + (c.toNat - 0x30)
    if next ≤ maxWhole then
      let (result, count) := absorb next cs
      (result, count + 1)
    else (significand, 0)

/-- The value of decimal digits. -/
def natOfDigits (ds : List Char) : Nat := ds.foldl (fun n c => n * 10 + (c.toNat - 0x30)) 0

/-- The absolute value of the least whole number of 64 bits with a sign. -/
def maxNegative : Nat := 9223372036854775808

/-- A whole number, which is a binary64 one beyond 64 bits; minus zero is one too. -/
def wholeNumber (negative : Bool) (n : Nat) : Except Fault Number :=
  if !negative then .ok (.int n)
  else if 0 < n ∧ n ≤ maxNegative then .ok (.int (-(n : Int)))
  else
    match Binary64.ofDecimal? true n 0 with
    | some x => .ok (.float x)
    | none => .error .malformed

/-- A number with a fraction, an exponent or too many digits. -/
def binaryNumber (negative : Bool) (significand : Nat) (exponent : Int) : Except Fault Number :=
  match Binary64.ofDecimal? negative significand exponent with
  | some x => .ok (.float x)
  | none => .error .malformed

/-- The digits and the sign of an exponent. -/
structure Exponent where
  negative : Bool
  digits : List Char

/-- The number of the digits before the point, the digits behind it and the exponent. Digits that do
not fit 64 bits are dropped; before the point they are made up for by the exponent. -/
def numberOfParts (negative : Bool) (whole : List Char) (fraction : Option (List Char))
    (exponent : Option Exponent) : Except Fault Number :=
  let (significand, read) := absorb 0 whole
  let dropped := whole.length - read
  match fraction, exponent with
  | none, none =>
    if dropped = 0 then wholeNumber negative significand
    else binaryNumber negative significand dropped
  | _, _ =>
    let (significand, places) := absorb significand (fraction.getD [])
    let shift := (dropped : Int) - (places : Int)
    match exponent with
    | none => binaryNumber negative significand shift
    | some e =>
      let n := natOfDigits e.digits
      if maxExponent < n then
        if significand ≠ 0 ∧ !e.negative then .error .malformed
        else .ok (.float { Binary64.zero with negative := negative })
      else binaryNumber negative significand (if e.negative then shift - (n : Int) else shift + n)

/-- A digit is missing in front of `rest`. -/
def missingDigit (rest : List Char) : Document × Rest :=
  (.broken ⟨if rest.isEmpty then .eof else .malformed, .malformed⟩, none)

/-- Reads the exponent, if there is one, and puts the number together. -/
def scanExponent (negative : Bool) (whole : List Char) (fraction : Option (List Char))
    (s : List Char) : Document × Rest :=
  match s with
  | [] => (.number (numberOfParts negative whole fraction none), some [])
  | c :: more =>
    if c = 'e' ∨ c = 'E' then
      let (minus, more) :=
        match more with
        | '+' :: more => (false, more)
        | '-' :: more => (true, more)
        | more => (false, more)
      let digits := more.takeWhile Char.isDigit
      let rest := more.dropWhile Char.isDigit
      if digits.isEmpty then missingDigit rest
      else (.number (numberOfParts negative whole fraction (some ⟨minus, digits⟩)), some rest)
    else (.number (numberOfParts negative whole fraction none), some s)

/-- Reads a number behind its sign. -/
def scanNumber (negative : Bool) (s : List Char) : Document × Rest :=
  let whole := s.takeWhile Char.isDigit
  let rest := s.dropWhile Char.isDigit
  if whole.isEmpty then missingDigit rest
  else if whole.head? = some '0' ∧ 1 < whole.length then (.broken (.of .malformed), none)
  else
    match rest with
    | '.' :: more =>
      let fraction := more.takeWhile Char.isDigit
      let rest := more.dropWhile Char.isDigit
      if fraction.isEmpty then missingDigit rest
      else scanExponent negative whole (some fraction) rest
    | rest => scanExponent negative whole none rest

/-! ### Values -/

/-- Reads the rest of a literal that stands for `d`. -/
def scanLiteral (d : Document) : (expected s : List Char) → Document × Rest
  | [], s => (d, some s)
  | _ :: _, [] => (.broken (.of .eof), none)
  | e :: expected, c :: s =>
    if e = c then scanLiteral d expected s else (.broken (.of .malformed), none)

/-- Puts an item in front of those behind it. -/
def consItem (item : Document) : Document × Rest → Document × Rest
  | (.array items broken, rest) => (.array (item :: items) broken, rest)
  | other => other

/-- Puts a member in front of those behind it. -/
def consMember (key : Except Fault String) (d : Document) : Document × Rest → Document × Rest
  | (.object members broken, rest) => (.object ((key, d) :: members) broken, rest)
  | other => other

mutual
/-- Reads the value at the start of the text; `fuel` is the number of calls that are left. -/
def scanValue : (fuel : Nat) → List Char → Document × Rest
  | 0, _ => (.broken (.of .malformed), none)
  | fuel + 1, s =>
    match skipGaps s with
    | [] => (.broken (.of .eof), none)
    | c :: rest =>
      if c = '\"' then
        match scanString (.text []) rest with
        | .ends content rest => (.string content, some rest)
        | .breaks b => (.broken b, none)
      else if c = '\x7b' then
        match skipGaps rest with
        | '\x7d' :: rest => (.object [] none, some rest)
        | rest => scanMember fuel rest
      else if c = '[' then
        match skipGaps rest with
        | [] => (.array [] (some (.of .eof)), none)
        | ']' :: rest => (.array [] none, some rest)
        | rest => scanItem fuel rest
      else if c = 'n' then scanLiteral .null ['u', 'l', 'l'] rest
      else if c = 't' then scanLiteral (.bool true) ['r', 'u', 'e'] rest
      else if c = 'f' then scanLiteral (.bool false) ['a', 'l', 's', 'e'] rest
      else if c = '-' then scanNumber true rest
      else if c.isDigit then scanNumber false (c :: rest)
      else (.broken (.of .malformed), none)

/-- Reads an item of an array and those behind it. -/
def scanItem : (fuel : Nat) → List Char → Document × Rest
  | 0, _ => (.array [] (some (.of .malformed)), none)
  | fuel + 1, s =>
    match scanValue fuel s with
    | (item, none) => (.array [item] (some (.of .malformed)), none)
    | (item, some rest) =>
      match skipGaps rest with
      | [] => (.array [item] (some (.of .eof)), none)
      | ']' :: rest => (.array [item] none, some rest)
      | ',' :: rest => consItem item (scanItem fuel rest)
      | _ => (.array [item] (some (.of .malformed)), none)

/-- Reads a member of an object and those behind it. -/
def scanMember : (fuel : Nat) → List Char → Document × Rest
  | 0, _ => (.object [] (some (.of .malformed)), none)
  | fuel + 1, s =>
    match skipGaps s with
    | [] => (.object [] (some (.of .eof)), none)
    | '\"' :: rest =>
      match scanString (.text []) rest with
      | .breaks b => (.object [(.error b.reading, .broken b)] (some b), none)
      | .ends key rest =>
        match skipGaps rest with
        | [] => (.object [(key, .broken (.of .eof))] (some (.of .eof)), none)
        | ':' :: rest =>
          match scanValue fuel rest with
          | (d, none) => (.object [(key, d)] (some (.of .malformed)), none)
          | (d, some rest) =>
            match skipGaps rest with
            | [] => (.object [(key, d)] (some (.of .eof)), none)
            | '\x7d' :: rest => (.object [(key, d)] none, some rest)
            | ',' :: rest => consMember key d (scanMember fuel rest)
            | _ => (.object [(key, d)] (some (.of .malformed)), none)
        | _ => (.object [(key, .broken (.of .malformed))] (some (.of .malformed)), none)
    | _ => (.object [] (some (.of .malformed)), none)
end

/-- The document at the start of a text, and whether only white space follows it. -/
structure Page where
  document : Document
  ends : Bool

/-- The document of a text. Every call of the scanner consumes a character or is followed by one
that does, so twice the length of the text is fuel enough. -/
def Page.ofText (s : String) : Page :=
  let text := s.toList
  match scanValue (2 * text.length + 4) text with
  | (d, none) => ⟨d, false⟩
  | (d, some rest) => ⟨d, (skipGaps rest).isEmpty⟩

end CollectionRunner.Json
