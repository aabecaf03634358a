/-!
UTF-8: how many bytes a text takes, its bytes, and the text that bytes spell.

Byte offsets into a text are counted with `byteLength`; an offset is a character boundary when it is
the byte length of a beginning of the text.
-/

namespace CollectionRunner

/-- The content of a file or of a message. -/
abbrev Bytes := List UInt8

namespace Text

/-- The number of bytes that `s` takes in UTF-8. -/
def byteLength : List Char → Nat
  | [] => 0
  | c :: s => c.utf8Size + byteLength s

@[simp] theorem byteLength_nil : byteLength [] = 0 := rfl

@[simp] theorem byteLength_cons (c : Char) (s : List Char) :
    byteLength (c :: s) = c.utf8Size + byteLength s := rfl

theorem byteLength_append (s t : List Char) :
    byteLength (s ++ t) = byteLength s + byteLength t := by
  induction s with
  | nil => simp
  | cons c s ih => simp [ih, Nat.add_assoc]

/-- An offset at which one character of `s` ends and the next one starts. -/
def IsBoundary (s : List Char) (n : Nat) : Prop :=
  ∃ before after, s = before ++ after ∧ byteLength before = n

/-- The bytes of one character, the leading byte first. -/
def encodeChar (c : Char) : Bytes :=
  let n := c.toNat
  if n < 0x80 then [n.toUInt8]
  else if n < 0x800 then [(0xC0 + n / 64).toUInt8, (0x80 + n % 64).toUInt8]
  else if n < 0x10000 then
    [(0xE0 + n / 4096).toUInt8, (0x80 + n / 64 % 64).toUInt8, (0x80 + n % 64).toUInt8]
  else
    [(0xF0 + n / 262144).toUInt8, (0x80 + n / 4096 % 64).toUInt8, (0x80 + n / 64 % 64).toUInt8,
      (0x80 + n % 64).toUInt8]

/-- The bytes of a text. -/
def encode (s : List Char) : Bytes := s.flatMap encodeChar

/-- The bits that a continuation byte carries. -/
def continuation? (b : UInt8) : Option Nat :=
  if 0x80 ≤ b.toNat ∧ b.toNat < 0xC0 then some (b.toNat - 0x80) else none

/-- The character of a code point that needs the number of bytes it came in. -/
def codePoint? (least n : Nat) : Option Char :=
  if h : n.isValidChar then if least ≤ n then some (Char.ofNatAux n h) else none else none

/-- The first character that `bytes` spell, and the bytes after it. -/
def decodeChar? : Bytes → Option (Char × Bytes)
  | [] => none
  | a :: rest =>
    let n := a.toNat
    if n < 0x80 then (codePoint? 0 n).map (·, rest)
    else if n < 0xC0 then none
    else if n < 0xE0 then
      match rest with
      | b :: rest => do
        let y ← continuation? b
        let c ← codePoint? 0x80 ((n - 0xC0) * 64 + y)
        pure (c, rest)
      | _ => none
    else if n < 0xF0 then
      match rest with
      | b :: d :: rest => do
        let y ← continuation? b
        let z ← continuation? d
        let c ← codePoint? 0x800 (((n - 0xE0) * 64 + y) * 64 + z)
        pure (c, rest)
      | _ => none
    else if n < 0xF8 then
      match rest with
      | b :: d :: e :: rest => do
        let y ← continuation? b
        let z ← continuation? d
        let w ← continuation? e
        let c ← codePoint? 0x10000 ((((n - 0xF0) * 64 + y) * 64 + z) * 64 + w)
        pure (c, rest)
      | _ => none
    else none

/-- Decodes at most `fuel` characters onto `done`, which holds the earlier ones in reverse. -/
def decodeOnto? : (fuel : Nat) → Bytes → List Char → Option (List Char)
  | _, [], done => some done.reverse
  | 0, _ :: _, _ => none
  | fuel + 1, bytes, done =>
    match decodeChar? bytes with
    | none => none
    | some (c, rest) => decodeOnto? fuel rest (c :: done)

/-- The text that `bytes` spell, if they are UTF-8. -/
def decode? (bytes : Bytes) : Option (List Char) := decodeOnto? bytes.length bytes []

end Text

/-- The bytes of a string. -/
def toBytes (s : String) : Bytes := Text.encode s.toList

/-- The string that `bytes` spell, if they are UTF-8. -/
def ofBytes? (bytes : Bytes) : Option String := (Text.decode? bytes).map String.ofList

end CollectionRunner
