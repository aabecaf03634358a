import CollectionRunner.Text.Utf8
import CollectionRunner.Url.Punycode

/-!
Domain names in ASCII.

Letters are written small, wide forms as the plain ones, and characters that only shape a text are
dropped. A label with other characters than ASCII ones is written in Punycode behind `xn--`. Some
ASCII characters may not stand in a domain name.
-/

namespace CollectionRunner.Url

open Text

/-- Characters that only shape a text. -/
def isShaping (c : Char) : Bool :=
  let n := c.toNat
  n == 0xAD || n == 0x34F || (0x180B ≤ n && n ≤ 0x180F) || n == 0x200B || n == 0x2060 ||
    n == 0x2064 || (0xFE00 ≤ n && n ≤ 0xFE0F) || n == 0xFEFF

/-- The small letter of a capital one in the Latin, Greek, Cyrillic and Armenian scripts. -/
def smallLetter (c : Char) : Char :=
  let n := c.toNat
  if n < 0x80 then c.toLower
  else if (0xC0 ≤ n ∧ n ≤ 0xDE ∧ n ≠ 0xD7) ∨ (0x391 ≤ n ∧ n ≤ 0x3A9) ∨ (0x410 ≤ n ∧ n ≤ 0x42F) then
    Char.ofNat (n + 32)
  else if 0x400 ≤ n ∧ n ≤ 0x40F then Char.ofNat (n + 80)
  else if 0x531 ≤ n ∧ n ≤ 0x556 then Char.ofNat (n + 48)
  else if ((0x100 ≤ n ∧ n ≤ 0x12F) ∨ (0x132 ≤ n ∧ n ≤ 0x137) ∨ (0x14A ≤ n ∧ n ≤ 0x177) ∨
      (0x460 ≤ n ∧ n ≤ 0x481) ∨ (0x48A ≤ n ∧ n ≤ 0x4BF) ∨ (0x4D0 ≤ n ∧ n ≤ 0x52F)) ∧ n % 2 = 0 then
    Char.ofNat (n + 1)
  else if ((0x139 ≤ n ∧ n ≤ 0x148) ∨ (0x179 ≤ n ∧ n ≤ 0x17E)) ∧ n % 2 = 1 then Char.ofNat (n + 1)
  else c

/-- The form of a character in a domain name. -/
def domainChar (c : Char) : List Char :=
  let n := c.toNat
  if isShaping c then []
  else if n = 0x3002 ∨ n = 0xFF0E ∨ n = 0xFF61 then ['.']
  else if 0xFF01 ≤ n ∧ n ≤ 0xFF5E then [(Char.ofNat (n - 0xFEE0)).toLower]
  else if n = 0x3000 then [' ']
  else [smallLetter c]

/-- A character that may not stand in a domain name. -/
def isForbidden (c : Char) : Bool :=
  let n := c.toNat
  n ≤ 0x20 || n == 0x7F || (0x80 ≤ n && n < 0xA0) || n == 0xFFFD || c == '%' || c == '#' ||
    c == '/' || c == ':' || c == '<' || c == '>' || c == '?' || c == '@' || c == '[' ||
    c == '\\' || c == ']' || c == '^' || c == '|'

/-- The parts of a text between points; `part` holds, in reverse, the start of the first one. -/
def splitPoints (part : List Char) : List Char → List (List Char)
  | [] => [part.reverse]
  | c :: s => if c = '.' then part.reverse :: splitPoints [] s else splitPoints (c :: part) s

/-- Parts with points between them. -/
def joinPoints : List (List Char) → List Char
  | [] => []
  | [part] => part
  | part :: other :: parts => part ++ '.' :: joinPoints (other :: parts)

/-- Whether a label in Punycode stands for one that needs it. -/
def isFaithful (punycode : List Char) : Bool :=
  match Punycode.decode? punycode with
  | none => false
  | some s => s.any (fun c => 0x80 ≤ c.toNat) && s.flatMap domainChar == s && !s.any isForbidden

/-- A label in ASCII, if it has such a form. -/
def asciiLabel? (label : List Char) : Option (List Char) :=
  if label.any fun c => 0x80 ≤ c.toNat then some ("xn--".toList ++ Punycode.encode label)
  else
    match label with
    | 'x' :: 'n' :: '-' :: '-' :: punycode => if isFaithful punycode then some label else none
    | label => some label

/-- The domain name that bytes spell, in ASCII. -/
def domain? (bytes : Bytes) : Option (List Char) := do
  let s ← decode? bytes
  let s := s.flatMap domainChar
  if s.any isForbidden then none
  else do
    let labels ← (splitPoints [] s).mapM asciiLabel?
    pure (joinPoints labels)

end CollectionRunner.Url
