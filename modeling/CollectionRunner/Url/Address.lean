import CollectionRunner.Text.Hex
import CollectionRunner.Url.Domain

/-!
Numeric addresses of hosts: four bytes or eight groups of sixteen bits.
-/

namespace CollectionRunner.Url

open Text

/-- The decimal digits of a number. -/
def decimal (n : Nat) : List Char := (toString n).toList

/-- The value of digits of a base, all of which belong to it. -/
def digitsValue? (base : Nat) (s : List Char) : Option Nat :=
  s.foldlM (fun n c => do
    let d ← hexValue? c
    if d < base then pure (n * base + d) else none) 0

/-! ### Four bytes -/

/-- A number of an address of four bytes: hexadecimal behind `0x`, octal behind `0`, else
decimal. -/
def partValue? (s : List Char) : Option Nat :=
  match s with
  | [] => none
  | '0' :: 'x' :: rest => digitsValue? 16 rest
  | '0' :: 'X' :: rest => digitsValue? 16 rest
  | '0' :: c :: rest => digitsValue? 8 (c :: rest)
  | s => digitsValue? 10 s

/-- The labels of a domain name without an empty one at the end. -/
def addressParts (domain : List Char) : List (List Char) :=
  let parts := splitPoints [] domain
  match parts.reverse with
  | [] :: above => above.reverse
  | _ => parts

/-- Whether the last label of a domain name is a number, so that the name has to be an address. -/
def endsInNumber (domain : List Char) : Bool :=
  match (addressParts domain).getLast? with
  | none => false
  | some last => (!last.isEmpty && last.all Char.isDigit) || (partValue? last).isSome

/-- The four bytes of a number of 32 bits, with points between them. -/
def dotted (n : Nat) : List Char :=
  joinPoints [decimal (n / 16777216 % 256), decimal (n / 65536 % 256), decimal (n / 256 % 256),
    decimal (n % 256)]

/-- The address that a domain name spells: each number but the last one is a byte, the last one
fills the rest. -/
def ipv4? (domain : List Char) : Option (List Char) := do
  let numbers ← (addressParts domain).mapM partValue?
  match numbers.reverse with
  | [] => none
  | last :: above =>
    if 4 < numbers.length ∨ Nat.pow 256 (4 - above.length) ≤ last ∨ above.any (255 < ·) then none
    else
      let high := above.reverse.foldl (fun n b => n * 256 + b) 0
      pure (dotted (high * Nat.pow 256 (4 - above.length) + last))

/-! ### Eight groups -/

/-- Groups read so far, and how many stand in front of the gap that `::` leaves. -/
structure Groups where
  done : List Nat
  gap : Option Nat

/-- All eight groups; the gap is filled with zeros. -/
def Groups.finish? (g : Groups) : Option (List Nat) :=
  match g.gap with
  | none => if g.done.length = 8 then some g.done else none
  | some n =>
    if 8 ≤ g.done.length then none
    else some (g.done.take n ++ List.replicate (8 - g.done.length) 0 ++ g.done.drop n)

/-- A byte in decimal digits without a leading zero. -/
def byte? (s : List Char) : Option Nat :=
  match s with
  | [] => none
  | '0' :: _ :: _ => none
  | s => if s.all Char.isDigit then (digitsValue? 10 s).filter (· ≤ 255) else none

/-- Two groups as four bytes at the end of an address. -/
def trailing? (s : List Char) : Option (List Nat) := do
  match ← (splitPoints [] s).mapM byte? with
  | [a, b, c, d] => pure [a * 256 + b, c * 256 + d]
  | _ => none

/-- Reads groups; `fuel` is the number of steps left. -/
def readGroups : (fuel : Nat) → Groups → List Char → Option Groups
  | 0, _, _ => none
  | _, g, [] => some g
  | fuel + 1, g, s =>
    if 8 ≤ g.done.length + (if g.gap.isSome then 1 else 0) then none
    else
      match s with
      | ':' :: rest =>
        if g.gap.isSome then none else readGroups fuel ⟨g.done, some g.done.length⟩ rest
      | s =>
        let group := (s.take 4).takeWhile fun c => (hexValue? c).isSome
        let rest := s.drop group.length
        match rest with
        | '.' :: _ =>
          if group.isEmpty ∨ 6 < g.done.length + (if g.gap.isSome then 1 else 0) then none
          else do
            let groups ← trailing? s
            pure ⟨g.done ++ groups, g.gap⟩
        | [] => do
          let n ← digitsValue? 16 group
          pure ⟨g.done ++ [n], g.gap⟩
        | [':'] => none
        | ':' :: rest => do
          let n ← digitsValue? 16 group
          readGroups fuel ⟨g.done ++ [n], g.gap⟩ rest
        | _ => none

/-- The eight groups that a text spells. -/
def groups? (s : List Char) : Option (List Nat) := do
  if s.length < 2 then none
  else
    let g ←
      match s with
      | ':' :: ':' :: rest => readGroups (s.length + 1) ⟨[], some 0⟩ rest
      | ':' :: _ => none
      | s => readGroups (s.length + 1) ⟨[], none⟩ s
    g.finish?

/-- Groups in hexadecimal, with colons between them. -/
def joinGroups : List Nat → List Char
  | [] => []
  | [n] => toHex n
  | n :: m :: ns => toHex n ++ ':' :: joinGroups (m :: ns)

/-- The number of zero groups at the start. -/
def zeros (groups : List Nat) : Nat := (groups.takeWhile (· == 0)).length

/-- The place and the length of the first of the longest runs of zero groups. -/
def longestZeros : (place : Nat) → List Nat → Nat × Nat
  | place, [] => (place, 0)
  | place, n :: ns =>
    let here := zeros (n :: ns)
    let (later, length) := longestZeros (place + 1) ns
    if length ≤ here then (place, here) else (later, length)

/-- Eight groups with the longest run of at least two zero groups left out. -/
def groupsText (groups : List Nat) : List Char :=
  let (place, length) := longestZeros 0 groups
  if length < 2 then joinGroups groups
  else joinGroups (groups.take place) ++ ':' :: ':' :: joinGroups (groups.drop (place + length))

/-- The address of eight groups that a text spells, in brackets. -/
def ipv6? (s : List Char) : Option (List Char) :=
  (groups? s).map fun groups => '[' :: groupsText groups ++ [']']

example : ipv6? "1:0:0:2::3".toList = some "[1:0:0:2::3]".toList := by decide
example : ipv6? "::FFFF:1.2.3.4".toList = some "[::ffff:102:304]".toList := by decide
example : ipv4? "0x7f.1".toList = some "127.0.0.1".toList := by decide

end CollectionRunner.Url
