import CollectionRunner.Json.Scanner

/-!
Typed reading of a document: a decoder yields what the document holds or the first fault that a
reader meets from left to right.

A record is read from the members of an object. It says which members it knows and what becomes of
the others: they are kept, sorted by key, or passed over. A record of the second kind can also be
read from an array that lists its members in their order.
-/

namespace CollectionRunner.Json

open Decimal

/-- Reads a document of which at most `budget` containers stand inside each other. -/
abbrev Decoder (α : Type) := (budget : Nat) → Document → Except Fault α

namespace Decoder

/-- A string. -/
def string : Decoder String
  | _, .string s => s
  | _, d => .error d.mismatch

/-- A truth value. -/
def bool : Decoder Bool
  | _, .bool b => .ok b
  | _, d => .error d.mismatch

/-- A whole number from `least` to `most`. -/
def int (least most : Int) : Decoder Int
  | _, .number n => do
    match ← n with
    | .int i => if least ≤ i ∧ i ≤ most then .ok i else .error .mistyped
    | .float _ => .error .mistyped
  | _, d => .error d.mismatch

/-- A natural number up to `most`. -/
def nat (most : Nat) : Decoder Nat := fun budget d => (int 0 most budget d).map Int.toNat

/-- Any number, as a binary64 one. -/
def binary64 : Decoder Binary64
  | _, .number n => do
    match ← n with
    | .float x => .ok x
    | .int i =>
      match Binary64.nearest? i.natAbs 1 with
      | some x => .ok { x with negative := i < 0 }
      | none => .error .mistyped
  | _, d => .error d.mismatch

/-- Any value as it is written, with repeated members. -/
def written : Decoder Value := fun budget d => d.value budget

/-- Any value, in canonical form. -/
def value : Decoder Value := fun budget d => (d.value budget).map Value.canonical

/-- Null, or what `decode` reads. -/
def optional (decode : Decoder α) : Decoder (Option α)
  | _, .null => .ok none
  | budget, d => (decode budget d).map some

/-- Reads the items of an array one after the other. -/
def items (decode : Document → Except Fault α) : List Document → Except Fault (List α)
  | [] => .ok []
  | d :: ds => do
    let a ← decode d
    let as ← items decode ds
    pure (a :: as)

/-- An array. -/
def array (decode : Decoder α) : Decoder (List α)
  | budget, .array ds rest =>
    match budget with
    | 0 => .error .malformed
    | budget + 1 => do
      let as ← items (decode budget) ds
      finish rest as
  | _, d => .error d.mismatch

/-- One of some names, or an object whose only member is one of them, with null. -/
def choice (names : List (String × α)) : Decoder α
  | _, .string s => do
    match names.lookup (← s) with
    | some a => .ok a
    | none => .error .mistyped
  | 0, .object _ _ => .error .malformed
  | _ + 1, .object [] rest => finish rest () >>= fun _ => .error .malformed
  | _ + 1, .object ((key, d) :: more) rest => do
    match names.lookup (← key), d with
    | none, _ => .error .mistyped
    | some a, .null => if more.isEmpty then finish rest a else .error .malformed
    | some _, d => .error d.mismatch
  | _, .broken b => .error b.reading
  | _, _ => .error .malformed

/-- Reads the members of an object one after the other into `done`, sorted by key. -/
def entriesFrom (decode : Document → Except Fault α) (done : Keyed α) :
    List (Except Fault String × Document) → Except Fault (Keyed α)
  | [] => .ok done
  | (key, d) :: members => do
    let key ← key
    let a ← decode d
    entriesFrom decode (done.put key a) members

/-- An object whose members are all of one kind, sorted by key; of members with one key the last one
counts. -/
def entries (decode : Decoder α) : Decoder (Keyed α)
  | budget, .object members rest =>
    match budget with
    | 0 => .error .malformed
    | budget + 1 => do
      let es ← entriesFrom (decode budget) [] members
      finish rest es
  | _, d => .error d.mismatch

/-- A value of which only some forms are accepted. The value is read as a whole before its form is
looked at. -/
def untagged (form? : Value → Option α) : Decoder α := fun budget d => do
  match form? (← d.value budget) with
  | some a => .ok a
  | none => .error .mistyped

end Decoder

/-- A member that a record knows: its key and the change of the record that its value makes. -/
structure Slot (α : Type) where
  key : String
  decode : Decoder (α → α)

/-- A member whose value `decode` reads and `set` stores. -/
def Slot.of (key : String) (decode : Decoder β) (set : β → α → α) : Slot α :=
  ⟨key, fun budget d => (decode budget d).map set⟩

/-- The member of a given key among those that a record knows. -/
def Slot.find? (fields : List (Slot α)) (key : String) : Option (Slot α) :=
  fields.find? (fun f => f.key == key)

/-- Reads members into a record. A member that the record knows may stand once; `other` reads the
change that any other member makes. -/
def Slot.readMembers (fields : List (Slot α)) (other : String → Document → Except Fault (α → α))
    (budget : Nat) : (seen : List String) → α → List (Except Fault String × Document) →
    Except Fault (List String × α)
  | seen, record, [] => .ok (seen, record)
  | seen, record, (key, d) :: members => do
    let key ← key
    match Slot.find? fields key with
    | some field =>
      if seen.contains key then .error .mistyped
      else do
        let change ← field.decode budget d
        readMembers fields other budget (key :: seen) (change record) members
    | none => do
      let change ← other key d
      readMembers fields other budget seen (change record) members

/-- Reads items into the members of a record, in the order in which the record lists them. The
record is complete when no member is left; items left then are no part of it. -/
def Slot.readItems (complete : Bool) (budget : Nat) (rest : Option Break) :
    List (Slot α) → α → List Document → Except Fault α
  | [], record, [] => finish rest record
  | [], _, _ :: _ => .error .malformed
  | field :: fields, record, d :: ds => do
    let change ← field.decode budget d
    readItems complete budget rest fields (change record) ds
  | _ :: _, record, [] => do
    let record ← finish rest record
    if complete then .error .mistyped else .ok record

/-- A record that keeps the members it does not know, sorted by key. -/
def Decoder.openRecord (start : α) (fields : List (Slot α)) (keep : String → Value → α → α) :
    Decoder α
  | budget, .object members rest =>
    match budget with
    | 0 => .error .malformed
    | budget + 1 => do
      let (_, record) ←
        Slot.readMembers fields (fun key d => (Decoder.value budget d).map (keep key)) budget []
          start members
      finish rest record
  | _, d => .error d.mismatch

/-- A record that passes over the members it does not know. With `complete` it needs all of those it
knows. -/
def Decoder.closedRecord (complete : Bool) (start : α) (fields : List (Slot α)) : Decoder α
  | budget, .object members rest =>
    match budget with
    | 0 => .error .malformed
    | budget + 1 => do
      let (seen, record) ←
        Slot.readMembers fields (fun _ d => d.skip.map fun _ => id) budget [] start members
      let record ← finish rest record
      if complete && seen.length != fields.length then .error .mistyped else .ok record
  | budget, .array ds rest =>
    match budget with
    | 0 => .error .malformed
    | budget + 1 => Slot.readItems complete budget rest fields start ds
  | _, d => .error d.mismatch

/-- What `decode` reads in a text, if nothing but white space follows it. -/
def Decoder.parse (decode : Decoder α) (s : String) : Except Fault α := do
  let page := Page.ofText s
  let a ← decode maxDepth page.document
  if page.ends then .ok a else .error .malformed

end CollectionRunner.Json
