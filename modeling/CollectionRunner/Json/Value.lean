import CollectionRunner.Decimal.Binary64
import CollectionRunner.Keyed

/-!
JSON values. The members of an object keep the order in which they are written; `canonical` sorts
them by key and keeps the last of several members with one key, so two objects with equal canonical
forms hold the same members.
-/

namespace CollectionRunner.Json

open Decimal

/-- A number: a whole one of 64 bits, signed or not, or a binary64 one. -/
inductive Number
  | int (n : Int)
  | float (x : Binary64)
  deriving DecidableEq, Repr

/-- A JSON value. -/
inductive Value
  | null
  | bool (b : Bool)
  | number (n : Number)
  | string (s : String)
  | array (items : List Value)
  | object (members : List (String × Value))
  deriving Repr

instance : Inhabited Value := ⟨.null⟩

/-- Members sorted by key, with one member for a key. -/
abbrev Members := Keyed Value

mutual
/-- The value with the members of every object sorted by key and a repeated key kept once, with its
last value. -/
def Value.canonical : Value → Value
  | .array items => .array (Value.canonicalItems items)
  | .object members => .object (Value.canonicalMembers [] members)
  | .null => .null
  | .bool b => .bool b
  | .number n => .number n
  | .string s => .string s

/-- The canonical items of an array. -/
def Value.canonicalItems : List Value → List Value
  | [] => []
  | v :: vs => v.canonical :: Value.canonicalItems vs

/-- The canonical members, put into `done` one after the other. -/
def Value.canonicalMembers (done : Members) : List (String × Value) → Members
  | [] => done
  | (k, v) :: ms => Value.canonicalMembers (done.put k v.canonical) ms
end

namespace Value

/-- The text of a string. -/
def string? : Value → Option String
  | .string s => some s
  | _ => none

/-- A truth value. -/
def bool? : Value → Option Bool
  | .bool b => some b
  | _ => none

/-- The items of an array. -/
def array? : Value → Option (List Value)
  | .array items => some items
  | _ => none

/-- The value of a member of an object. -/
def member? (v : Value) (key : String) : Option Value :=
  match v with
  | .object ms => ms.lookup key
  | _ => none

/-- A natural number as a value. -/
def ofNat (n : Nat) : Value := .number (.int n)

/-- A text if there is one, else null. -/
def ofOption (f : α → Value) : Option α → Value
  | none => .null
  | some a => f a

end Value

end CollectionRunner.Json
