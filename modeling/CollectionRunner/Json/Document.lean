import CollectionRunner.Json.Value

/-!
What a JSON text holds, up to the place where it stops being JSON.

A document is kept apart from a value because a reader consumes it from left to right and stops at
the first fault: a member of the wrong type in front of malformed text is a fault of type, behind it
the malformed text comes first. A string or number that has the right form but stands for nothing (a
lone surrogate, a number beyond the finite ones) is a fault for a reader and none for one who skips
it.
-/

namespace CollectionRunner.Json

/-- The kinds of fault in a JSON text. -/
inductive Fault
  /-- The text ends too early. -/
  | eof
  /-- The text is malformed, or nests too deep. -/
  | malformed
  /-- A value has not the type or range that is asked for. -/
  | mistyped
  deriving DecidableEq, Repr

/-- A place where the text stops being JSON: the fault met by a reader, and the one met by who skips
over the value. -/
structure Break where
  reading : Fault
  skipping : Fault
  deriving DecidableEq, Repr

/-- The same fault for both. -/
def Break.of (f : Fault) : Break := ⟨f, f⟩

/-- The content of a JSON text. The second part of an array or object is the fault met where a
further item or member, or the closing bracket, should stand. -/
inductive Document
  | null
  | bool (b : Bool)
  | number (n : Except Fault Number)
  | string (s : Except Fault String)
  | array (items : List Document) (rest : Option Break)
  | object (members : List (Except Fault String × Document)) (rest : Option Break)
  | broken (b : Break)

instance : Inhabited Document := ⟨.null⟩

/-- The greatest number of containers that may stand inside each other. -/
def maxDepth : Nat := 127

/-- The fault that ends a container, if there is one. -/
def finish (rest : Option Break) (a : α) : Except Fault α :=
  match rest with
  | none => .ok a
  | some b => .error b.reading

mutual
/-- The value of a document of which at most `budget` containers stand inside each other. -/
def Document.value (budget : Nat) : Document → Except Fault Value
  | .null => .ok .null
  | .bool b => .ok (.bool b)
  | .number n => n.map .number
  | .string s => s.map .string
  | .array items rest =>
    match budget with
    | 0 => .error .malformed
    | budget + 1 => do
      let vs ← Document.values budget items
      finish rest (.array vs)
  | .object members rest =>
    match budget with
    | 0 => .error .malformed
    | budget + 1 => do
      let ms ← Document.memberValues budget members
      finish rest (.object ms)
  | .broken b => .error b.reading

/-- The values of the items of an array. -/
def Document.values (budget : Nat) : List Document → Except Fault (List Value)
  | [] => .ok []
  | d :: ds => do
    let v ← d.value budget
    let vs ← Document.values budget ds
    pure (v :: vs)

/-- The keys and values of the members of an object. -/
def Document.memberValues (budget : Nat) :
    List (Except Fault String × Document) → Except Fault (List (String × Value))
  | [] => .ok []
  | (key, d) :: ms => do
    let k ← key
    let v ← d.value budget
    let ms ← Document.memberValues budget ms
    pure ((k, v) :: ms)
end

mutual
/-- Passes over a document; only its form matters. -/
def Document.skip : Document → Except Fault Unit
  | .array items rest => do
    Document.skipItems items
    match rest with
    | none => pure ()
    | some b => .error b.skipping
  | .object members rest => do
    Document.skipMembers members
    match rest with
    | none => pure ()
    | some b => .error b.skipping
  | .broken b => .error b.skipping
  | .null => .ok ()
  | .bool _ => .ok ()
  | .number _ => .ok ()
  | .string _ => .ok ()

/-- Passes over the items of an array. -/
def Document.skipItems : List Document → Except Fault Unit
  | [] => .ok ()
  | d :: ds => do
    d.skip
    Document.skipItems ds

/-- Passes over the members of an object. -/
def Document.skipMembers : List (Except Fault String × Document) → Except Fault Unit
  | [] => .ok ()
  | (_, d) :: ms => do
    d.skip
    Document.skipMembers ms
end

/-- The fault of a document that has not the type asked for: a scalar is read first. -/
def Document.mismatch : Document → Fault
  | .number (.error f) => f
  | .string (.error f) => f
  | .broken b => b.reading
  | _ => .mistyped

end CollectionRunner.Json
