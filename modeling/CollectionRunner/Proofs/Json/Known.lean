import CollectionRunner.Proofs.Json.Restored

/-!
# What a reader knows of a value

A record passes over the members that it does not know. So what is read in a value depends on what
is left of it without those members, at every depth down to the values that are taken whole. Main
statement: `Sees.parse_eq`.
-/

namespace CollectionRunner.Json

open Decoder

/-! ## Shapes -/

/-- What is known of the form of a value. -/
inductive Shape
  /-- The value is taken as it is. -/
  | whole
  /-- The value is null, a truth value, a number or a string; of any other one its kind is known. -/
  | scalar
  /-- A record with the given members, in the order in which an array lists them. -/
  | record (members : List (String × Shape))
  | list (item : Shape)

mutual
/-- The value without the members that are not known. -/
def Shape.known : Shape → Value → Value
  | .record members, .object ms => .object (Shape.knownMembers members ms)
  | .record members, .array vs => .array (Shape.knownItems members vs)
  | .list item, .array vs => .array (Shape.knownList item vs)
  | .list _, .object _ => .object []
  | .scalar, .array _ => .array []
  | .scalar, .object _ => .object []
  | _, v => v

/-- The members that a record knows. -/
def Shape.knownMembers (members : List (String × Shape)) :
    List (String × Value) → List (String × Value)
  | [] => []
  | (key, v) :: ms =>
    match members.lookup key with
    | some shape => (key, shape.known v) :: Shape.knownMembers members ms
    | none => Shape.knownMembers members ms

/-- The items that stand for the members of a record; of items behind the last member it is known
that there are some. -/
def Shape.knownItems : List (String × Shape) → List Value → List Value
  | _, [] => []
  | [], _ :: _ => [.null]
  | (_, shape) :: members, v :: vs => shape.known v :: Shape.knownItems members vs

/-- The items of a list. -/
def Shape.knownList (item : Shape) : List Value → List Value
  | [] => []
  | v :: vs => item.known v :: Shape.knownList item vs
end

theorem Shape.known_whole (v : Value) : Shape.whole.known v = v := by
  cases v <;> rfl

/-! ## Documents of values -/

mutual
/-- What is read as a value is the document of that value. -/
theorem Document.eq_document_of_value : ∀ {d : Document} {budget : Nat} {v : Value},
    d.value budget = .ok v → d = v.document
  | .null, _, _, h => by
    cases h
    rfl
  | .bool _, _, _, h => by
    cases h
    rfl
  | .number n, _, _, h => by
    obtain ⟨m, rfl, rfl⟩ := exists_of_map_eq_ok h
    rfl
  | .string s, _, _, h => by
    obtain ⟨t, rfl, rfl⟩ := exists_of_map_eq_ok h
    rfl
  | .array _ _, 0, _, h => by cases h
  | .array items rest, budget + 1, v, h => by
    obtain ⟨vs, hvs, hend⟩ := exists_of_bind_eq_ok h
    obtain ⟨rfl, rfl⟩ := finish_eq_ok hend
    rw [Document.eq_documents_of_values hvs, Value.document]
  | .object _ _, 0, _, h => by cases h
  | .object members rest, budget + 1, v, h => by
    obtain ⟨ms, hms, hend⟩ := exists_of_bind_eq_ok h
    obtain ⟨rfl, rfl⟩ := finish_eq_ok hend
    rw [Document.eq_memberDocuments_of_memberValues hms, Value.document]
  | .broken _, _, _, h => by cases h

theorem Document.eq_documents_of_values : ∀ {ds : List Document} {budget : Nat} {vs : List Value},
    Document.values budget ds = .ok vs → ds = Value.documents vs
  | [], _, _, h => by
    cases h
    rfl
  | d :: ds, budget, vs, h => by
    obtain ⟨v, hv, h⟩ := exists_of_bind_eq_ok h
    obtain ⟨vs', hvs, h⟩ := exists_of_bind_eq_ok h
    cases h
    rw [Document.eq_document_of_value hv, Document.eq_documents_of_values hvs, Value.documents]

theorem Document.eq_memberDocuments_of_memberValues :
    ∀ {ms : List (Except Fault String × Document)} {budget : Nat} {vs : List (String × Value)},
      Document.memberValues budget ms = .ok vs → ms = Value.memberDocuments vs
  | [], _, _, h => by
    cases h
    rfl
  | (key, d) :: ms, budget, vs, h => by
    obtain ⟨k, hkey, h⟩ := exists_of_bind_eq_ok h
    obtain ⟨v, hv, h⟩ := exists_of_bind_eq_ok h
    obtain ⟨vs', hvs, h⟩ := exists_of_bind_eq_ok h
    cases h
    rw [hkey, Document.eq_document_of_value hv, Document.eq_memberDocuments_of_memberValues hvs,
      Value.memberDocuments]
end

mutual
/-- The document of a value can be passed over. -/
theorem Value.skip_document : ∀ v : Value, v.document.skip = .ok ()
  | .null => rfl
  | .bool _ => rfl
  | .number _ => rfl
  | .string _ => rfl
  | .array vs => by
    rw [Value.document, Document.skip, Value.skipItems_documents vs]
    rfl
  | .object ms => by
    rw [Value.document, Document.skip, Value.skipMembers_memberDocuments ms]
    rfl

theorem Value.skipItems_documents : ∀ vs : List Value,
    Document.skipItems (Value.documents vs) = .ok ()
  | [] => rfl
  | v :: vs => by
    rw [Value.documents, Document.skipItems, v.skip_document]
    exact Value.skipItems_documents vs

theorem Value.skipMembers_memberDocuments : ∀ ms : List (String × Value),
    Document.skipMembers (Value.memberDocuments ms) = .ok ()
  | [] => rfl
  | (_, v) :: ms => by
    rw [Value.memberDocuments, Document.skipMembers, v.skip_document]
    exact Value.skipMembers_memberDocuments ms
end

/-! ## Readers -/

/-- What a reader makes of a value depends on what is known of it only. -/
def Sees (shape : Shape) (decode : Decoder α) : Prop :=
  ∀ budget v, decode budget v.document = decode budget (shape.known v).document

theorem sees_whole (decode : Decoder α) : Sees .whole decode := by
  intro budget v
  rw [Shape.known_whole]

theorem sees_string : Sees .scalar Decoder.string := by
  intro budget v
  cases v <;> rfl

theorem sees_int (least most : Int) : Sees .scalar (Decoder.int least most) := by
  intro budget v
  cases v <;> rfl

theorem sees_nat (most : Nat) : Sees .scalar (Decoder.nat most) := fun budget v =>
  congrArg (Except.map Int.toNat) (sees_int 0 most budget v)

theorem sees_binary64 : Sees .scalar Decoder.binary64 := by
  intro budget v
  cases v <;> rfl

theorem Decoder.optional_of_ne_null (decode : Decoder α) (budget : Nat) {v : Value}
    (h : v ≠ .null) :
    optional decode budget v.document = (decode budget v.document).map some := by
  cases v with
  | null => exact absurd rfl h
  | _ => rw [Value.document]; rfl

theorem Shape.known_eq_null {shape : Shape} {v : Value} : shape.known v = .null ↔ v = .null := by
  cases shape <;> cases v <;> simp [known]

theorem Sees.optional {shape : Shape} {decode : Decoder α} (h : Sees shape decode) :
    Sees shape (Decoder.optional decode) := by
  intro budget v
  by_cases hnull : v = .null
  · rw [hnull, Shape.known_eq_null.mpr rfl]
  · rw [optional_of_ne_null decode budget hnull,
      optional_of_ne_null decode budget (mt Shape.known_eq_null.mp hnull), h budget v]

theorem Sees.array {shape : Shape} {decode : Decoder α} (h : Sees shape decode) :
    Sees (.list shape) (Decoder.array decode) := by
  have hitems : ∀ budget (vs : List Value), items (decode budget) (Value.documents vs) =
      items (decode budget) (Value.documents (Shape.knownList shape vs)) := by
    intro budget vs
    induction vs with
    | nil => rfl
    | cons v vs ih =>
      rw [Shape.knownList, Value.documents, Value.documents, items, items, h budget v, ih]
  intro budget v
  cases v with
  | array vs =>
    cases budget with
    | zero => rfl
    | succ budget =>
      rw [Shape.known, Value.document, Value.document, Decoder.array, Decoder.array, hitems]
  | _ => rfl

/-- The members of a record are those of a shape, each with what its reader sees. -/
def SeesMembers (members : List (String × Shape)) (fields : List (Slot α)) : Prop :=
  List.Forall₂ (fun m f => m.1 = f.key ∧ Sees m.2 f.decode) members fields

theorem Slot.sees_of {key : String} {shape : Shape} {decode : Decoder β} (h : Sees shape decode)
    (set : β → α → α) :
    key = (Slot.of key decode set).key ∧ Sees shape (Slot.of key decode set).decode :=
  ⟨rfl, fun budget v => congrArg (Except.map set) (h budget v)⟩

/-- A key is known to a shape as it is to the record. -/
theorem SeesMembers.lookup {members : List (String × Shape)} {fields : List (Slot α)}
    (h : SeesMembers members fields) (key : String) :
    (members.lookup key = none ∧ Slot.find? fields key = none) ∨
      ∃ shape f, members.lookup key = some shape ∧ Slot.find? fields key = some f ∧
        Sees shape f.decode := by
  induction h with
  | nil => exact .inl ⟨rfl, rfl⟩
  | @cons m f members fields hm _ ih =>
    obtain ⟨k, shape⟩ := m
    obtain ⟨rfl, hsees⟩ := hm
    by_cases hfound : f.key = key
    · refine .inr ⟨shape, f, ?_, ?_, hsees⟩
      · rw [hfound, List.lookup_cons_self]
      · simp [Slot.find?, hfound]
    · have hlookup : ((f.key, shape) :: members).lookup key = members.lookup key := by
        simp [List.lookup_cons, beq_eq_false_iff_ne.mpr (Ne.symm hfound)]
      have hfind : Slot.find? (f :: fields) key = Slot.find? fields key := by
        simp [Slot.find?, hfound]
      rw [hlookup, hfind]
      exact ih

theorem Slot.readMembers_of_none {fields : List (Slot α)} {key : String}
    (h : Slot.find? fields key = none) (other : String → Document → Except Fault (α → α))
    (budget : Nat) (seen : List String) (a : α) (d : Document)
    (ms : List (Except Fault String × Document)) :
    Slot.readMembers fields other budget seen a ((.ok key, d) :: ms) =
      other key d >>= fun change => Slot.readMembers fields other budget seen (change a) ms := by
  simp only [Slot.readMembers, bind, Except.bind, h]

theorem Slot.readMembers_of_some {fields : List (Slot α)} {key : String} {f : Slot α}
    (h : Slot.find? fields key = some f) (other : String → Document → Except Fault (α → α))
    (budget : Nat) (seen : List String) (a : α) (d : Document)
    (ms : List (Except Fault String × Document)) :
    Slot.readMembers fields other budget seen a ((.ok key, d) :: ms) =
      if seen.contains key then .error .mistyped
      else f.decode budget d >>= fun change =>
        Slot.readMembers fields other budget (key :: seen) (change a) ms := by
  simp only [Slot.readMembers, bind, Except.bind, h]

/-- A member that is not known is passed over. -/
theorem SeesMembers.readMembers {members : List (String × Shape)} {fields : List (Slot α)}
    (h : SeesMembers members fields) (budget : Nat) (seen : List String) (a : α)
    (ms : List (String × Value)) :
    Slot.readMembers fields (fun _ d => d.skip.map fun _ => id) budget seen a
        (Value.memberDocuments ms) =
      Slot.readMembers fields (fun _ d => d.skip.map fun _ => id) budget seen a
        (Value.memberDocuments (Shape.knownMembers members ms)) := by
  induction ms generalizing seen a with
  | nil => rfl
  | cons m ms ih =>
    obtain ⟨key, v⟩ := m
    rw [Shape.knownMembers, Value.memberDocuments]
    rcases h.lookup key with ⟨hlookup, hfind⟩ | ⟨shape, f, hlookup, hfind, hsees⟩
    · rw [Slot.readMembers_of_none hfind, v.skip_document, hlookup]
      exact ih seen a
    · simp only [hlookup, Value.memberDocuments, Slot.readMembers_of_some hfind, hsees budget v, ih]

theorem SeesMembers.readItems {members : List (String × Shape)} {fields : List (Slot α)}
    (h : SeesMembers members fields) (complete : Bool) (budget : Nat) (rest : Option Break) (a : α)
    (vs : List Value) :
    Slot.readItems complete budget rest fields a (Value.documents vs) =
      Slot.readItems complete budget rest fields a
        (Value.documents (Shape.knownItems members vs)) := by
  induction h generalizing a vs with
  | nil => cases vs <;> rfl
  | cons hm _ ih =>
    cases vs with
    | nil => rfl
    | cons v vs =>
      rw [Shape.knownItems, Value.documents, Value.documents, Slot.readItems, Slot.readItems,
        hm.2 budget v]
      exact bind_congr fun change => ih (change a) vs

/-- A record sees what its members see. -/
theorem SeesMembers.closedRecord {members : List (String × Shape)} {fields : List (Slot α)}
    (h : SeesMembers members fields) (complete : Bool) (start : α) :
    Sees (.record members) (Decoder.closedRecord complete start fields) := by
  intro budget v
  cases v with
  | object ms =>
    cases budget with
    | zero => rfl
    | succ budget =>
      rw [Shape.known, Value.document, Value.document, Decoder.closedRecord, Decoder.closedRecord,
        h.readMembers]
  | array vs =>
    cases budget with
    | zero => rfl
    | succ budget =>
      rw [Shape.known, Value.document, Value.document, Decoder.closedRecord, Decoder.closedRecord,
        h.readItems]
  | _ => rfl

/-! ## Texts -/

theorem Decoder.page_of_parse {text : String} {v : Value} (h : written.parse text = .ok v) :
    (Page.ofText text).document = v.document ∧ (Page.ofText text).ends = true := by
  obtain ⟨w, hw, hend⟩ := exists_of_bind_eq_ok h
  split at hend
  · rename_i hends
    cases hend
    exact ⟨Document.eq_document_of_value hw, hends⟩
  · cases hend

/-- The indented text of a value is read back as the value. -/
theorem parse_pretty {v : Value} (hwhole : v.Whole) (hdepth : v.depth ≤ maxDepth) :
    written.parse v.pretty = .ok v := by
  rw [Decoder.parse, Page.ofText_pretty hwhole]
  simp only [written, v.value_document maxDepth hdepth]
  rfl

/-- Two texts of values that are alike as far as a reader knows are read alike. -/
theorem Sees.parse_eq {shape : Shape} {decode : Decoder α} (h : Sees shape decode)
    {text text' : String} {v v' : Value} (hv : written.parse text = .ok v)
    (hv' : written.parse text' = .ok v') (hknown : shape.known v = shape.known v') :
    decode.parse text = decode.parse text' := by
  obtain ⟨hdocument, hends⟩ := page_of_parse hv
  obtain ⟨hdocument', hends'⟩ := page_of_parse hv'
  have hread : decode maxDepth v.document = decode maxDepth v'.document := by
    rw [h maxDepth v, h maxDepth v', hknown]
  simp only [Decoder.parse, hdocument, hdocument', hends, hends', hread]

end CollectionRunner.Json
