import CollectionRunner.Json.Decoder
import CollectionRunner.Proofs.Json.Canonical
import CollectionRunner.Proofs.Json.Reread

/-!
# Values that are read back

A reader restores something from a value when it reads it in the document of the value, as long as
the value does not nest deeper than the reader may follow it. Lists are restored item by item.
-/

namespace CollectionRunner.Json

/-! ## Nesting -/

mutual
/-- The greatest number of containers that stand inside each other in a value. -/
def Value.depth : Value → Nat
  | .array items => Value.itemsDepth items + 1
  | .object members => Value.membersDepth members + 1
  | .null => 0
  | .bool _ => 0
  | .number _ => 0
  | .string _ => 0

/-- The greatest depth of an item. -/
def Value.itemsDepth : List Value → Nat
  | [] => 0
  | v :: vs => max v.depth (Value.itemsDepth vs)

/-- The greatest depth of the value of a member. -/
def Value.membersDepth : List (String × Value) → Nat
  | [] => 0
  | (_, v) :: ms => max v.depth (Value.membersDepth ms)
end

theorem Value.itemsDepth_le {vs : List Value} {n : Nat} :
    Value.itemsDepth vs ≤ n ↔ ∀ v ∈ vs, v.depth ≤ n := by
  induction vs with
  | nil => simp [Value.itemsDepth]
  | cons v vs ih => rw [Value.itemsDepth, List.forall_mem_cons, ← ih, Nat.max_le]

theorem Value.membersDepth_le {ms : List (String × Value)} {n : Nat} :
    Value.membersDepth ms ≤ n ↔ ∀ m ∈ ms, m.2.depth ≤ n := by
  induction ms with
  | nil => simp [Value.membersDepth]
  | cons m ms ih =>
    obtain ⟨k, v⟩ := m
    rw [Value.membersDepth, List.forall_mem_cons, ← ih, Nat.max_le]

theorem Value.memberDocuments_append (ms ns : List (String × Value)) :
    Value.memberDocuments (ms ++ ns) = Value.memberDocuments ms ++ Value.memberDocuments ns := by
  induction ms with
  | nil => rfl
  | cons m ms ih =>
    obtain ⟨k, v⟩ := m
    rw [List.cons_append, Value.memberDocuments, Value.memberDocuments, ih, List.cons_append]

mutual
/-- The value of the document of a value is the value. -/
theorem Value.value_document : ∀ (v : Value) (budget : Nat), v.depth ≤ budget →
    v.document.value budget = .ok v
  | .null, _, _ => rfl
  | .bool _, _, _ => rfl
  | .number _, _, _ => rfl
  | .string _, _, _ => rfl
  | .array items, 0, h => by
    rw [Value.depth] at h
    cases h
  | .array items, budget + 1, h => by
    rw [Value.depth] at h
    rw [Value.document, Document.value,
      Value.values_documents items budget (Nat.le_of_succ_le_succ h)]
    rfl
  | .object members, 0, h => by
    rw [Value.depth] at h
    cases h
  | .object members, budget + 1, h => by
    rw [Value.depth] at h
    rw [Value.document, Document.value,
      Value.memberValues_memberDocuments members budget (Nat.le_of_succ_le_succ h)]
    rfl

theorem Value.values_documents : ∀ (vs : List Value) (budget : Nat), Value.itemsDepth vs ≤ budget →
    Document.values budget (Value.documents vs) = .ok vs
  | [], _, _ => rfl
  | v :: vs, budget, h => by
    rw [Value.itemsDepth, Nat.max_le] at h
    rw [Value.documents, Document.values, Value.value_document v budget h.1,
      Value.values_documents vs budget h.2]
    rfl

theorem Value.memberValues_memberDocuments : ∀ (ms : List (String × Value)) (budget : Nat),
    Value.membersDepth ms ≤ budget →
    Document.memberValues budget (Value.memberDocuments ms) = .ok ms
  | [], _, _ => rfl
  | (k, v) :: ms, budget, h => by
    rw [Value.membersDepth, Nat.max_le] at h
    rw [Value.memberDocuments, Document.memberValues, Value.value_document v budget h.1,
      Value.memberValues_memberDocuments ms budget h.2]
    rfl
end

/-! ## Readers -/

/-- A value has whole numbers only, and `decode` reads `a` in its document, if the value nests no
deeper than `budget`. -/
structure Restores (budget : Nat) (decode : Decoder α) (v : Value) (a : α) : Prop where
  whole : v.Whole
  read : v.depth ≤ budget → decode budget v.document = .ok a

theorem restores_string (budget : Nat) (s : String) :
    Restores budget Decoder.string (.string s) s :=
  ⟨trivial, fun _ => rfl⟩

theorem restores_bool (budget : Nat) (b : Bool) : Restores budget Decoder.bool (.bool b) b :=
  ⟨trivial, fun _ => rfl⟩

theorem restores_value (budget : Nat) {v : Value} (hwhole : v.Whole)
    (hcanonical : v.canonical = v) :
    Restores budget Decoder.value v v := by
  refine ⟨hwhole, fun hdepth => ?_⟩
  rw [Decoder.value, v.value_document budget hdepth]
  exact congrArg Except.ok hcanonical

theorem restores_untagged (budget : Nat) {form? : Value → Option α} {v : Value} {a : α}
    (hwhole : v.Whole) (hform : form? v = some a) :
    Restores budget (Decoder.untagged form?) v a := by
  refine ⟨hwhole, fun hdepth => ?_⟩
  simp only [Decoder.untagged, v.value_document budget hdepth, bind, Except.bind, hform]

/-- Something other than null is there. -/
theorem Restores.optional {budget : Nat} {decode : Decoder α} {v : Value} {a : α}
    (h : Restores budget decode v a) (hnull : v ≠ .null) :
    Restores budget (Decoder.optional decode) v (some a) := by
  refine ⟨h.whole, fun hdepth => ?_⟩
  -- only the document null is taken for an absent one
  have hsome : Decoder.optional decode budget v.document =
      (decode budget v.document).map some := by
    cases v with
    | null => exact absurd rfl hnull
    | _ => rw [Value.document]; rfl
  rw [hsome, h.read hdepth]
  rfl

theorem items_documents {budget : Nat} {decode : Decoder α} {write : α → Value} {as : List α}
    (h : ∀ a ∈ as, Restores budget decode (write a) a)
    (hdepth : Value.itemsDepth (as.map write) ≤ budget) :
    Decoder.items (decode budget) (Value.documents (as.map write)) = .ok as := by
  induction as with
  | nil => rfl
  | cons a as ih =>
    obtain ⟨ha, has⟩ := List.forall_mem_cons.mp h
    rw [List.map_cons, Value.itemsDepth, Nat.max_le] at hdepth
    rw [List.map_cons, Value.documents, Decoder.items, ha.read hdepth.1, ih has hdepth.2]
    rfl

/-- A list is restored from the values of its items, which stand one container deeper. -/
theorem restores_array {budget : Nat} {decode : Decoder α} {write : α → Value} {as : List α}
    (h : ∀ a ∈ as, Restores (budget - 1) decode (write a) a) :
    Restores budget (Decoder.array decode) (.array (as.map write)) as := by
  constructor
  · rw [Value.Whole, Value.itemsWhole_iff]
    intro v hv
    obtain ⟨a, ha, rfl⟩ := List.mem_map.mp hv
    exact (h a ha).whole
  · intro hdepth
    rw [Value.depth] at hdepth
    cases budget with
    | zero => cases hdepth
    | succ budget =>
      rw [Nat.add_sub_cancel] at h
      rw [Value.document, Decoder.array, items_documents h (Nat.le_of_succ_le_succ hdepth)]
      rfl

/-! ## Members of records -/

/-- Reading the member from a value, if there is one, makes a change that leads from one record to
the other. -/
def Slot.Restores (budget : Nat) (slot : Slot α) (o : Option Value) (a b : α) : Prop :=
  match o with
  | none => a = b
  | some v => v.Whole ∧ (v.depth ≤ budget →
      ∃ change, slot.decode budget v.document = .ok change ∧ change a = b)

section

variable {budget : Nat} {key : String} {a : α} {decode : Decoder β}

theorem Slot.restores_of {set : β → α → α} {v : Value} {b : β}
    (h : Json.Restores budget decode v b) :
    (Slot.of key decode set).Restores budget (some v) a (set b a) := by
  refine ⟨h.whole, fun hdepth => ⟨set b, ?_, rfl⟩⟩
  show (decode budget v.document).map set = _
  rw [h.read hdepth]
  rfl

/-- A member that is written when it is there. -/
theorem Slot.restores_optional {set : Option β → α → α} {write : β → Value} {o : Option β}
    (h : ∀ b, o = some b → Json.Restores budget decode (write b) b)
    (hnull : ∀ b, o = some b → write b ≠ .null) (hnone : set none a = a) :
    (Slot.of key (Decoder.optional decode) set).Restores budget (o.map write) a (set o a) := by
  cases o with
  | none => exact hnone.symm
  | some b => exact Slot.restores_of ((h b rfl).optional (hnull b rfl))

/-- A text that is written when it is there. -/
theorem Slot.restores_text {set : Option String → α → α} {o : Option String}
    (hnone : set none a = a) :
    (Slot.of key (Decoder.optional Decoder.string) set).Restores budget (o.map .string) a
      (set o a) :=
  Slot.restores_optional (fun s _ => restores_string budget s)
    (fun _ _ hnull => Value.noConfusion hnull) hnone

/-- A switch that is written when it is on. -/
theorem Slot.restores_switch {set : Bool → α → α} {on : Bool} (hoff : set false a = a) :
    (Slot.of key Decoder.bool set).Restores budget (if !on then none else some (.bool on)) a
      (set on a) := by
  cases on with
  | false => exact hoff.symm
  | true => exact Slot.restores_of (restores_bool budget true)

/-- A list that is written when it is not empty. -/
theorem Slot.restores_list {set : List β → α → α} {write : β → Value} {bs : List β}
    (h : ∀ b ∈ bs, Json.Restores (budget - 1) decode (write b) b) (hnil : set [] a = a) :
    (Slot.of key (Decoder.array decode) set).Restores budget
      (if bs.isEmpty then none else some (.array (bs.map write))) a (set bs a) := by
  cases bs with
  | nil => exact hnil.symm
  | cons b bs => exact Slot.restores_of (restores_array h)

end

end CollectionRunner.Json
