import CollectionRunner.Json.Decoder
import CollectionRunner.Proofs.Json.Canonical
import CollectionRunner.Proofs.Json.Decoded

/-!
# Whole numbers

Whole numbers of 64 bits are kept exactly by the printer and by the scanner. A document with whole
numbers only has a value with whole numbers only, and so has its canonical form.
-/

namespace CollectionRunner.Json

open Decimal

/-- A whole number of 64 bits, with a sign or without one. Minus zero is written as one and kept as
a binary64 number. -/
def Number.IsWhole : Number → Prop
  | .int n => -(maxNegative : Int) ≤ n ∧ n ≤ maxWhole
  | .float x => x = Binary64.zero.neg

mutual
/-- All numbers of a value are whole. -/
def Value.Whole : Value → Prop
  | .number n => n.IsWhole
  | .array items => Value.ItemsWhole items
  | .object members => Value.MembersWhole members
  | .null => True
  | .bool _ => True
  | .string _ => True

/-- All numbers of the items of an array are whole. -/
def Value.ItemsWhole : List Value → Prop
  | [] => True
  | v :: vs => v.Whole ∧ Value.ItemsWhole vs

/-- All numbers of the members of an object are whole. -/
def Value.MembersWhole : List (String × Value) → Prop
  | [] => True
  | (_, v) :: ms => v.Whole ∧ Value.MembersWhole ms
end

mutual
/-- All numbers of a document that a reader has something of are whole. -/
def Document.Whole : Document → Prop
  | .number n => ∀ x, n = .ok x → x.IsWhole
  | .array items _ => Document.ItemsWhole items
  | .object members _ => Document.MembersWhole members
  | .null => True
  | .bool _ => True
  | .string _ => True
  | .broken _ => True

/-- All numbers of the items of an array are whole. -/
def Document.ItemsWhole : List Document → Prop
  | [] => True
  | d :: ds => d.Whole ∧ Document.ItemsWhole ds

/-- All numbers of the members of an object are whole. -/
def Document.MembersWhole : List (Except Fault String × Document) → Prop
  | [] => True
  | (_, d) :: ms => d.Whole ∧ Document.MembersWhole ms
end

theorem Value.itemsWhole_iff {vs : List Value} : Value.ItemsWhole vs ↔ ∀ v ∈ vs, v.Whole := by
  induction vs with
  | nil => simp [Value.ItemsWhole]
  | cons v vs ih => rw [Value.ItemsWhole, List.forall_mem_cons, ih]

theorem Value.membersWhole_iff {ms : List (String × Value)} :
    Value.MembersWhole ms ↔ ∀ m ∈ ms, m.2.Whole := by
  induction ms with
  | nil => simp [Value.MembersWhole]
  | cons m ms ih =>
    obtain ⟨k, v⟩ := m
    rw [Value.MembersWhole, List.forall_mem_cons, ih]

theorem Document.itemsWhole_iff {ds : List Document} :
    Document.ItemsWhole ds ↔ ∀ d ∈ ds, d.Whole := by
  induction ds with
  | nil => simp [Document.ItemsWhole]
  | cons d ds ih => rw [Document.ItemsWhole, List.forall_mem_cons, ih]

theorem Document.membersWhole_iff {ms : List (Except Fault String × Document)} :
    Document.MembersWhole ms ↔ ∀ m ∈ ms, m.2.Whole := by
  induction ms with
  | nil => simp [Document.MembersWhole]
  | cons m ms ih =>
    obtain ⟨k, d⟩ := m
    rw [Document.MembersWhole, List.forall_mem_cons, ih]

mutual
/-- The value of a document has the numbers of the document. -/
theorem Document.Whole.value : ∀ {d : Document} (_ : d.Whole) {budget : Nat} {v : Value},
    d.value budget = .ok v → v.Whole
  | .null, _, _, _, hread => by
    cases hread
    exact trivial
  | .bool _, _, _, _, hread => by
    cases hread
    exact trivial
  | .number n, h, _, _, hread => by
    obtain ⟨x, hx, rfl⟩ := exists_of_map_eq_ok hread
    exact h x hx
  | .string _, _, _, _, hread => by
    obtain ⟨s, -, rfl⟩ := exists_of_map_eq_ok hread
    exact trivial
  | .array items rest, h, budget, _, hread => by
    cases budget with
    | zero => cases hread
    | succ budget =>
      obtain ⟨vs, hvs, hend⟩ := exists_of_bind_eq_ok hread
      obtain ⟨-, rfl⟩ := finish_eq_ok hend
      exact Document.ItemsWhole.values h hvs
  | .object members rest, h, budget, _, hread => by
    cases budget with
    | zero => cases hread
    | succ budget =>
      obtain ⟨ms, hms, hend⟩ := exists_of_bind_eq_ok hread
      obtain ⟨-, rfl⟩ := finish_eq_ok hend
      exact Document.MembersWhole.memberValues h hms
  | .broken _, _, _, _, hread => by cases hread

theorem Document.ItemsWhole.values : ∀ {ds : List Document} (_ : Document.ItemsWhole ds)
    {budget : Nat} {vs : List Value}, Document.values budget ds = .ok vs → Value.ItemsWhole vs
  | [], _, _, _, hread => by
    cases hread
    exact trivial
  | d :: ds, h, _, _, hread => by
    obtain ⟨v, hv, hread⟩ := exists_of_bind_eq_ok hread
    obtain ⟨vs, hvs, hread⟩ := exists_of_bind_eq_ok hread
    cases hread
    exact ⟨Document.Whole.value h.1 hv, Document.ItemsWhole.values h.2 hvs⟩

theorem Document.MembersWhole.memberValues : ∀ {ms : List (Except Fault String × Document)}
    (_ : Document.MembersWhole ms) {budget : Nat} {vs : List (String × Value)},
    Document.memberValues budget ms = .ok vs → Value.MembersWhole vs
  | [], _, _, _, hread => by
    cases hread
    exact trivial
  | (key, d) :: ms, h, _, _, hread => by
    obtain ⟨k, -, hread⟩ := exists_of_bind_eq_ok hread
    obtain ⟨v, hv, hread⟩ := exists_of_bind_eq_ok hread
    obtain ⟨vs, hvs, hread⟩ := exists_of_bind_eq_ok hread
    cases hread
    exact ⟨Document.Whole.value h.1 hv, Document.MembersWhole.memberValues h.2 hvs⟩
end

theorem Value.MembersWhole.put {ms : Members} (h : Value.MembersWhole ms) (key : String) {v : Value}
    (hv : v.Whole) : Value.MembersWhole (ms.put key v) := by
  rw [Value.membersWhole_iff] at h ⊢
  intro m hm
  rcases Keyed.mem_put hm with rfl | hm
  · exact hv
  · exact h m hm

mutual
/-- The canonical form of a value has numbers of the value. -/
theorem Value.Whole.canonical : ∀ {v : Value} (_ : v.Whole), v.canonical.Whole
  | .null, _ => trivial
  | .bool _, _ => trivial
  | .number _, h => h
  | .string _, _ => trivial
  | .array items, h => by
    rw [Value.canonical]
    exact Value.ItemsWhole.canonicalItems h
  | .object members, h => by
    rw [Value.canonical]
    exact @Value.MembersWhole.canonicalMembers [] _ trivial h

theorem Value.ItemsWhole.canonicalItems : ∀ {vs : List Value} (_ : Value.ItemsWhole vs),
    Value.ItemsWhole (Value.canonicalItems vs)
  | [], _ => trivial
  | _ :: _, h => ⟨Value.Whole.canonical h.1, Value.ItemsWhole.canonicalItems h.2⟩

theorem Value.MembersWhole.canonicalMembers : ∀ {done : Members} {ms : List (String × Value)}
    (_ : Value.MembersWhole done) (_ : Value.MembersWhole ms),
    Value.MembersWhole (Value.canonicalMembers done ms)
  | _, [], hdone, _ => hdone
  | _, (k, _) :: _, hdone, h => by
    rw [Value.canonicalMembers]
    exact Value.MembersWhole.canonicalMembers (hdone.put k (Value.Whole.canonical h.1)) h.2
end

end CollectionRunner.Json
