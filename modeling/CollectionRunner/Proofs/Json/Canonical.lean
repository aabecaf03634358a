import CollectionRunner.Json.Value
import CollectionRunner.Proofs.Json.Sorted

/-!
# Canonical values

The canonical form of a value is its own canonical form, and what is found in a canonical object is
what its members say, the last of those with one key.
-/

namespace CollectionRunner.Json

open Keyed

namespace Value

theorem canonicalMembers_append (done : Members) (xs ys : List (String × Value)) :
    canonicalMembers done (xs ++ ys) = canonicalMembers (canonicalMembers done xs) ys := by
  induction xs generalizing done with
  | nil => rfl
  | cons x xs ih => exact ih (done.put x.1 x.2.canonical)

theorem canonicalMembers_ne_nil {done : Members} (h : done ≠ []) (ms : List (String × Value)) :
    canonicalMembers done ms ≠ [] := by
  induction ms generalizing done with
  | nil => exact h
  | cons m ms ih => exact ih (put_ne_nil done m.1 m.2.canonical)

theorem canonicalMembers_eq_nil {ms : List (String × Value)} :
    canonicalMembers [] ms = [] ↔ ms = [] := by
  cases ms with
  | nil => exact ⟨fun _ => rfl, fun _ => rfl⟩
  | cons m ms =>
    have hne := canonicalMembers_ne_nil (put_ne_nil [] m.1 m.2.canonical) ms
    exact ⟨fun h => absurd h hne, fun h => absurd h (List.cons_ne_nil _ _)⟩

theorem sorted_canonicalMembers {done : Members} (h : done.Sorted) (ms : List (String × Value)) :
    (canonicalMembers done ms).Sorted := by
  induction ms generalizing done with
  | nil => exact h
  | cons m ms ih => exact ih (h.put m.1 m.2.canonical)

/-- Members of which no two have one key are all found; the others are those found before. -/
theorem get?_canonicalMembers {ms : List (String × Value)} (h : (ms.map Prod.fst).Nodup)
    (done : Members) (key : String) :
    (canonicalMembers done ms).get? key =
      ((get? ms key).map Value.canonical).or (done.get? key) := by
  induction ms generalizing done with
  | nil => rfl
  | cons m ms ih =>
    obtain ⟨k, v⟩ := m
    obtain ⟨hk, hms⟩ := List.nodup_cons.mp h
    rw [canonicalMembers, ih hms, get?_put, get?_cons]
    by_cases hkey : key = k
    · rw [if_pos hkey, if_pos hkey, hkey, get?_eq_none_of_notMem hk]
      rfl
    · rw [if_neg hkey, if_neg hkey]

end Value

/-- The members of a canonical object. -/
structure Canonical (ms : Members) : Prop where
  sorted : ms.Sorted
  values : ∀ key v, ms.get? key = some v → v.canonical = v

namespace Canonical

theorem nil : Canonical [] := ⟨sorted_nil, fun _ _ h => by cases h⟩

theorem put {ms : Members} (h : Canonical ms) (key : String) {v : Value} (hv : v.canonical = v) :
    Canonical (ms.put key v) := by
  refine ⟨h.sorted.put key v, fun other w hw => ?_⟩
  rw [get?_put] at hw
  split at hw
  · rw [← Option.some.inj hw, hv]
  · exact h.values other w hw

theorem map_get? {ms : Members} (h : Canonical ms) (key : String) :
    (ms.get? key).map Value.canonical = ms.get? key := by
  cases hget : ms.get? key with
  | none => rfl
  | some v => rw [Option.map_some, h.values key v hget]

theorem canonicalMembers_eq {ms : Members} (h : Canonical ms) :
    Value.canonicalMembers [] ms = ms := by
  refine Sorted.ext (Value.sorted_canonicalMembers sorted_nil ms) h.sorted fun key => ?_
  rw [Value.get?_canonicalMembers h.sorted.nodup, h.map_get?]
  exact Option.or_none

end Canonical

mutual
theorem Value.canonical_canonical : ∀ v : Value, v.canonical.canonical = v.canonical
  | .array items => by
    rw [Value.canonical, Value.canonical, Value.canonicalItems_canonicalItems items]
  | .object ms => by
    rw [Value.canonical, Value.canonical,
      (Value.canonical_canonicalMembers Canonical.nil ms).canonicalMembers_eq]
  | .null => rfl
  | .bool _ => rfl
  | .number _ => rfl
  | .string _ => rfl

theorem Value.canonicalItems_canonicalItems :
    ∀ vs : List Value, canonicalItems (canonicalItems vs) = canonicalItems vs
  | [] => rfl
  | v :: vs => by
    rw [Value.canonicalItems, Value.canonicalItems, Value.canonical_canonical v,
      Value.canonicalItems_canonicalItems vs]

theorem Value.canonical_canonicalMembers {done : Members} (h : Canonical done) :
    ∀ ms : List (String × Value), Canonical (canonicalMembers done ms)
  | [] => h
  | (k, v) :: ms =>
    Value.canonical_canonicalMembers (h.put k (Value.canonical_canonical v)) ms
end

theorem Value.canonicalItems_eq_map (vs : List Value) :
    Value.canonicalItems vs = vs.map Value.canonical := by
  induction vs with
  | nil => rfl
  | cons v vs ih => rw [Value.canonicalItems, ih, List.map_cons]

end CollectionRunner.Json
