/-!
Entries sorted by their keys, with one entry for a key.
-/

namespace CollectionRunner

/-- Entries in the order of their keys. -/
abbrev Keyed (α : Type) := List (String × α)

namespace Keyed

/-- Sets the entry of `key`, at its place in the order of the keys. -/
def put (key : String) (a : α) : Keyed α → Keyed α
  | [] => [(key, a)]
  | (k, b) :: es =>
    if key < k then (key, a) :: (k, b) :: es
    else if key = k then (key, a) :: es
    else (k, b) :: put key a es

/-- The entry of `key`. -/
def get? (es : Keyed α) (key : String) : Option α := es.lookup key

theorem get?_put_self (es : Keyed α) (key : String) (a : α) :
    (es.put key a).get? key = some a := by
  induction es with
  | nil => simp [put, get?]
  | cons e es ih =>
    obtain ⟨k, b⟩ := e
    simp only [put]
    split
    · simp [get?]
    · split
      · simp [get?]
      · next _ h =>
        have : (key == k) = false := by simpa using h
        simpa [get?, List.lookup_cons, this] using ih

theorem get?_put_ne (es : Keyed α) {key other : String} (h : other ≠ key) (a : α) :
    (es.put key a).get? other = es.get? other := by
  induction es with
  | nil => simp [put, get?, List.lookup_cons, beq_eq_false_iff_ne.mpr h]
  | cons e es ih =>
    obtain ⟨k, b⟩ := e
    have hk : (other == key) = false := beq_eq_false_iff_ne.mpr h
    simp only [put]
    split
    · simp [get?, List.lookup_cons, hk]
    · split
      · next _ h' => subst h'; simp [get?, List.lookup_cons, hk]
      · simp only [get?, List.lookup_cons]
        split
        · rfl
        · simpa [get?] using ih

end Keyed

end CollectionRunner
