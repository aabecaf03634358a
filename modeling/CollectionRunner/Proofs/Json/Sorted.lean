import CollectionRunner.Keyed

/-!
# Entries in the order of their keys

Entries that are sorted by key are told apart by what is found in them.
-/

namespace CollectionRunner.Keyed

/-- The keys rise from one entry to the next one. -/
def Sorted (es : Keyed α) : Prop := es.Pairwise fun x y => x.1 < y.1

theorem get?_put (es : Keyed α) (key other : String) (a : α) :
    (es.put key a).get? other = if other = key then some a else es.get? other := by
  by_cases h : other = key
  · rw [if_pos h, h, get?_put_self]
  · rw [if_neg h, get?_put_ne es h]

theorem get?_cons (k : String) (a : α) (es : Keyed α) (key : String) :
    get? ((k, a) :: es) key = if key = k then some a else es.get? key := by
  rw [get?, List.lookup_cons]
  by_cases h : key = k
  · rw [if_pos h, h, beq_self_eq_true]
  · rw [if_neg h, beq_eq_false_iff_ne.mpr h]
    rfl

theorem mem_put {es : Keyed α} {key : String} {a : α} {e : String × α} (h : e ∈ es.put key a) :
    e = (key, a) ∨ e ∈ es := by
  induction es with
  | nil => exact .inl (List.mem_singleton.mp h)
  | cons f es ih =>
    obtain ⟨k, b⟩ := f
    rw [put] at h
    split at h
    · exact List.mem_cons.mp h
    · split at h
      · rcases List.mem_cons.mp h with h | h
        · exact .inl h
        · exact .inr (List.mem_cons_of_mem _ h)
      · rcases List.mem_cons.mp h with h | h
        · exact .inr (h ▸ List.mem_cons_self)
        · exact (ih h).imp_right (List.mem_cons_of_mem _)

theorem put_ne_nil (es : Keyed α) (key : String) (a : α) : es.put key a ≠ [] := by
  cases es with
  | nil => exact List.cons_ne_nil _ _
  | cons e es =>
    rw [put]
    split
    · exact List.cons_ne_nil _ _
    · split <;> exact List.cons_ne_nil _ _

theorem sorted_nil : Sorted ([] : Keyed α) := .nil

theorem Sorted.put {es : Keyed α} (h : es.Sorted) (key : String) (a : α) :
    (es.put key a).Sorted := by
  induction es with
  | nil => exact List.pairwise_singleton _ _
  | cons e es ih =>
    obtain ⟨k, b⟩ := e
    obtain ⟨hhead, htail⟩ := List.pairwise_cons.mp h
    rw [Keyed.put]
    split
    · rename_i hlt
      refine List.pairwise_cons.mpr ⟨fun e he => ?_, h⟩
      rcases List.mem_cons.mp he with rfl | he
      · exact hlt
      · exact String.lt_trans hlt (hhead e he)
    · split
      · rename_i heq
        exact List.pairwise_cons.mpr ⟨fun e he => heq ▸ hhead e he, htail⟩
      · rename_i hnlt hne
        -- neither before the first key nor the first key itself, so behind it
        have hkey : k < key := by
          rw [← String.not_le]
          exact fun hle => hne (String.le_antisymm hle (String.not_lt.mp hnlt))
        refine List.pairwise_cons.mpr ⟨fun e he => ?_, ih htail⟩
        rcases mem_put he with rfl | he
        · exact hkey
        · exact hhead e he

theorem Sorted.nodup {es : Keyed α} (h : es.Sorted) : (es.map Prod.fst).Nodup := by
  rw [List.Nodup, List.pairwise_map]
  exact h.imp String.ne_of_lt

theorem mem_of_get?_eq_some {es : Keyed α} {key : String} {a : α} (h : es.get? key = some a) :
    (key, a) ∈ es := by
  induction es with
  | nil => cases h
  | cons e es ih =>
    obtain ⟨k, b⟩ := e
    rw [get?_cons] at h
    split at h
    · rename_i heq
      rw [heq, ← Option.some.inj h]
      exact List.mem_cons_self
    · exact List.mem_cons_of_mem _ (ih h)

theorem get?_eq_none_of_notMem {es : Keyed α} {key : String} (h : key ∉ es.map Prod.fst) :
    es.get? key = none := by
  cases hkey : es.get? key with
  | none => rfl
  | some a => exact absurd (List.mem_map_of_mem (f := Prod.fst) (mem_of_get?_eq_some hkey)) h

theorem get?_eq_some_of_mem {es : Keyed α} (h : (es.map Prod.fst).Nodup) {e : String × α}
    (he : e ∈ es) : es.get? e.1 = some e.2 := by
  induction es with
  | nil => cases he
  | cons f es ih =>
    obtain ⟨k, a⟩ := f
    obtain ⟨hk, hes⟩ := List.nodup_cons.mp h
    rw [get?_cons]
    rcases List.mem_cons.mp he with rfl | he
    · rw [if_pos rfl]
    · have hmem : e.1 ∈ es.map Prod.fst := List.mem_map_of_mem he
      have hne : e.1 ≠ k := fun heq => hk (heq ▸ hmem)
      rw [if_neg hne]
      exact ih hes he

theorem map_fst_filterMap_sublist (es : Keyed α) (f : α → Option β) :
    ((es.filterMap fun e => (f e.2).map fun b => (e.1, b)).map Prod.fst).Sublist
      (es.map Prod.fst) := by
  induction es with
  | nil => exact .slnil
  | cons e es ih =>
    rw [List.filterMap_cons]
    cases f e.2 with
    | none => exact ih.cons e.1
    | some b => exact ih.cons_cons e.1

/-- What is found when entries are rewritten in place, or left out. -/
theorem get?_filterMap {es : Keyed α} (h : (es.map Prod.fst).Nodup) (f : α → Option β)
    (key : String) :
    get? (es.filterMap fun e => (f e.2).map fun b => (e.1, b)) key = (es.get? key).bind f := by
  induction es with
  | nil => rfl
  | cons e es ih =>
    obtain ⟨k, a⟩ := e
    obtain ⟨hk, hes⟩ := List.nodup_cons.mp h
    rw [get?_cons, List.filterMap_cons]
    by_cases hkey : key = k
    · rw [if_pos hkey, Option.bind_some]
      cases hf : f a with
      | none =>
        rw [Option.map_none, ih hes, hkey, get?_eq_none_of_notMem hk]
        rfl
      | some b => rw [Option.map_some, get?_cons, if_pos hkey]
    · rw [if_neg hkey, ← ih hes]
      cases hf : f a with
      | none => rfl
      | some b => rw [Option.map_some, get?_cons, if_neg hkey]

theorem Sorted.get?_tail {k : String} {b : α} {es : Keyed α} (h : Sorted ((k, b) :: es)) :
    es.get? k = none := by
  cases hk : es.get? k with
  | none => rfl
  | some a =>
    have hlt := (List.pairwise_cons.mp h).1 _ (mem_of_get?_eq_some hk)
    exact absurd hlt (String.lt_irrefl k)

/-- The first key of sorted entries comes before all keys that are found behind it. -/
theorem Sorted.lt_of_get?_tail {k key : String} {a b : α} {es : Keyed α}
    (h : Sorted ((k, b) :: es)) (hkey : es.get? key = some a) : k < key :=
  (List.pairwise_cons.mp h).1 _ (mem_of_get?_eq_some hkey)

/-- Sorted entries in which the same is found are the same. -/
theorem Sorted.ext {es fs : Keyed α} (hes : es.Sorted) (hfs : fs.Sorted)
    (h : ∀ key, es.get? key = fs.get? key) : es = fs := by
  induction es generalizing fs with
  | nil =>
    cases fs with
    | nil => rfl
    | cons f fs =>
      have hf := h f.1
      rw [get?_cons, if_pos rfl] at hf
      cases hf
  | cons e es ih =>
    obtain ⟨k, a⟩ := e
    cases fs with
    | nil =>
      have he := h k
      rw [get?_cons, if_pos rfl] at he
      cases he
    | cons f fs =>
      obtain ⟨l, b⟩ := f
      have hk := h k
      have hl := h l
      rw [get?_cons, if_pos rfl, get?_cons] at hk
      rw [get?_cons, get?_cons, if_pos rfl] at hl
      -- of two different first keys each would stand behind the other one
      have hkeys : k = l := by
        by_cases heq : k = l
        · exact heq
        · rw [if_neg heq] at hk
          rw [if_neg (Ne.symm heq)] at hl
          exact absurd (hfs.lt_of_get?_tail hk.symm) (String.lt_asymm (hes.lt_of_get?_tail hl))
      subst hkeys
      rw [if_pos rfl] at hk
      have htails : ∀ key, get? es key = get? fs key := by
        intro key
        by_cases hkey : key = k
        · rw [hkey, hes.get?_tail, hfs.get?_tail]
        · have hsame := h key
          rwa [get?_cons, get?_cons, if_neg hkey, if_neg hkey] at hsame
      rw [ih (List.pairwise_cons.mp hes).2 (List.pairwise_cons.mp hfs).2 htails, Option.some.inj hk]

end CollectionRunner.Keyed
