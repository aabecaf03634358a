import CollectionRunner.Proofs.Json.Decoded
import CollectionRunner.Settings

/-!
# Variables in the order of their names

The variables of a configuration come out in the order of their names, whatever order they are met
in.
-/

namespace CollectionRunner

namespace Variables

theorem isOrdered_iff {v w : String × String} :
    isOrdered v w = true ↔ v.1 < w.1 ∨ v.1 = w.1 ∧ v.2 ≤ w.2 := by
  simp [isOrdered]

theorem isOrdered_trans {u v w : String × String} (huv : isOrdered u v = true)
    (hvw : isOrdered v w = true) : isOrdered u w = true := by
  rw [isOrdered_iff] at huv hvw ⊢
  rcases huv with huv | ⟨huv, htexts⟩
  · rcases hvw with hvw | ⟨hvw, -⟩
    · exact .inl (String.lt_trans huv hvw)
    · exact .inl (hvw ▸ huv)
  · rcases hvw with hvw | ⟨hvw, htexts'⟩
    · exact .inl (huv ▸ hvw)
    · exact .inr ⟨huv.trans hvw, String.le_trans htexts htexts'⟩

theorem isOrdered_total (v w : String × String) : (isOrdered v w || isOrdered w v) = true := by
  rw [Bool.or_eq_true, isOrdered_iff, isOrdered_iff]
  by_cases hlt : v.1 < w.1
  · exact .inl (.inl hlt)
  · by_cases hgt : w.1 < v.1
    · exact .inr (.inl hgt)
    · have heq : v.1 = w.1 := String.le_antisymm (String.not_lt.mp hgt) (String.not_lt.mp hlt)
      rcases String.le_total v.2 w.2 with hle | hle
      · exact .inl (.inr ⟨heq, hle⟩)
      · exact .inr (.inr ⟨heq.symm, hle⟩)

theorem isOrdered_antisymm {v w : String × String} (hvw : isOrdered v w = true)
    (hwv : isOrdered w v = true) : v = w := by
  rw [isOrdered_iff] at hvw hwv
  rcases hvw with hvw | ⟨hnames, hvw⟩
  · rcases hwv with hwv | ⟨hnames, -⟩
    · exact absurd hwv (String.lt_asymm hvw)
    · exact absurd hnames.symm (String.ne_of_lt hvw)
  · rcases hwv with hwv | ⟨-, hwv⟩
    · exact absurd hnames.symm (String.ne_of_lt hwv)
    · exact Prod.ext hnames (String.le_antisymm hvw hwv)

/-- Sorting brings variables that are met in any order back into the order of their names. -/
theorem sorted_eq_of_perm {order vars : Variables} (hvars : Keyed.Sorted vars)
    (h : order.Perm vars) : sorted order = vars := by
  have htrans : ∀ u v w : String × String, isOrdered u v = true → isOrdered v w = true →
      isOrdered u w = true := fun _ _ _ => isOrdered_trans
  have hsorted := List.pairwise_mergeSort htrans isOrdered_total order
  have hordered : vars.Pairwise fun v w => isOrdered v w = true :=
    hvars.imp fun hlt => isOrdered_iff.mpr (.inl hlt)
  have hperm : (order.mergeSort isOrdered).Perm vars :=
    (List.mergeSort_perm order isOrdered).trans h
  unfold sorted
  refine hperm.eq_of_pairwise (fun v w _ _ hvw hwv => ?_) hsorted hordered
  exact isOrdered_antisymm hvw hwv

end Variables

/-! ## Configurations that are loaded -/

theorem Config.sorted_vars_of_decode {budget : Nat} {d : Json.Document} {c : Config}
    (h : decode budget d = .ok c) : Keyed.Sorted c.vars := by
  refine Json.Decoder.openRecord_keeps (Q := fun _ => True)
    (P := fun c : Config => Keyed.Sorted c.vars) ?_ ?_ Keyed.sorted_nil (fun _ _ _ _ _ => trivial) h
  · intro slot hslot
    simp only [fields, List.mem_cons, List.not_mem_nil, or_false] at hslot
    -- only the member that holds the variables changes them
    rcases hslot with rfl | rfl | rfl | rfl | rfl | rfl | rfl | rfl
    all_goals
      refine Json.Slot.keeps_of fun _ _ b _ hb c hc => ?_
      first | exact hc | exact Json.Decoder.entries_sorted hb
  · intro _ _ _ _ _ _ _ _ hc
    exact hc

theorem LoadedConfig.sorted_vars_of_load {fs : FileSystem} {target : Path} {c : LoadedConfig}
    (h : load fs target = .ok (some c)) : Keyed.Sorted c.config.vars := by
  unfold load at h
  simp only at h
  split at h
  · cases h
  · obtain ⟨text, -, h⟩ := exists_of_bind_eq_ok h
    obtain ⟨config, hconfig, h⟩ := exists_of_bind_eq_ok h
    cases h
    unfold orProblem at hconfig
    split at hconfig
    · rename_i hparse
      cases hconfig
      obtain ⟨budget, d, hdecode⟩ := Json.Decoder.exists_of_parse hparse
      exact Config.sorted_vars_of_decode hdecode
    · cases hconfig

end CollectionRunner
