import CollectionRunner.Environment
import CollectionRunner.Proofs.Json.Sorted

/-!
# Setting the variables of an environment

Variables are set one after the other. What that makes of an environment is said by its keys
(`keys_withVariables`) and by the value that each key has in the end (`value?_withVariables`).
-/

namespace CollectionRunner

/-! ## The last text of a name -/

theorem nodup_eraseDups [BEq α] [LawfulBEq α] (as : List α) : as.eraseDups.Nodup := by
  match as with
  | [] => exact .nil
  | a :: as =>
    rw [List.eraseDups_cons, List.nodup_cons]
    refine ⟨fun hmem => ?_, nodup_eraseDups _⟩
    have ha := (List.mem_filter.mp (List.mem_eraseDups.mp hmem)).2
    simp at ha
termination_by as.length
decreasing_by
  have := List.length_filter_le (fun b => !b == a) as
  rw [List.length_cons]
  omega

theorem eraseDups_of_nodup [BEq α] [LawfulBEq α] {as : List α} (h : as.Nodup) :
    as.eraseDups = as := by
  induction as with
  | nil => rfl
  | cons a as ih =>
    obtain ⟨ha, has⟩ := List.nodup_cons.mp h
    have hkeep : as.filter (fun b => !b == a) = as := by
      refine List.filter_eq_self.mpr fun b hb => ?_
      have hne : b ≠ a := fun heq => ha (heq ▸ hb)
      simp [hne]
    rw [List.eraseDups_cons, hkeep, ih has]

namespace Variables

theorem get?_eq (vars : Variables) (name : String) : vars.get? name = vars.reverse.lookup name := by
  induction vars with
  | nil => rfl
  | cons v vars ih =>
    obtain ⟨k, text⟩ := v
    rw [get?, ih, List.reverse_cons, List.lookup_append]
    cases List.lookup name vars.reverse with
    | some t => rfl
    | none =>
      by_cases h : k = name
      · subst h
        simp
      · have hne : (name == k) = false := beq_eq_false_iff_ne.mpr (Ne.symm h)
        simp [List.lookup_cons, h, hne]

/-- Where no name is set again, the last text of a name is its first one. -/
theorem lookup_reverse {vars : Variables} (h : (vars.map Prod.fst).Nodup) (name : String) :
    vars.reverse.lookup name = vars.lookup name := by
  induction vars with
  | nil => rfl
  | cons v vars ih =>
    obtain ⟨k, text⟩ := v
    obtain ⟨hk, hvars⟩ := List.nodup_cons.mp h
    rw [List.reverse_cons, List.lookup_append, ih hvars, List.lookup_cons]
    by_cases hname : name = k
    · subst hname
      have hnone : vars.lookup name = none := Keyed.get?_eq_none_of_notMem hk
      simp [hnone]
    · have hne : (name == k) = false := beq_eq_false_iff_ne.mpr hname
      simp [List.lookup_cons, hne]

end Variables

namespace Environment

/-! ## Keys and values -/

/-- The keys of variables, in order. -/
def keysOf (vs : List EnvVariable) : List String := vs.map EnvVariable.key

/-- The value of the first variable of a key. -/
def valueOf? (vs : List EnvVariable) (key : String) : Option String :=
  (vs.find? fun v => v.key == key).map EnvVariable.value

theorem valueOf?_cons (v : EnvVariable) (vs : List EnvVariable) (key : String) :
    valueOf? (v :: vs) key = if v.key = key then some v.value else valueOf? vs key := by
  unfold valueOf?
  rw [List.find?_cons]
  by_cases h : v.key = key
  · simp [h]
  · rw [if_neg h, beq_eq_false_iff_ne.mpr h]

theorem valueOf?_of_mem {vs : List EnvVariable} (h : (keysOf vs).Nodup) {v : EnvVariable}
    (hv : v ∈ vs) : valueOf? vs v.key = some v.value := by
  induction vs with
  | nil => cases hv
  | cons w vs ih =>
    obtain ⟨hw, hvs⟩ := List.nodup_cons.mp h
    rw [valueOf?_cons]
    rcases List.mem_cons.mp hv with rfl | hv
    · rw [if_pos rfl]
    · have hne : w.key ≠ v.key := fun heq => hw (heq ▸ List.mem_map_of_mem hv)
      rw [if_neg hne]
      exact ih hvs hv

theorem keysOf_assign (key value : String) (vs : List EnvVariable) :
    keysOf (assign key value vs) = if key ∈ keysOf vs then keysOf vs else keysOf vs ++ [key] := by
  induction vs with
  | nil => rfl
  | cons v vs ih =>
    rw [assign]
    by_cases h : v.key = key
    · simp [keysOf, h]
    · rw [if_neg h]
      unfold keysOf at ih ⊢
      rw [List.map_cons, List.map_cons, ih]
      by_cases hmem : key ∈ vs.map EnvVariable.key
      · rw [if_pos hmem, if_pos (List.mem_cons_of_mem _ hmem)]
      · have hnew : key ∉ v.key :: vs.map EnvVariable.key := by simp [hmem, Ne.symm h]
        rw [if_neg hmem, if_neg hnew, List.cons_append]

theorem valueOf?_assign (key value : String) (vs : List EnvVariable) (name : String) :
    valueOf? (assign key value vs) name = if name = key then some value else valueOf? vs name := by
  induction vs with
  | nil =>
    rw [assign, valueOf?_cons]
    by_cases h : name = key
    · simp [h, EnvVariable.text]
    · simp [h, Ne.symm h, EnvVariable.text]
  | cons v vs ih =>
    rw [assign, valueOf?_cons]
    by_cases hv : v.key = key
    · rw [if_pos hv, valueOf?_cons]
      by_cases h : name = key
      · simp [hv, h]
      · simp [hv, h, Ne.symm h]
    · rw [if_neg hv, valueOf?_cons, ih]
      by_cases h : name = key
      · subst h
        simp [hv]
      · simp [h]

theorem text_assign (key value : String) {vs : List EnvVariable}
    (h : ∀ v ∈ vs, v = .text v.key v.value) :
    ∀ v ∈ assign key value vs, v = .text v.key v.value := by
  induction vs with
  | nil =>
    intro v hv
    obtain rfl := List.mem_singleton.mp hv
    rfl
  | cons w vs ih =>
    obtain ⟨hw, hvs⟩ := List.forall_mem_cons.mp h
    rw [assign]
    split
    · refine List.forall_mem_cons.mpr ⟨?_, hvs⟩
      rw [hw]
      rfl
    · exact List.forall_mem_cons.mpr ⟨hw, ih hvs⟩

/-! ## Variables that are set one after the other -/

/-- The keys that are new beside `known`, in the order in which they appear first. -/
def newKeys (known : List String) (extra : Variables) : List String :=
  ((extra.map Prod.fst).filter fun k => k ≠ hostKey ∧ k ∉ known).eraseDups

theorem newKeys_skip {known : List String} {key value : String} {extra : Variables}
    (h : key = hostKey ∨ key ∈ known) :
    newKeys known ((key, value) :: extra) = newKeys known extra := by
  have hskip : ¬ (key ≠ hostKey ∧ key ∉ known) := by
    rintro ⟨hhost, hknown⟩
    rcases h with h | h
    · exact hhost h
    · exact hknown h
  simp [newKeys, hskip]

theorem newKeys_cons {known : List String} {key value : String} {extra : Variables}
    (hhost : key ≠ hostKey) (hknown : key ∉ known) :
    newKeys known ((key, value) :: extra) = key :: newKeys (known ++ [key]) extra := by
  have hkeep : ((extra.map Prod.fst).filter fun k => k ≠ hostKey ∧ k ∉ known).filter
        (fun k => !k == key) =
      (extra.map Prod.fst).filter fun k => k ≠ hostKey ∧ k ∉ known ++ [key] := by
    rw [List.filter_filter]
    refine List.filter_congr fun k _ => ?_
    by_cases hk : k = key <;> simp [hk]
  rw [newKeys, newKeys, List.map_cons, List.filter_cons_of_pos (by simp [hhost, hknown]),
    List.eraseDups_cons, hkeep]

theorem mem_newKeys {known : List String} {extra : Variables} {k : String}
    (h : k ∈ newKeys known extra) : k ∉ known := by
  have hk := (List.mem_filter.mp (List.mem_eraseDups.mp h)).2
  simp only [decide_eq_true_eq] at hk
  exact hk.2

theorem withVariables_cons (env : Environment) (key value : String) (extra : Variables) :
    env.withVariables ((key, value) :: extra) =
      (env.setVariable key value).withVariables extra := rfl

/-- The keys that an environment ends with: its own ones, and behind them the new ones. -/
theorem keys_withVariables (env : Environment) (extra : Variables) :
    keysOf (env.withVariables extra).values =
      keysOf env.values ++ newKeys (keysOf env.values) extra := by
  induction extra generalizing env with
  | nil => exact (List.append_nil _).symm
  | cons kv extra ih =>
    obtain ⟨key, value⟩ := kv
    rw [withVariables_cons, ih, setVariable]
    by_cases hhost : key = hostKey
    · rw [if_pos hhost, newKeys_skip (.inl hhost)]
    · rw [if_neg hhost]
      simp only [keysOf_assign]
      by_cases hknown : key ∈ keysOf env.values
      · rw [if_pos hknown, newKeys_skip (.inr hknown)]
      · rw [if_neg hknown, newKeys_cons hhost hknown, List.append_assoc, List.singleton_append]

theorem nodup_withVariables {env : Environment} (h : (keysOf env.values).Nodup)
    (extra : Variables) : (keysOf (env.withVariables extra).values).Nodup := by
  rw [keys_withVariables, List.nodup_append]
  refine ⟨h, nodup_eraseDups _, fun k hk l hl heq => ?_⟩
  subst heq
  exact mem_newKeys hl hk

/-- The value that a key ends with: that of the server is kept, any other one is the last that is
set, if one is. -/
theorem value?_withVariables (env : Environment) (extra : Variables) (name : String) :
    valueOf? (env.withVariables extra).values name =
      if name = hostKey then valueOf? env.values name
      else (extra.reverse.lookup name).or (valueOf? env.values name) := by
  induction extra generalizing env with
  | nil =>
    show valueOf? env.values name = _
    simp
  | cons kv extra ih =>
    obtain ⟨key, value⟩ := kv
    rw [withVariables_cons, ih, setVariable, List.reverse_cons, List.lookup_append]
    by_cases hname : name = hostKey
    · rw [if_pos hname, if_pos hname]
      split
      · rfl
      · rename_i hhost
        have hne : name ≠ key := fun heq => hhost (heq ▸ hname)
        simp only [valueOf?_assign, if_neg hne]
    · rw [if_neg hname, if_neg hname]
      by_cases heq : name = key
      · subst heq
        simp [hname, valueOf?_assign]
      · have hother : (name == key) = false := beq_eq_false_iff_ne.mpr heq
        split <;> simp [valueOf?_assign, heq, hother, List.lookup_cons]

theorem text_withVariables {env : Environment} (extra : Variables)
    (h : ∀ v ∈ env.values, v = .text v.key v.value) :
    ∀ v ∈ (env.withVariables extra).values, v = .text v.key v.value := by
  induction extra generalizing env with
  | nil => exact h
  | cons kv extra ih =>
    obtain ⟨key, value⟩ := kv
    rw [withVariables_cons]
    refine ih ?_
    rw [setVariable]
    split
    · exact h
    · exact text_assign key value h

/-! ## What a run makes of an environment -/

/-- Where all variables are switched on and no key stands twice, a run finds the values of the
environment. -/
theorem get?_toVariables {env : Environment} (htext : ∀ v ∈ env.values, v = .text v.key v.value)
    (hnodup : (keysOf env.values).Nodup) (name : String) :
    env.toVariables.get? name = valueOf? env.values name := by
  have henabled : env.values.filter EnvVariable.enabled = env.values := by
    refine List.filter_eq_self.mpr fun v hv => ?_
    rw [htext v hv]
    rfl
  have hkeys : (env.toVariables.map Prod.fst) = keysOf env.values := by
    rw [toVariables, henabled, List.map_map]
    rfl
  rw [Variables.get?_eq, Variables.lookup_reverse (hkeys ▸ hnodup), toVariables, henabled]
  clear htext hnodup henabled hkeys
  induction env.values with
  | nil => rfl
  | cons v vs ih =>
    rw [valueOf?_cons, List.map_cons, List.lookup_cons, ih]
    by_cases h : v.key = name
    · simp [h]
    · have hne : (name == v.key) = false := beq_eq_false_iff_ne.mpr (Ne.symm h)
      simp [h, hne]

end Environment

end CollectionRunner
