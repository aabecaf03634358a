import CollectionRunner.Proofs.Settings.Assigned
import Mathlib.Data.List.Basic

/-!
# Environments after any changes

An environment starts with the address of its server. Variables are set, and variables are switched
on and off, in any order and any number of times. The switches play no part in keys and values
(`allOn_afterChanges`), and setting variables leaves the switches as they are
(`switchesOf_withVariables`). Main statement: `afterChanges_history`.
-/

namespace CollectionRunner.Environment

/-- A change of an environment: variables are set, or the variable at a place is switched. -/
inductive Change
  | set (extra : Variables)
  | switch (place : Nat) (on : Bool)

/-- The variables that a change sets. -/
def Change.variables : Change → Variables
  | set extra => extra
  | switch _ _ => []

/-- The environment with one change. -/
def change (env : Environment) : Change → Environment
  | .set extra => env.withVariables extra
  | .switch place on => env.enable place on

/-- The environment of a server after changes that are made one after the other. -/
def afterChanges (baseUrl : String) (changes : List Change) : Environment :=
  changes.foldl change (forHost baseUrl)

/-- All that was ever set, in order. -/
def given (changes : List Change) : Variables := changes.flatMap Change.variables

/-- The keys of variables in the order in which they appear first, that of the server left out. -/
def firstKeys (vars : Variables) : List String :=
  ((vars.map Prod.fst).filter fun k => k ≠ hostKey).eraseDups

theorem afterChanges_concat (baseUrl : String) (changes : List Change) (c : Change) :
    afterChanges baseUrl (changes ++ [c]) = (afterChanges baseUrl changes).change c := by
  rw [afterChanges, List.foldl_append]
  rfl

/-! ## Keys and values -/

/-- The environment with all its variables switched on. -/
def allOn (env : Environment) : Environment :=
  { env with values := env.values.map fun v => { v with enabled := true } }

theorem keysOf_allOn (env : Environment) : keysOf env.allOn.values = keysOf env.values := by
  show (env.values.map _).map EnvVariable.key = _
  rw [List.map_map]
  rfl

theorem valueOf?_allOn (env : Environment) (key : String) :
    valueOf? env.allOn.values key = valueOf? env.values key := by
  show valueOf? (env.values.map _) key = _
  induction env.values with
  | nil => rfl
  | cons v vs ih => rw [List.map_cons, valueOf?_cons, valueOf?_cons, ih]

theorem assign_allOn (key value : String) (vs : List EnvVariable) :
    assign key value (vs.map fun v => { v with enabled := true }) =
      (assign key value vs).map fun v => { v with enabled := true } := by
  induction vs with
  | nil => rfl
  | cons v vs ih =>
    rw [List.map_cons, assign, assign]
    by_cases h : v.key = key
    · rw [if_pos h, if_pos h]
      rfl
    · rw [if_neg h, if_neg h, ih]
      rfl

theorem allOn_withVariables (env : Environment) (extra : Variables) :
    (env.withVariables extra).allOn = env.allOn.withVariables extra := by
  induction extra generalizing env with
  | nil => rfl
  | cons kv extra ih =>
    obtain ⟨key, value⟩ := kv
    rw [withVariables_cons, withVariables_cons, ih]
    congr 1
    unfold setVariable
    by_cases h : key = hostKey
    · rw [if_pos h, if_pos h]
    · rw [if_neg h, if_neg h]
      simp only [allOn, assign_allOn]

theorem allOn_enable (env : Environment) (place : Nat) (on : Bool) :
    (env.enable place on).allOn = env.allOn := by
  simp only [allOn, enable]
  congr 1
  apply List.ext_getElem?
  intro i
  simp only [List.getElem?_map, List.getElem?_modify]
  cases env.values[i]? with
  | none => rfl
  | some v => by_cases h : place = i <;> simp [h]

/-- The run lemma: but for its switches, an environment ends as if nothing had been switched. -/
theorem allOn_foldl_change (env : Environment) (changes : List Change) :
    (changes.foldl change env).allOn = env.allOn.withVariables (given changes) := by
  -- the environment changes with every step, so the induction is over all of them
  induction changes generalizing env with
  | nil => rfl
  | cons c changes ih =>
    rw [List.foldl_cons, ih]
    cases c with
    | set extra =>
      show (env.withVariables extra).allOn.withVariables (given changes) = _
      rw [allOn_withVariables]
      exact List.foldl_append.symm
    | switch place on =>
      show (env.enable place on).allOn.withVariables (given changes) = _
      rw [allOn_enable]
      rfl

theorem allOn_afterChanges (baseUrl : String) (changes : List Change) :
    (afterChanges baseUrl changes).allOn = (forHost baseUrl).withVariables (given changes) :=
  allOn_foldl_change (forHost baseUrl) changes

theorem newKeys_forHost (baseUrl : String) (vars : Variables) :
    newKeys (keysOf (forHost baseUrl).values) vars = firstKeys vars := by
  unfold newKeys firstKeys
  congr 1
  refine List.filter_congr fun k _ => ?_
  simp [keysOf, forHost, EnvVariable.text]

theorem keysOf_afterChanges (baseUrl : String) (changes : List Change) :
    keysOf (afterChanges baseUrl changes).values = hostKey :: firstKeys (given changes) := by
  rw [← keysOf_allOn, allOn_afterChanges, keys_withVariables, newKeys_forHost]
  rfl

theorem nodup_afterChanges (baseUrl : String) (changes : List Change) :
    (keysOf (afterChanges baseUrl changes).values).Nodup := by
  rw [← keysOf_allOn, allOn_afterChanges]
  have hserver : (keysOf (forHost baseUrl).values).Nodup := List.pairwise_singleton _ _
  exact nodup_withVariables hserver _

theorem kind_afterChanges (baseUrl : String) (changes : List Change) :
    ∀ v ∈ (afterChanges baseUrl changes).values, v.kind = "text" := by
  intro v hv
  -- only of the environment with all switches on is every variable what `.text` makes
  have htext : ∀ w ∈ (afterChanges baseUrl changes).allOn.values, w = .text w.key w.value := by
    rw [allOn_afterChanges]
    refine text_withVariables _ fun w hw => ?_
    obtain rfl := List.mem_singleton.mp hw
    rfl
  exact congrArg EnvVariable.kind (htext _ (List.mem_map_of_mem hv))

theorem valueOf?_afterChanges (baseUrl : String) (changes : List Change) (key : String) :
    valueOf? (afterChanges baseUrl changes).values key =
      if key = hostKey then some baseUrl else (given changes).get? key := by
  rw [← valueOf?_allOn, allOn_afterChanges, value?_withVariables, ← Variables.get?_eq]
  have hserver : valueOf? (forHost baseUrl).values key =
      if hostKey = key then some baseUrl else none := valueOf?_cons _ _ _
  rw [hserver]
  by_cases h : key = hostKey
  · simp [h]
  · simp [h, Ne.symm h]

/-! ## Switches -/

/-- The keys of variables with their switches. -/
def switchesOf (vs : List EnvVariable) : List (String × Bool) := vs.map fun v => (v.key, v.enabled)

theorem switchesOf_assign (key value : String) (vs : List EnvVariable) :
    switchesOf vs <+: switchesOf (assign key value vs) := by
  induction vs with
  | nil => exact List.nil_prefix
  | cons v vs ih =>
    rw [assign]
    by_cases h : v.key = key
    · rw [if_pos h]
      exact List.prefix_rfl
    · rw [if_neg h]
      exact List.prefix_cons_inj _ |>.mpr ih

/-- Variables that are there keep their places and their switches when variables are set. -/
theorem switchesOf_withVariables (env : Environment) (extra : Variables) :
    switchesOf env.values <+: switchesOf (env.withVariables extra).values := by
  induction extra generalizing env with
  | nil => exact List.prefix_rfl
  | cons kv extra ih =>
    obtain ⟨key, value⟩ := kv
    rw [withVariables_cons]
    refine List.IsPrefix.trans ?_ (ih _)
    unfold setVariable
    split
    · exact List.prefix_rfl
    · exact switchesOf_assign key value env.values

theorem exists_of_switchesOf {vs ws : List EnvVariable} (h : switchesOf vs <+: switchesOf ws)
    {place : Nat} {v : EnvVariable} (hv : vs[place]? = some v) :
    ∃ w : EnvVariable, ws[place]? = some w ∧ w.key = v.key ∧ w.enabled = v.enabled := by
  have hplace : place < (switchesOf vs).length := by
    rw [switchesOf, List.length_map]
    exact (List.getElem?_eq_some_iff.mp hv).1
  have hswitch : (switchesOf vs)[place]? = some (v.key, v.enabled) := by
    rw [switchesOf, List.getElem?_map, hv]
    rfl
  obtain ⟨more, hmore⟩ := h
  rw [← List.getElem?_append_left hplace, hmore, switchesOf, List.getElem?_map,
    Option.map_eq_some_iff] at hswitch
  obtain ⟨w, hw, heq⟩ := hswitch
  obtain ⟨hkey, hon⟩ := Prod.mk.inj heq
  exact ⟨w, hw, hkey, hon⟩

/-- Of variables with their switches, a lookup finds the first one of the key that is on. -/
theorem lookup_toVariables (env : Environment) (key : String) :
    env.toVariables.lookup key = env.get? key := by
  unfold toVariables get?
  induction env.values with
  | nil => rfl
  | cons v vs ih =>
    rw [List.filter_cons, List.find?_cons]
    cases hon : v.enabled with
    | false => simpa [hon] using ih
    | true =>
      by_cases h : v.key = key
      · simp [h]
      · have hkey : (v.key == key) = false := beq_eq_false_iff_ne.mpr h
        have hkey' : (key == v.key) = false := beq_eq_false_iff_ne.mpr (Ne.symm h)
        simpa [hkey, hkey', List.lookup_cons] using ih

/-- Where no key stands twice, the first value of a key is the last one. -/
theorem get?_eq_get?_toVariables {env : Environment} (h : (keysOf env.values).Nodup)
    (key : String) : env.get? key = env.toVariables.get? key := by
  have hkeys : (env.toVariables.map Prod.fst).Nodup := by
    refine List.Nodup.sublist ?_ h
    unfold toVariables
    rw [List.map_map]
    exact List.filter_sublist.map _
  rw [Variables.get?_eq, Variables.lookup_reverse hkeys, lookup_toVariables]

/-! ## The history of an environment -/

theorem exists_of_valueOf? {vs : List EnvVariable} {key text : String}
    (h : valueOf? vs key = some text) :
    ∃ v, vs[(keysOf vs).idxOf key]? = some v ∧ v.key = key ∧ v.value = text := by
  induction vs with
  | nil => cases h
  | cons w vs ih =>
    rw [valueOf?_cons] at h
    by_cases hkey : w.key = key
    · rw [if_pos hkey] at h
      refine ⟨w, ?_, hkey, Option.some.inj h⟩
      simp [keysOf, hkey]
    · rw [if_neg hkey] at h
      obtain ⟨v, hv, hvkey, hvalue⟩ := ih h
      refine ⟨v, ?_, hvkey, hvalue⟩
      show (w :: vs)[(w.key :: keysOf vs).idxOf key]? = some v
      rw [List.idxOf_cons_ne _ hkey]
      exact hv

/-- Take any environment that is reached from that of a server by setting variables and by switching
variables on and off. Its first variable is the address of the server, no key stands twice, all
variables are texts, and what `get?` finds is what a run finds. The keys are those that were ever
set, in the order in which they appeared first, and each of them stands at its place with the value
that it was given last. When variables are set, those that are there keep their places and their
switches. -/
theorem afterChanges_history (baseUrl : String) (changes : List Change) :
    let env := afterChanges baseUrl changes
    (∃ v, env.values[0]? = some v ∧ v.key = hostKey ∧ v.value = baseUrl) ∧
      (keysOf env.values).Nodup ∧
      (∀ v ∈ env.values, v.kind = "text") ∧
      (∀ key, env.get? key = env.toVariables.get? key) ∧
      keysOf env.values = hostKey :: firstKeys (given changes) ∧
      (∀ key text, key ≠ hostKey → (given changes).get? key = some text →
        ∃ v, env.values[(firstKeys (given changes)).idxOf key + 1]? = some v ∧
          v.key = key ∧ v.value = text) ∧
      ∀ (extra : Variables) (place : Nat) (v : EnvVariable), env.values[place]? = some v →
        ∃ w : EnvVariable,
          (afterChanges baseUrl (changes ++ [.set extra])).values[place]? = some w ∧
          w.key = v.key ∧ w.enabled = v.enabled := by
  intro env
  have hkeys : keysOf env.values = hostKey :: firstKeys (given changes) :=
    keysOf_afterChanges baseUrl changes
  have hnodup : (keysOf env.values).Nodup := nodup_afterChanges baseUrl changes
  have hvalue := valueOf?_afterChanges baseUrl changes
  refine ⟨?_, hnodup, kind_afterChanges baseUrl changes, get?_eq_get?_toVariables hnodup, hkeys,
    fun key text hkey htext => ?_, fun extra place v hv => ?_⟩
  · have hserver : valueOf? env.values hostKey = some baseUrl := by
      rw [hvalue, if_pos rfl]
    obtain ⟨v, hv, hfound⟩ := exists_of_valueOf? hserver
    rw [hkeys, List.idxOf_cons_self] at hv
    exact ⟨v, hv, hfound⟩
  · have hgiven : valueOf? env.values key = some text := by
      rw [hvalue, if_neg hkey, htext]
    obtain ⟨v, hv, hfound⟩ := exists_of_valueOf? hgiven
    rw [hkeys, List.idxOf_cons_ne _ (Ne.symm hkey)] at hv
    exact ⟨v, hv, hfound⟩
  · have hprefix : switchesOf env.values <+:
        switchesOf (afterChanges baseUrl (changes ++ [.set extra])).values := by
      rw [afterChanges_concat]
      exact switchesOf_withVariables env extra
    exact exists_of_switchesOf hprefix hv

/-- A user that is set and switched off. -/
def switchedOff : List Change :=
  [.set [("USER", "admin"), ("HOST", "http://elsewhere")], .switch 1 false]

/-- The user is set anew behind another variable: it keeps its place and stays off. -/
theorem afterChanges_history_switchedOff :
    let changes := switchedOff ++ [.set [("TOKEN", "t"), ("USER", "root")]]
    (afterChanges "http://h" switchedOff).values[1]? = some ⟨"USER", "admin", "text", false⟩ ∧
      "USER" ≠ hostKey ∧ (given changes).get? "USER" = some "root" ∧
      ∃ v, (afterChanges "http://h" changes).values[1]? = some v ∧
        v.key = "USER" ∧ v.value = "root" ∧ v.kind = "text" ∧ v.enabled = false := by
  intro changes
  have hbefore : (afterChanges "http://h" switchedOff).values[1]? =
      some ⟨"USER", "admin", "text", false⟩ := rfl
  have hkey : "USER" ≠ hostKey := by decide
  have hgiven : (given changes).get? "USER" = some "root" := rfl
  obtain ⟨-, -, hkinds, -, -, hvalues, -⟩ := afterChanges_history "http://h" changes
  obtain ⟨-, -, -, -, -, -, hswitches⟩ := afterChanges_history "http://h" switchedOff
  obtain ⟨v, hv, hname, hvalue⟩ := hvalues "USER" "root" hkey hgiven
  obtain ⟨w, hw, -, hoff⟩ := hswitches [("TOKEN", "t"), ("USER", "root")] 1 _ hbefore
  have hplace : (firstKeys (given changes)).idxOf "USER" + 1 = 1 := by decide
  rw [hplace] at hv
  obtain rfl : v = w := Option.some.inj (hv.symm.trans hw)
  exact ⟨hbefore, hkey, hgiven, v, hv, hname, hvalue, hkinds v (List.mem_of_getElem? hv), hoff⟩

end CollectionRunner.Environment
