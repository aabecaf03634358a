import CollectionRunner.Proofs.External.Staged
import CollectionRunner.Proofs.Settings.Assigned

/-!
# Lookups in an environment of any document

A document may list a key several times and switch variables off. Setting a key changes the first
variable of it (`ofKey_withVariables`), `get?` finds the first one that is on (`get?_eq_ofKey`), and
a run the last one that is on (`get?_toVariables_eq_ofKey`). Main statement: `found_withVariables`,
for which lists of variables of a key these three meet.
-/

namespace CollectionRunner.Environment

/-- The variables of a key, in order. -/
def ofKey (vs : List EnvVariable) (key : String) : List EnvVariable :=
  vs.filter fun v => v.key == key

theorem ofKey_cons_self {v : EnvVariable} {key : String} (h : v.key = key)
    (vs : List EnvVariable) : ofKey (v :: vs) key = v :: ofKey vs key :=
  List.filter_cons_of_pos (beq_iff_eq.mpr h)

theorem ofKey_cons_ne {v : EnvVariable} {key : String} (h : v.key ≠ key)
    (vs : List EnvVariable) : ofKey (v :: vs) key = ofKey vs key :=
  List.filter_cons_of_neg (by simpa using h)

/-! ## What setting makes of the variables of a key -/

theorem assign_cons_self {v : EnvVariable} {key : String} (h : v.key = key) (value : String)
    (vs : List EnvVariable) : assign key value (v :: vs) = { v with value := value } :: vs := by
  rw [assign, if_pos h]

theorem assign_cons_ne {v : EnvVariable} {key : String} (h : v.key ≠ key) (value : String)
    (vs : List EnvVariable) : assign key value (v :: vs) = v :: assign key value vs := by
  rw [assign, if_neg h]

/-- Of two texts that a key is set to only the second one is left. -/
theorem assign_assign (key first second : String) (vs : List EnvVariable) :
    assign key second (assign key first vs) = assign key second vs := by
  induction vs with
  | nil => exact assign_cons_self rfl second []
  | cons v vs ih =>
    by_cases h : v.key = key
    · rw [assign_cons_self h, assign_cons_self h]
      exact assign_cons_self (v := { v with value := first }) h second vs
    · rw [assign_cons_ne h, assign_cons_ne h, assign_cons_ne h, ih]

theorem ofKey_assign_self (key value : String) (vs : List EnvVariable) :
    ofKey (assign key value vs) key = assign key value (ofKey vs key) := by
  induction vs with
  | nil => exact ofKey_cons_self rfl []
  | cons v vs ih =>
    by_cases h : v.key = key
    · rw [assign_cons_self h, ofKey_cons_self h, assign_cons_self h]
      exact ofKey_cons_self (v := { v with value := value }) h vs
    · rw [assign_cons_ne h, ofKey_cons_ne h, ofKey_cons_ne h, ih]

theorem ofKey_assign_ne {key other : String} (hne : other ≠ key) (value : String)
    (vs : List EnvVariable) : ofKey (assign key value vs) other = ofKey vs other := by
  induction vs with
  | nil => exact ofKey_cons_ne (Ne.symm hne) []
  | cons v vs ih =>
    by_cases h : v.key = key
    · have hother : v.key ≠ other := fun heq => hne (heq.symm.trans h)
      rw [assign_cons_self h, ofKey_cons_ne hother]
      exact ofKey_cons_ne (v := { v with value := value }) hother vs
    · rw [assign_cons_ne h]
      by_cases hother : v.key = other
      · rw [ofKey_cons_self hother, ofKey_cons_self hother, ih]
      · rw [ofKey_cons_ne hother, ofKey_cons_ne hother, ih]

theorem ofKey_setVariable (env : Environment) {key : String} (hkey : key ≠ hostKey)
    (name text : String) : ofKey (env.setVariable name text).values key =
      if name = key then assign key text (ofKey env.values key) else ofKey env.values key := by
  unfold setVariable
  by_cases hname : name = key
  · subst hname
    rw [if_neg hkey, if_pos rfl]
    exact ofKey_assign_self name text env.values
  · rw [if_neg hname]
    split
    · rfl
    · exact ofKey_assign_ne (Ne.symm hname) text env.values

/-- The run lemma: all that a list of variables does to a key is to set it to its last text. -/
theorem ofKey_withVariables (env : Environment) (extra : Variables) {key : String}
    (hkey : key ≠ hostKey) : ofKey (env.withVariables extra).values key =
      match extra.get? key with
      | some text => assign key text (ofKey env.values key)
      | none => ofKey env.values key := by
  -- the environment changes with every variable, so the induction is over all of them
  induction extra generalizing env with
  | nil => rfl
  | cons kv extra ih =>
    obtain ⟨name, text⟩ := kv
    rw [withVariables_cons, ih, ofKey_setVariable env hkey, Variables.get?]
    cases Variables.get? extra key with
    | some last =>
      dsimp only
      split
      · exact assign_assign key text last _
      · rfl
    | none =>
      dsimp only
      split <;> rfl

/-! ## What a lookup finds -/

theorem get?_eq_ofKey (env : Environment) (key : String) :
    env.get? key = ((ofKey env.values key).find? EnvVariable.enabled).map EnvVariable.value := by
  rw [get?, ofKey, List.find?_filter]
  congr 2
  funext v
  rw [Bool.decide_and, Bool.decide_eq_true, Bool.decide_eq_true, Bool.and_comm]

theorem get?_toVariables_eq_ofKey (env : Environment) (key : String) :
    env.toVariables.get? key =
      ((ofKey env.values key).filter EnvVariable.enabled).getLast?.map EnvVariable.value := by
  unfold toVariables
  induction env.values with
  | nil => rfl
  | cons v vs ih =>
    by_cases hon : v.enabled = true
    · rw [List.filter_cons_of_pos hon, List.map_cons, Variables.get?, ih]
      by_cases hkey : v.key = key
      · rw [ofKey_cons_self hkey, List.filter_cons_of_pos hon, List.getLast?_cons, if_pos hkey]
        cases ((ofKey vs key).filter EnvVariable.enabled).getLast? <;> rfl
      · rw [ofKey_cons_ne hkey, if_neg hkey]
        cases ((ofKey vs key).filter EnvVariable.enabled).getLast? <;> rfl
    · rw [List.filter_cons_of_neg hon, ih]
      by_cases hkey : v.key = key
      · rw [ofKey_cons_self hkey, List.filter_cons_of_neg hon]
      · rw [ofKey_cons_ne hkey]

/-! ## When setting takes effect -/

/-- The variable of a key once it is set: the first one that was there, with the new text, or a text
that is on. -/
def renewed (first : Option EnvVariable) (key text : String) : EnvVariable :=
  match first with
  | some v => { v with value := text }
  | none => .text key text

@[simp] theorem value_renewed (first : Option EnvVariable) (key text : String) :
    (renewed first key text).value = text := by cases first <;> rfl

theorem enabled_renewed (first : Option EnvVariable) (key text : String) :
    (renewed first key text).enabled = first.all EnvVariable.enabled := by cases first <;> rfl

theorem assign_ofKey (vs : List EnvVariable) (key text : String) :
    assign key text (ofKey vs key) =
      renewed (ofKey vs key).head? key text :: (ofKey vs key).tail := by
  cases h : ofKey vs key with
  | nil => rfl
  | cons v ws =>
    have hv : v ∈ ofKey vs key := by rw [h]; exact List.mem_cons_self
    exact assign_cons_self (beq_iff_eq.mp (List.mem_filter.mp hv).2) text ws

theorem ofKey_eq_nil {vs : List EnvVariable} {key : String} :
    ofKey vs key = [] ↔ key ∉ keysOf vs := by
  rw [ofKey, List.filter_eq_nil_iff, keysOf, List.mem_map]
  constructor
  · rintro h ⟨v, hv, hkey⟩
    exact h v hv (beq_iff_eq.mpr hkey)
  · intro h v hv hkey
    exact h ⟨v, hv, beq_iff_eq.mp hkey⟩

/-- What is set is put behind the variables that are there, which keep their keys. -/
theorem exists_behind_withVariables (env : Environment) (extra : Variables) :
    ∃ own new, (env.withVariables extra).values = own ++ new ∧ keysOf own = keysOf env.values := by
  have hkeys := keys_withVariables env extra
  have hlength : (keysOf env.values).length = env.values.length := List.length_map ..
  refine ⟨_, _, (List.take_append_drop env.values.length _).symm, ?_⟩
  rw [keysOf, List.map_take, ← keysOf, hkeys, ← hlength, List.take_left']
  rfl

/-- Take any environment, with keys that stand several times and variables that are off, and any
list of variables. A key of the list other than that of the server has the text that it was given
last in its first variable, which keeps its kind and its switch; a key that is new is a text that is
on and stands behind all variables that were there. Where this variable is on, `get?` finds the
text, and where no further variable of the key is on, so does a run. Where the key was there and all
its variables are off, it stays off and nothing is found. -/
theorem found_withVariables (env : Environment) (extra : Variables) (key text : String)
    (hkey : key ≠ hostKey) (htext : extra.get? key = some text) :
    let first := (ofKey env.values key).head?
    let further := (ofKey env.values key).tail
    let after := env.withVariables extra
    (ofKey after.values key).head? = some (renewed first key text) ∧
      (first = none → ∃ own new, after.values = own ++ new ∧ keysOf own = keysOf env.values ∧
        .text key text ∈ new) ∧
      (first.all EnvVariable.enabled = true → after.get? key = some text) ∧
      (first.all EnvVariable.enabled = true → (∀ v ∈ further, v.enabled = false) →
        after.toVariables.get? key = some text) ∧
      (first ≠ none → (∀ v ∈ ofKey env.values key, v.enabled = false) →
        after.get? key = none ∧ after.toVariables.get? key = none) := by
  intro first further after
  have hafter : ofKey after.values key = renewed first key text :: further := by
    rw [ofKey_withVariables env extra hkey, htext]
    exact assign_ofKey env.values key text
  have henabled := enabled_renewed first key text
  have hbehind : first = none → ∃ own new, after.values = own ++ new ∧
      keysOf own = keysOf env.values ∧ .text key text ∈ new := by
    intro hnew
    obtain ⟨own, new, hvalues, hkeys⟩ := exists_behind_withVariables env extra
    have hnil : ofKey own key = [] := by
      rw [ofKey_eq_nil, hkeys, ← ofKey_eq_nil]
      exact List.head?_eq_none_iff.mp hnew
    -- the first variable of the key is not among those that were there
    rw [hvalues, ofKey, List.filter_append, ← ofKey, ← ofKey, hnil, List.nil_append, hnew] at hafter
    refine ⟨own, new, hvalues, hkeys, (List.mem_filter.mp (?_ : _ ∈ ofKey new key)).1⟩
    rw [hafter]
    exact List.mem_cons_self
  rw [get?_eq_ofKey, get?_toVariables_eq_ofKey, hafter]
  refine ⟨rfl, hbehind, fun hon => ?_, fun hon hfurther => ?_, fun hfirst hoff => ?_⟩
  · rw [List.find?_cons_of_pos (henabled.trans hon), Option.map_some, value_renewed]
  · have hnone : further.filter EnvVariable.enabled = [] :=
      List.filter_eq_nil_iff.mpr fun v hv => by simp [hfurther v hv]
    rw [List.filter_cons_of_pos (henabled.trans hon), hnone, List.getLast?_singleton,
      Option.map_some, value_renewed]
  · have hall : ∀ v ∈ renewed first key text :: further, ¬ v.enabled = true := by
      obtain ⟨v, hv⟩ := Option.ne_none_iff_exists'.mp hfirst
      rw [hv] at henabled ⊢
      refine List.forall_mem_cons.mpr ⟨?_, fun w hw => ?_⟩
      · simp [henabled, hoff v (List.mem_of_head? hv)]
      · simp [hoff w (List.mem_of_mem_tail hw)]
    rw [List.find?_eq_none.mpr hall, List.filter_eq_nil_iff.mpr hall]
    exact ⟨rfl, rfl⟩

/-- Variables of one key, of which the first one alone is on and secret, and a key that is off. -/
def guarded : Environment where
  name := "n"
  values := [⟨"a", "1", "secret", true⟩, ⟨"off", "1", "text", false⟩, ⟨"a", "2", "text", false⟩]
  scope := "environment"

/-- A key is set twice and found with its last text, and one that is off is set and not found. -/
theorem found_withVariables_guarded :
    let extra : Variables := [("a", "8"), ("HOST", "no"), ("off", "3"), ("a", "9")]
    let after := guarded.withVariables extra
    "a" ≠ hostKey ∧ extra.get? "a" = some "9" ∧ "off" ≠ hostKey ∧ extra.get? "off" = some "3" ∧
      (ofKey after.values "a").head? = some ⟨"a", "9", "secret", true⟩ ∧
      after.get? "a" = some "9" ∧ after.toVariables.get? "a" = some "9" ∧
      after.get? "off" = none ∧ after.toVariables.get? "off" = none := by
  intro extra after
  have hkey : "a" ≠ hostKey := by decide
  have htext : extra.get? "a" = some "9" := rfl
  have hoff : "off" ≠ hostKey := by decide
  have hofftext : extra.get? "off" = some "3" := rfl
  obtain ⟨hfirst, -, hget, hrun, -⟩ := found_withVariables guarded extra "a" "9" hkey htext
  obtain ⟨-, -, -, -, hnothing⟩ := found_withVariables guarded extra "off" "3" hoff hofftext
  obtain ⟨hnoget, hnorun⟩ := hnothing (by decide) (by decide)
  exact ⟨hkey, htext, hoff, hofftext, hfirst, hget rfl, hrun rfl (by decide), hnoget, hnorun⟩

/-- Setting variables takes effect: whatever is set is found, by a lookup and by a run. -/
def TakesEffect (env : Environment) (extra : Variables) : Prop :=
  ∀ key text, key ≠ hostKey → extra.get? key = some text →
    (env.withVariables extra).get? key = some text ∧
      (env.withVariables extra).toVariables.get? key = some text

/-- What a document gives in which keys stand several times: of `off` the one variable is off, of
`late` the second one is on, and of `twice` both are. -/
def repeatedDocument : Environment where
  name := "n"
  values :=
    [⟨"off", "1", "text", false⟩, ⟨"late", "1", "text", false⟩, ⟨"late", "2", "text", true⟩,
      ⟨"twice", "1", "text", true⟩, ⟨"twice", "2", "text", true⟩]
  scope := "environment"

/-- Three ways in which a text that is set is not found: nothing is, or a run finds the older text,
or both lookups do. -/
theorem not_takesEffect_repeatedDocument :
    Environment.decode.parse repeatedDocument.toValue.pretty = .ok repeatedDocument ∧
      ∀ key ∈ ["off", "late", "twice"], ¬ repeatedDocument.TakesEffect [(key, "3")] := by
  have hdepth : repeatedDocument.toValue.depth ≤ Json.maxDepth :=
    Nat.le_trans repeatedDocument.depth_toValue (by decide)
  have hparse : Environment.decode.parse repeatedDocument.toValue.pretty = .ok repeatedDocument :=
    (repeatedDocument.restores Json.maxDepth).parse_pretty hdepth
  have hhost : ∀ key ∈ ["off", "late", "twice"], key ≠ hostKey := by decide
  have hlost : ∀ key ∈ ["off", "late", "twice"],
      (repeatedDocument.withVariables [(key, "3")]).toVariables.get? key ≠ some "3" := by decide
  refine ⟨hparse, fun key hkey heffect => hlost key hkey ?_⟩
  have htext : Variables.get? [(key, "3")] key = some "3" := by simp [Variables.get?]
  exact (heffect key "3" (hhost key hkey) htext).2

end CollectionRunner.Environment
