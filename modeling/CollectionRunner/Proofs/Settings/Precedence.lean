import CollectionRunner.Proofs.Settings.Assigned
import CollectionRunner.Proofs.Settings.Order
import CollectionRunner.Proofs.Text.ByteOrder
import CollectionRunner.Run.Native

/-!
# Which source of variables wins

The variables of a run come from the address of the server, the env file, the configuration and the
collection. Main statement: `resolve_runVariables`. A name stands for what the first of these
sources says of it, in that order, and a name of which none says anything is left as it is written.
-/

namespace CollectionRunner

/-- The text with every placeholder replaced by what its name stands for. One whose name stands for
nothing stays as it is written. -/
def Placeholder.fill (bound : String → Option String) (s : String) : String :=
  String.ofList ((pieces s.toList).flatMap fun piece =>
    match piece with
    | .char c => [c]
    | .hole inner =>
      match bound (Piece.nameOf inner) with
      | some text => text.toList
      | none => (Piece.hole inner).source)

theorem Placeholder.resolve_eq_fill {vars : Variables} {bound : String → Option String}
    (h : ∀ name, vars.get? name = bound name) (s : String) : resolve vars s = fill bound s := by
  have hbound : vars.get? = bound := funext h
  subst hbound
  rfl

namespace Collection

/-- The text of the last variable of a name that is switched on and has a value other than null. -/
def lastText? (c : Collection) (name : String) : Option String :=
  c.vars.reverse.findSome? fun v =>
    if v.key = name ∧ v.disabled = false then v.text? Json.Value.text else none

theorem get?_activeVariables (c : Collection) (name : String) :
    c.activeVariables.get? name = c.lastText? name := by
  unfold activeVariables lastText?
  rw [Variables.get?_eq]
  induction c.vars with
  | nil => rfl
  | cons v vs ih =>
    rw [List.reverse_cons, List.findSome?_append, ← ih, List.findSome?_singleton]
    cases hv : v.disabled with
    | true => simp [hv]
    | false =>
      cases ht : v.text? Json.Value.text with
      | none => simp [hv, ht]
      | some text =>
        rw [List.filter_cons_of_pos (by simp [hv]), List.filterMap_cons, ht]
        by_cases hname : v.key = name
        · simp [List.lookup_append, hname]
        · have hne : (name == v.key) = false := beq_eq_false_iff_ne.mpr (Ne.symm hname)
          simp [List.lookup_append, List.lookup_cons, hname, hne]

end Collection

/-- The configuration with its variables met in another order. -/
def LoadedConfig.reordered (c : LoadedConfig) (order : Variables) : LoadedConfig :=
  { c with config := { c.config with vars := order } }

/-- The variables of a configuration, if there is one. -/
def LoadedConfig.bindings (loaded : Option LoadedConfig) : Variables :=
  (loaded.map fun c => c.config.vars).getD []

theorem LoadedConfig.sorted_bindings {fs : FileSystem} {target : Path}
    {loaded : Option LoadedConfig} (h : load fs target = .ok loaded) :
    Keyed.Sorted (bindings loaded) := by
  cases loaded with
  | none => exact Keyed.sorted_nil
  | some c => exact sorted_vars_of_load h

namespace Environment

/-- The environment of a server with further variables, each of them a text. -/
theorem text_forHost (baseUrl : String) :
    ∀ v ∈ (forHost baseUrl).values, v = .text v.key v.value := by
  intro v hv
  obtain rfl := List.mem_singleton.mp hv
  rfl

theorem nodup_forHost (baseUrl : String) (extra : Variables) :
    (keysOf ((forHost baseUrl).withVariables extra).values).Nodup := by
  have hserver : (keysOf (forHost baseUrl).values).Nodup := List.pairwise_singleton _ _
  exact nodup_withVariables hserver extra

/-- The keys in three groups: that of the server, those of the first variables, and those that only
the others have. -/
theorem keys_forHost (baseUrl : String) {configured : Variables}
    (hnodup : (configured.map Prod.fst).Nodup) (entries : Variables) :
    let keys := (configured.map Prod.fst).filter fun k => k ≠ hostKey
    keysOf ((forHost baseUrl).withVariables (configured ++ entries)).values =
      hostKey :: keys ++
        ((entries.map Prod.fst).filter fun k => k ∉ hostKey :: keys).eraseDups := by
  intro keys
  have hfirst : newKeys [hostKey] configured = keys := by
    have hfilter : (configured.map Prod.fst).filter (fun k => k ≠ hostKey ∧ k ∉ [hostKey]) = keys :=
      List.filter_congr fun k _ => by simp
    rw [newKeys, hfilter, eraseDups_of_nodup (hnodup.filter _)]
  have hrest : newKeys (hostKey :: keys) entries =
      ((entries.map Prod.fst).filter fun k => k ∉ hostKey :: keys).eraseDups := by
    have hfilter : (entries.map Prod.fst).filter (fun k => k ≠ hostKey ∧ k ∉ hostKey :: keys) =
        (entries.map Prod.fst).filter fun k => k ∉ hostKey :: keys :=
      List.filter_congr fun k _ => by simp
    rw [newKeys, hfilter]
  have hsplit : (forHost baseUrl).withVariables (configured ++ entries) =
      ((forHost baseUrl).withVariables configured).withVariables entries := List.foldl_append
  have hkeys : keysOf ((forHost baseUrl).withVariables configured).values = hostKey :: keys := by
    rw [keys_withVariables, ← hfirst]
    rfl
  rw [hsplit, keys_withVariables, hkeys, hrest]

end Environment

namespace Settings

/-- What a name stands for in a run. -/
def boundText? (baseUrl : String) (entries configured : Variables) (c : Collection)
    (name : String) : Option String :=
  if name = Environment.hostKey then some baseUrl
  else (entries.reverse.lookup name).or ((configured.lookup name).or (c.lastText? name))

/-- What a name stands for without a collection is its value in the environment. -/
theorem valueOf?_forHost (baseUrl : String) {configured : Variables}
    (hnodup : (configured.map Prod.fst).Nodup) (entries : Variables) (name : String) :
    Environment.valueOf?
        ((Environment.forHost baseUrl).withVariables (configured ++ entries)).values name =
      boundText? baseUrl entries configured {} name := by
  have hlookup : (configured ++ entries).reverse.lookup name =
      (entries.reverse.lookup name).or (configured.lookup name) := by
    rw [List.reverse_append, List.lookup_append, Variables.lookup_reverse hnodup]
  have hserver : Environment.valueOf? (Environment.forHost baseUrl).values name =
      if Environment.hostKey = name then some baseUrl else none := Environment.valueOf?_cons _ _ _
  rw [Environment.value?_withVariables, hlookup, hserver, boundText?]
  by_cases h : name = Environment.hostKey
  · simp [h]
  · have hnone : Collection.lastText? {} name = none := rfl
    simp [h, Ne.symm h, hnone]

theorem boundText?_eq (baseUrl : String) (entries configured : Variables) (c : Collection)
    (name : String) : boundText? baseUrl entries configured c name =
      (boundText? baseUrl entries configured {} name).or (c.lastText? name) := by
  have hnone : Collection.lastText? {} name = none := rfl
  unfold boundText?
  split
  · rfl
  · rw [hnone, Option.or_none, Option.or_assoc]

theorem get?_runVariables (baseUrl : String) {configured : Variables}
    (hnodup : (configured.map Prod.fst).Nodup) (entries : Variables) {r : RunRequest}
    (henv : r.environment = (Environment.forHost baseUrl).withVariables (configured ++ entries))
    (name : String) :
    (Native.runVariables r).get? name =
      boundText? baseUrl entries configured r.collection name := by
  have htext := Environment.text_withVariables (configured ++ entries)
    (Environment.text_forHost baseUrl)
  rw [Native.runVariables, Variables.get?_append, Collection.get?_activeVariables, henv,
    Environment.get?_toVariables htext (Environment.nodup_forHost baseUrl _),
    valueOf?_forHost baseUrl hnodup, ← boundText?_eq]

/-- Take a configuration that was loaded, its variables in any order, and any entries of an env
file. In a native run a placeholder stands for the address of the server, if it names it; else for
the last entry of its name; else for the variable of the configuration; else for the last variable
of the collection that is switched on and has a value other than null; and else for itself. The
environment holds the address, then the variables of the configuration in the order of the bytes of
their keys, and then the other entries in the order in which their keys appear first, each key
once. -/
theorem resolve_runVariables (fs : FileSystem) (target : Path) (loaded : Option LoadedConfig)
    (hload : LoadedConfig.load fs target = .ok loaded) (order : Variables)
    (horder : ∀ c ∈ loaded, order.Perm c.config.vars) (baseDir : Path) (overrides : Overrides)
    (entries : Variables) :
    let s : Sources := ⟨baseDir, loaded.map (·.reordered order), overrides⟩
    let settings := ofSources s entries
    let bound := boundText? settings.baseUrl entries (LoadedConfig.bindings loaded)
    let values := settings.environment.values
    (∀ files, s.fileVariables files = .ok entries → (build files s).value = .ok settings) ∧
      (∀ c reporters text,
        Placeholder.resolve (Native.runVariables ⟨c, settings.environment, reporters⟩) text =
          Placeholder.fill (bound c) text) ∧
      (values.map EnvVariable.key).Nodup ∧
      (∀ v ∈ values, v = .text v.key v.value ∧ bound {} v.key = some v.value) ∧
      ∃ keys : List String,
        keys.Perm (((LoadedConfig.bindings loaded).map Prod.fst).filter
            fun k => k ≠ Environment.hostKey) ∧
          (keys.map toBytes).Pairwise (· < ·) ∧
          values.map EnvVariable.key =
            Environment.hostKey :: keys ++
              ((entries.map Prod.fst).filter fun k =>
                k ∉ Environment.hostKey :: keys).eraseDups := by
  intro s settings bound values
  have hsorted := LoadedConfig.sorted_bindings hload
  have hnodup := hsorted.nodup
  have hconfigured : s.configVariables = LoadedConfig.bindings loaded := by
    cases loaded with
    | none => rfl
    | some c => exact Variables.sorted_eq_of_perm hsorted (horder c rfl)
  have hvars : settings.vars = LoadedConfig.bindings loaded ++ entries := by
    show s.configVariables ++ entries = _
    rw [hconfigured]
  have henv : settings.environment = (Environment.forHost settings.baseUrl).withVariables
      (LoadedConfig.bindings loaded ++ entries) := by rw [environment, hvars]
  have hvalues : values = ((Environment.forHost settings.baseUrl).withVariables
      (LoadedConfig.bindings loaded ++ entries)).values := congrArg Environment.values henv
  have hkeys : (values.map EnvVariable.key).Nodup := by
    rw [hvalues]
    exact Environment.nodup_forHost settings.baseUrl _
  refine ⟨fun files hfile => ?_, fun c reporters text => ?_, hkeys, fun v hv => ⟨?_, ?_⟩,
    _, .refl _, ?_, ?_⟩
  · rw [value_build, hfile]
    rfl
  · exact Placeholder.resolve_eq_fill (get?_runVariables settings.baseUrl hnodup entries henv) text
  · rw [hvalues] at hv
    exact Environment.text_withVariables _ (Environment.text_forHost settings.baseUrl) v hv
  · show boundText? settings.baseUrl entries (LoadedConfig.bindings loaded) {} v.key = _
    rw [← valueOf?_forHost settings.baseUrl hnodup, ← hvalues]
    exact Environment.valueOf?_of_mem hkeys hv
  · rw [List.pairwise_map]
    have hkeys : ((LoadedConfig.bindings loaded).map Prod.fst).Pairwise (· < ·) :=
      List.pairwise_map.mpr hsorted
    exact (hkeys.filter _).imp Text.toBytes_lt
  · rw [hvalues]
    exact Environment.keys_forHost settings.baseUrl hnodup entries

/-- Files with a configuration whose variables have the name of the server among their names. -/
def layeredFiles : FileSystem :=
  ⟨[(["w"], .directory),
    (["w", "colrun.json"], .file (toBytes
      "\x7b\"variables\":\x7b\"b\":\"1\",\"HOST\":\"x\",\"a\":\"2\"\x7d\x7d"))], []⟩

/-- The variables of that configuration in an order of their own. -/
def layeredOrder : Variables := [("b", "1"), ("HOST", "x"), ("a", "2")]

/-- Entries of an env file, two of them of one name. -/
def layeredEntries : Variables := [("c", "3"), ("a", "4"), ("HOST", "y"), ("c", "5")]

/-- A collection with a variable that is switched off and one whose value is null. -/
def layeredCollection : Collection where
  vars :=
    [⟨"a", some (.string "6"), false, []⟩, ⟨"d", some (.string "7"), false, []⟩,
      ⟨"d", some (.bool true), false, []⟩, ⟨"d", some .null, false, []⟩,
      ⟨"d", some (.string "8"), true, []⟩, ⟨"HOST", some (.string "z"), false, []⟩]

/-- A text that consists of placeholders. -/
def placeholders (names : List String) : String :=
  " ".intercalate (names.map fun name => "\x7b\x7b" ++ name ++ "\x7d\x7d")

/-- All sources at once: each of the first names is answered by another one, and the last name by
none. -/
theorem resolve_runVariables_layered :
    ∃ loaded : Option LoadedConfig, LoadedConfig.load layeredFiles "/w" = .ok loaded ∧
      (∀ c ∈ loaded, layeredOrder.Perm c.config.vars) ∧
      let settings := ofSources
        ⟨"/w", loaded.map (·.reordered layeredOrder), { port := some "9090" }⟩ layeredEntries
      Placeholder.resolve (Native.runVariables ⟨layeredCollection, settings.environment, []⟩)
          (placeholders ["HOST", "c", "a", " b ", "d", "e"]) =
        "http://localhost:9090 5 4 1 true " ++ placeholders ["e"] := by
  have hread : ((LoadedConfig.load layeredFiles "/w").toOption.map LoadedConfig.bindings) =
      some [("HOST", "x"), ("a", "2"), ("b", "1")] := by decide +kernel
  cases hload : LoadedConfig.load layeredFiles "/w" with
  | error p =>
    rw [hload] at hread
    cases hread
  | ok loaded =>
    rw [hload] at hread
    have hvars : LoadedConfig.bindings loaded = [("HOST", "x"), ("a", "2"), ("b", "1")] :=
      Option.some.inj hread
    have horder : ∀ c ∈ loaded, layeredOrder.Perm c.config.vars := by
      intro c hc
      cases hc
      have hconfig : c.config.vars = [("HOST", "x"), ("a", "2"), ("b", "1")] := hvars
      rw [hconfig]
      decide
    refine ⟨loaded, rfl, horder, ?_⟩
    intro settings
    have hbase : settings.baseUrl = CollectionRunner.baseUrl (some "9090") := rfl
    have hresolve := (resolve_runVariables layeredFiles "/w" loaded hload layeredOrder horder "/w"
      { port := some "9090" } layeredEntries).2.1 layeredCollection []
    rw [hresolve, hbase, hvars]
    decide +kernel

end Settings

end CollectionRunner
