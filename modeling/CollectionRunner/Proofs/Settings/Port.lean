import CollectionRunner.Proofs.Json.Decoded
import CollectionRunner.Settings

/-!
# The port of the server

The port is that of the command line, else that of the configuration. Whichever it is, the server
has the default port if it is empty (`baseUrl_ofSources`), so an empty port of the command line
hides that of the configuration. Main statement: `build_emptyPort`, for what else it changes.
-/

namespace CollectionRunner

theorem baseUrl_of_ne {port : String} (h : port ≠ "") :
    baseUrl (some port) = "http://localhost:" ++ port := by
  have hkept : (some port).filter (· ≠ "") = some port := by simp [h]
  unfold baseUrl
  rw [hkept, Option.getD_some]

/-- Two ports that are not empty lead to one server only if they are the same. -/
theorem baseUrl_inj {port other : String} (hport : port ≠ "") (hother : other ≠ "") :
    baseUrl (some port) = baseUrl (some other) ↔ port = other := by
  rw [baseUrl_of_ne hport, baseUrl_of_ne hother, String.append_right_inj]

theorem baseUrl_eq_none_iff {port : Option String} :
    baseUrl port = baseUrl none ↔ ∀ p ∈ port, p = "" ∨ p = defaultPort := by
  cases port with
  | none => simp
  | some p =>
    by_cases hp : p = ""
    · subst hp
      simp [baseUrl_empty]
    · have hdefault : baseUrl none = baseUrl (some defaultPort) := by decide
      rw [hdefault, baseUrl_inj hp (by decide)]
      simp [hp]

namespace Settings

/-- The sources with another port on the command line, or without one. -/
def Sources.withPort (s : Sources) (port : Option String) : Sources :=
  { s with overrides := { s.overrides with port := port } }

/-- The settings of a run against another server. -/
def against (t : Settings) (baseUrl : String) : Settings := { t with baseUrl := baseUrl }

section

variable (fs : FileSystem) (s : Sources)

theorem baseUrl_ofSources (entries : Variables) :
    (ofSources s entries).baseUrl =
      CollectionRunner.baseUrl (s.overrides.port.or (s.configured Config.defaultPort)) := rfl

/-- All that is built from another port is another address of the server. -/
theorem ofSources_withPort (port : Option String) (entries : Variables) :
    ofSources (s.withPort port) entries = (ofSources s entries).against
      (CollectionRunner.baseUrl (port.or (s.configured Config.defaultPort))) := rfl

theorem value_build_withPort (port : Option String) :
    (build fs (s.withPort port)).value = (build fs s).value.map fun t =>
      t.against (CollectionRunner.baseUrl (port.or (s.configured Config.defaultPort))) := by
  have hfile : (s.withPort port).fileVariables fs = s.fileVariables fs := rfl
  rw [value_build, value_build, hfile]
  cases s.fileVariables fs with
  | error p => rfl
  | ok entries => exact congrArg Except.ok (ofSources_withPort s port entries)

theorem warnings_build_withPort (port : Option String) :
    (build fs (s.withPort port)).warnings = (build fs s).warnings := by
  have hfixture : (s.withPort port).fixture = s.fixture := rfl
  unfold build
  rw [hfixture]
  split <;> rfl

/-- Settings that are built have the port of the command line, else that of the configuration, and
where this is empty or missing the default port. -/
theorem baseUrl_of_build {t : Settings} (h : (build fs s).value = .ok t) :
    t.baseUrl =
      CollectionRunner.baseUrl (s.overrides.port.or (s.configured Config.defaultPort)) := by
  rw [value_build] at h
  obtain ⟨entries, -, rfl⟩ := exists_of_map_eq_ok h
  exact baseUrl_ofSources s entries

end

theorem against_eq_self {t : Settings} {baseUrl : String} :
    t.against baseUrl = t ↔ baseUrl = t.baseUrl :=
  ⟨fun h => congrArg Settings.baseUrl h, fun h => by rw [h]; rfl⟩

/-- Take any configuration, or none, any base directory and any other values of the command line.
With an empty port on the command line the same is built as with none, with the same warnings or the
same problem, but for the server: it has the default port whatever the configuration says. So the
settings are the same exactly where the configuration names no other port. The port is always that
of the command line, else that of the configuration, and the default port where this is empty or
missing. -/
theorem build_emptyPort (fs : FileSystem) (s : Sources) :
    let empty := build fs (s.withPort (some ""))
    let without := build fs (s.withPort none)
    empty.warnings = without.warnings ∧
      empty.value = without.value.map (fun t => t.against "http://localhost:8080") ∧
      (∀ t, without.value = .ok t →
        (empty.value = .ok t ↔ ∀ p ∈ s.configured Config.defaultPort, p = "" ∨ p = "8080")) ∧
      ∀ port t, (build fs (s.withPort port)).value = .ok t →
        (∀ p, port.or (s.configured Config.defaultPort) = some p → p ≠ "" →
          t.baseUrl = "http://localhost:" ++ p) ∧
        ((∀ p, port.or (s.configured Config.defaultPort) = some p → p = "") →
          t.baseUrl = "http://localhost:8080") := by
  intro empty without
  have hempty : empty.value =
      without.value.map fun t => t.against "http://localhost:8080" :=
    value_build_withPort fs (s.withPort none) (some "")
  refine ⟨warnings_build_withPort fs (s.withPort none) (some ""), hempty, fun t ht => ?_,
    fun port t ht => ?_⟩
  · have hserver := baseUrl_of_build fs (s.withPort none) ht
    have hport : t.baseUrl = CollectionRunner.baseUrl (s.configured Config.defaultPort) := hserver
    have hbuilt : empty.value = .ok (t.against "http://localhost:8080") := by rw [hempty, ht]; rfl
    rw [hbuilt, Except.ok.injEq, against_eq_self, hport, eq_comm]
    exact baseUrl_eq_none_iff
  · have hserver := baseUrl_of_build fs (s.withPort port) ht
    have hport : t.baseUrl =
        CollectionRunner.baseUrl (port.or (s.configured Config.defaultPort)) := hserver
    rw [hport]
    refine ⟨fun p hp hne => ?_, fun hnone => ?_⟩
    · rw [hp, baseUrl_of_ne hne]
    · exact baseUrl_eq_none_iff.mpr fun p hp => .inl (hnone p hp)

/-- Files with a configuration that names a port. -/
def portFiles : FileSystem :=
  ⟨[(["w"], .directory),
    (["w", "colrun.json"], .file (toBytes "\x7b\"defaultPort\":\"4502\"\x7d"))], []⟩

/-- The port of a configuration is found without a port on the command line, and hidden by an empty
one. -/
theorem build_emptyPort_hidden : ∃ c, LoadedConfig.load portFiles "/w" = .ok (some c) ∧
    let s : Sources := ⟨"/w", some c, {}⟩
    (build portFiles (s.withPort none)).value.map Settings.baseUrl =
        .ok "http://localhost:4502" ∧
      (build portFiles (s.withPort (some ""))).value.map Settings.baseUrl =
        .ok "http://localhost:8080" ∧
      (build portFiles (s.withPort (some ""))).value ≠
        (build portFiles (s.withPort none)).value := by
  have hread : (LoadedConfig.load portFiles "/w").toOption.map
      (Option.map fun c => (c.config.defaultPort, c.config.envFile)) =
        some (some (some "4502", none)) := by decide +kernel
  obtain ⟨loaded, hload, hloaded⟩ := Option.map_eq_some_iff.mp hread
  obtain ⟨c, rfl, hc⟩ := Option.map_eq_some_iff.mp hloaded
  obtain ⟨hport, hfile⟩ := Prod.mk.inj hc
  refine ⟨c, eq_ok_of_toOption hload, ?_⟩
  intro s
  have hbuilt : ∀ port, (build portFiles (s.withPort port)).value.map Settings.baseUrl =
      .ok (CollectionRunner.baseUrl (port.or (some "4502"))) := by
    intro port
    have hnone : (s.withPort port).envFile = none := congrArg (Option.map c.resolve) hfile
    rw [value_build, Sources.fileVariables, hnone, ← hport]
    rfl
  refine ⟨hbuilt none, hbuilt (some ""), fun heq => ?_⟩
  have hservers := congrArg (Except.map Settings.baseUrl) heq
  rw [hbuilt, hbuilt, Except.ok.injEq] at hservers
  exact absurd hservers (by decide)

end Settings

end CollectionRunner
