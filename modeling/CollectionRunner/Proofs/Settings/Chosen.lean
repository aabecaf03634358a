import CollectionRunner.Cli.Program
import CollectionRunner.Proofs.FileSystem.Directory

/-!
# Where each setting comes from

A setting is that of the command line, else that of the configuration, else its default. A relative
path is read against the base directory where the command line gives it, and against the directory
of the file of the configuration where the configuration gives it. Main statement:
`Cli.settings_chosen`.
-/

namespace CollectionRunner

theorem eq_ok_of_orProblem {context : String} {cause : ε → Cause} {x : Except ε α} {a : α}
    (h : orProblem context cause x = .ok a) : x = .ok a := by
  cases x with
  | error e => cases h
  | ok b => rw [Except.ok.inj h]

theorem eq_ok_of_during {context : String} {x : Except Problem α} {a : α}
    (h : during context x = .ok a) : x = .ok a := by
  cases x with
  | error p => cases h
  | ok b => rw [Except.ok.inj h]

/-! ## Paths that are read against a directory -/

/-- A path `q` is a path `p` read against a directory: it is absolute, and where `p` is relative it
leads where `p` leads from that directory. -/
structure Path.ReadAgainst (fs : FileSystem) (dir p q : Path) : Prop where
  text : q = if isAbsolute p then p else join dir p
  absolute : isAbsolute q = true
  leads : isAbsolute p = false → FileSystem.refuse? q = none →
    fs.place q = fs.place dir >>= fun place => fs.walk place (parts p)

theorem Path.readAgainst_join (fs : FileSystem) {dir : Path} (hdir : isAbsolute dir = true)
    (p : Path) : ReadAgainst fs dir p (join dir p) where
  text := by
    split
    · rename_i hp
      exact join_of_isAbsolute hp
    · rfl
  absolute := isAbsolute_join hdir p
  leads hp hrefuse := FileSystem.place_join hdir hp hrefuse

theorem FileSystem.isAbsolute_workPath (fs : FileSystem) : Path.isAbsolute fs.workPath = true :=
  Path.isAbsolute_iff.mpr ⟨_, String.toList_append⟩

/-! ## The configuration -/

namespace LoadedConfig

variable {fs : FileSystem} {target : Path} {c : LoadedConfig}

/-- A configuration is the one that a target names: that of the target itself, or, if a directory
stands there, of the file of configurations in it. It is what was read from its file, and its
directory is the one that this file stands in. -/
structure NamedBy (fs : FileSystem) (target : Path) (c : LoadedConfig) : Prop where
  path : c.path = if fs.isDirectory target then Path.join target Config.fileName else target
  content : ∃ text, fs.readText c.path = .ok text ∧ Config.decode.parse text = .ok c.config
  absolute : Path.isAbsolute c.dir = true
  dir : fs.IsRooted → ∃ place name,
    fs.place c.path = .ok (place ++ [name]) ∧ fs.place c.dir = .ok place

theorem locate_of_isAbsolute (h : Path.isAbsolute target = true) :
    locate fs target = if fs.isDirectory target then (Path.join target Config.fileName, target)
      else (target, (Path.parent? target).getD fs.workPath) := by
  rw [locate, if_pos h]

theorem fst_locate_of_isAbsolute (h : Path.isAbsolute target = true) :
    (locate fs target).1 =
      if fs.isDirectory target then Path.join target Config.fileName else target := by
  rw [locate_of_isAbsolute h]
  split <;> rfl

theorem isAbsolute_fst_locate (h : Path.isAbsolute target = true) :
    Path.isAbsolute (locate fs target).1 = true := by
  rw [fst_locate_of_isAbsolute h]
  split
  · exact Path.isAbsolute_join h _
  · exact h

theorem isAbsolute_snd_locate (h : Path.isAbsolute target = true) :
    Path.isAbsolute (locate fs target).2 = true := by
  rw [locate_of_isAbsolute h]
  split
  · exact h
  · cases hparent : Path.parent? target with
    | none => exact fs.isAbsolute_workPath
    | some above => exact Path.isAbsolute_parent? h hparent

/-- What can be read stands in the directory that is found along with it. -/
theorem place_locate (hrooted : fs.IsRooted) (htarget : Path.isAbsolute target = true)
    {bytes : Bytes} (h : fs.read (locate fs target).1 = .ok bytes) :
    ∃ place name, fs.place (locate fs target).1 = .ok (place ++ [name]) ∧
      fs.place (locate fs target).2 = .ok place := by
  obtain ⟨q, hplace, hentry⟩ := FileSystem.exists_of_read h
  rw [locate_of_isAbsolute htarget] at hplace ⊢
  by_cases hdir : fs.isDirectory target = true
  · rw [if_pos hdir] at hplace ⊢
    obtain ⟨place, htop, hwalk⟩ : ∃ place, fs.place target = .ok place ∧
        fs.walk place [Config.fileName.toList] = .ok q := by
      rw [FileSystem.place_join htarget rfl (FileSystem.refuse?_of_place hplace)] at hplace
      exact exists_of_bind_eq_ok hplace
    obtain ⟨next, hstep, hnext⟩ := exists_of_bind_eq_ok hwalk
    obtain rfl : next = q := Except.ok.inj hnext
    refine ⟨place, Config.fileName, ?_, htop⟩
    rw [hplace, ← FileSystem.following_of_step hstep]
    rfl
  · rw [if_neg hdir] at hplace ⊢
    have hfile : fs.hasDirectory q = false := by
      rw [FileSystem.hasDirectory, hentry]
      rfl
    obtain ⟨above, name, dir, rfl, hparent, htop⟩ :=
      FileSystem.place_parent? hrooted htarget hplace hfile
    refine ⟨above, name, hplace, ?_⟩
    rw [hparent]
    exact htop

theorem namedBy_of_load (htarget : Path.isAbsolute target = true)
    (h : load fs target = .ok (some c)) : NamedBy fs target c := by
  unfold load at h
  dsimp only at h
  split at h
  · cases h
  obtain ⟨text, htext, h⟩ := exists_of_bind_eq_ok h
  obtain ⟨config, hconfig, h⟩ := exists_of_bind_eq_ok h
  obtain rfl := Option.some.inj (Except.ok.inj h)
  have htext := eq_ok_of_orProblem htext
  obtain ⟨bytes, hread, -⟩ := exists_of_bind_eq_ok htext
  exact {
    path := fst_locate_of_isAbsolute htarget
    content := ⟨text, htext, eq_ok_of_orProblem hconfig⟩
    absolute := isAbsolute_snd_locate htarget
    dir := fun hrooted => place_locate hrooted htarget hread }

/-- Where a target names no configuration, no file of one is there. -/
theorem holds_of_load_none (htarget : Path.isAbsolute target = true)
    (h : load fs target = .ok none) :
    fs.holds (if fs.isDirectory target then Path.join target Config.fileName else target) =
      false := by
  rw [← fst_locate_of_isAbsolute htarget]
  unfold load at h
  dsimp only at h
  split at h
  · rename_i hholds
    simpa using hholds
  · obtain ⟨text, -, h⟩ := exists_of_bind_eq_ok h
    obtain ⟨config, -, h⟩ := exists_of_bind_eq_ok h
    cases Except.ok.inj h

theorem load_of_loadRequired (h : loadRequired fs target = .ok c) :
    load fs target = .ok (some c) := by
  obtain ⟨loaded, hload, h⟩ := exists_of_bind_eq_ok h
  cases loaded with
  | none => cases h
  | some c' => rw [hload, Except.ok.inj h]

end LoadedConfig

/-! ## The choice of a path -/

/-- The path that is chosen among that of the command line, that of the configuration and the
default name, given the base directory and the directory of the configuration. -/
inductive Path.Chosen (fs : FileSystem) (base : Path) (dir default : Option Path) :
    (flag configured result : Option Path) → Prop
  | flag {p q configured} (h : ReadAgainst fs base p q) :
    Chosen fs base dir default (some p) configured (some q)
  | configured {above p q} (hdir : dir = some above) (h : ReadAgainst fs above p q) :
    Chosen fs base dir default none (some p) (some q)
  | default {p q} (hdefault : default = some p) (h : ReadAgainst fs (dir.getD base) p q) :
    Chosen fs base dir default none none (some q)
  | nothing (hdefault : default = none) : Chosen fs base dir default none none none

namespace Path

variable {fs : FileSystem} {base : Path} {dir default flag configured : Option Path}

theorem ReadAgainst.unique {p q r : Path} (hq : ReadAgainst fs base p q)
    (hr : ReadAgainst fs base p r) : q = r := hq.text.trans hr.text.symm

/-- What is chosen depends on the directories, the default name and the two values alone. -/
theorem Chosen.unique {p q : Option Path} (hp : Chosen fs base dir default flag configured p)
    (hq : Chosen fs base dir default flag configured q) : p = q := by
  cases hp with
  | flag hp =>
    cases hq with
    | flag hq => rw [hp.unique hq]
  | configured hdir hp =>
    cases hq with
    | configured hdir' hq =>
      obtain rfl := Option.some.inj (hdir.symm.trans hdir')
      rw [hp.unique hq]
  | default hdefault hp =>
    cases hq with
    | default hdefault' hq =>
      obtain rfl := Option.some.inj (hdefault.symm.trans hdefault')
      rw [hp.unique hq]
    | nothing hdefault' => cases hdefault.symm.trans hdefault'
  | nothing hdefault =>
    cases hq with
    | default hdefault' => cases hdefault.symm.trans hdefault'
    | nothing => rfl

theorem Chosen.iff_eq {p : Option Path} (h : Chosen fs base dir default flag configured p)
    (q : Option Path) : Chosen fs base dir default flag configured q ↔ q = p :=
  ⟨fun hq => hq.unique h, fun hq => hq ▸ h⟩

theorem Chosen.isAbsolute {p : Path} (h : Chosen fs base dir default flag configured (some p)) :
    Path.isAbsolute p = true := by
  cases h with
  | flag h => exact h.absolute
  | configured _ h => exact h.absolute
  | default _ h => exact h.absolute

end Path

namespace Settings

namespace Sources

variable {s : Sources} {override : Overrides → Option Path} {member : Config → Option String}

theorem chosen_pickPath (fs : FileSystem) (hbase : Path.isAbsolute s.baseDir = true)
    (hdir : ∀ c, s.config = some c → Path.isAbsolute c.dir = true) :
    Path.Chosen fs s.baseDir (s.config.map LoadedConfig.dir) none (override s.overrides)
      (s.configured member) (s.pickPath override member) := by
  unfold pickPath configured
  cases override s.overrides with
  | some p => exact .flag (Path.readAgainst_join fs hbase p)
  | none =>
    cases hconfig : s.config with
    | none => exact .nothing rfl
    | some c =>
      show Path.Chosen fs _ _ none none (member c.config) ((member c.config).map c.resolve)
      cases member c.config with
      | none => exact .nothing rfl
      | some p => exact .configured rfl (Path.readAgainst_join fs (hdir c hconfig) p)

theorem isAbsolute_defaultsDir (hbase : Path.isAbsolute s.baseDir = true)
    (hdir : ∀ c, s.config = some c → Path.isAbsolute c.dir = true) :
    Path.isAbsolute s.defaultsDir = true := by
  unfold defaultsDir
  cases hconfig : s.config with
  | none => exact hbase
  | some c => exact hdir c hconfig

/-- A path that has a default name. -/
theorem chosen_getD (fs : FileSystem) (hbase : Path.isAbsolute s.baseDir = true)
    (hdir : ∀ c, s.config = some c → Path.isAbsolute c.dir = true) (name : Path) :
    Path.Chosen fs s.baseDir (s.config.map LoadedConfig.dir) (some name) (override s.overrides)
      (s.configured member)
      (some ((s.pickPath override member).getD (Path.join s.defaultsDir name))) := by
  have hdefault := Path.readAgainst_join fs (isAbsolute_defaultsDir hbase hdir) name
  have hpick : Path.Chosen fs s.baseDir (s.config.map LoadedConfig.dir) none
      (override s.overrides) (s.configured member) (s.pickPath override member) :=
    chosen_pickPath fs hbase hdir
  revert hpick
  generalize override s.overrides = flag
  generalize s.configured member = configured
  generalize s.pickPath override member = p
  rintro (h | ⟨h, h'⟩ | ⟨⟨⟩, -⟩ | -)
  · exact .flag h
  · exact .configured h h'
  · exact .default rfl hdefault

end Sources

/-- The settings are chosen from their sources, along with the path of the env file. Each is
determined by its own values and the directories that paths are read against. -/
structure ChosenFrom (fs : FileSystem) (s : Sources) (file : Option Path) (t : Settings) :
    Prop where
  engine : t.engine = (s.overrides.engine.or (s.configured Config.engine)).getD .native
  runnerBin : t.runnerBin = (s.overrides.runnerBin.or (s.configured Config.runnerBin)).getD "newman"
  timeoutMs : t.timeoutMs = s.overrides.timeoutMs.or (s.configured Config.timeoutMs)
  collection : ∀ p, Path.Chosen fs s.baseDir (s.config.map LoadedConfig.dir)
    (some "filevault-packagemgr-tests.postman_collection.json") s.overrides.collection
    (s.configured Config.collection) p ↔ p = some t.collection
  fixture : ∀ p, Path.Chosen fs s.baseDir (s.config.map LoadedConfig.dir)
    (some "test-files/test-package.zip") s.overrides.fixture
    (s.configured Config.fixture) p ↔ p = some t.fixture
  envFile : ∀ p, Path.Chosen fs s.baseDir (s.config.map LoadedConfig.dir) none
    s.overrides.envFile (s.configured Config.envFile) p ↔ p = file
  jsonExport : ∀ p, Path.Chosen fs s.baseDir none none s.overrides.jsonExport none p ↔
    p = t.jsonExport
  vars : ∃ entries, t.vars = s.configVariables ++ entries ∧
    (file = none → entries = []) ∧ ∀ p, file = some p → EnvFile.load fs p = .ok entries
  absolute : ∀ p, p = t.collection ∨ p = t.fixture ∨ some p = file ∨ some p = t.jsonExport →
    Path.isAbsolute p = true

theorem chosenFrom_ofSources {fs : FileSystem} {s : Sources} {entries : Variables}
    (hbase : Path.isAbsolute s.baseDir = true)
    (hdir : ∀ c, s.config = some c → Path.isAbsolute c.dir = true)
    (hentries : s.fileVariables fs = .ok entries) :
    ChosenFrom fs s s.envFile (ofSources s entries) := by
  have hcollection : Path.Chosen fs s.baseDir (s.config.map LoadedConfig.dir)
      (some defaultCollection) s.overrides.collection (s.configured Config.collection)
      (some s.collection) := Sources.chosen_getD fs hbase hdir defaultCollection
  have hfixture : Path.Chosen fs s.baseDir (s.config.map LoadedConfig.dir)
      (some defaultFixture) s.overrides.fixture (s.configured Config.fixture)
      (some s.fixture) := Sources.chosen_getD fs hbase hdir defaultFixture
  have henvFile : Path.Chosen fs s.baseDir (s.config.map LoadedConfig.dir) none
      s.overrides.envFile (s.configured Config.envFile) s.envFile :=
    Sources.chosen_pickPath fs hbase hdir
  have hexport : Path.Chosen fs s.baseDir none none s.overrides.jsonExport none
      (s.overrides.jsonExport.map (Path.join s.baseDir)) := by
    cases s.overrides.jsonExport with
    | none => exact .nothing rfl
    | some p => exact .flag (Path.readAgainst_join fs hbase p)
  refine ⟨rfl, rfl, rfl, hcollection.iff_eq, hfixture.iff_eq, henvFile.iff_eq, hexport.iff_eq,
    ⟨entries, rfl, fun hnone => ?_, fun p hp => ?_⟩, ?_⟩
  · rw [Sources.fileVariables, hnone] at hentries
    exact (Except.ok.inj hentries).symm
  · rwa [Sources.fileVariables, hp] at hentries
  · rintro p (rfl | rfl | hp | hp)
    · exact hcollection.isAbsolute
    · exact hfixture.isAbsolute
    · rw [← hp] at henvFile
      exact henvFile.isAbsolute
    · have hp : some p = s.overrides.jsonExport.map (Path.join s.baseDir) := hp
      rw [← hp] at hexport
      exact hexport.isAbsolute

end Settings

/-! ## The command line -/

/-- The path that is given, read against a directory; without one the directory itself. -/
def Path.GivenIn (fs : FileSystem) (dir : Path) : (given : Option Path) → Path → Prop
  | some p, q => ReadAgainst fs dir p q
  | none, q => q = dir

namespace Cli

/-- A command line finds its base directory and its configuration. -/
structure Options.Finds (fs : FileSystem) (o : Options) (base : Path)
    (config : Option LoadedConfig) : Prop where
  given : Path.GivenIn fs fs.workPath o.cwd base
  named : ∀ c, config = some c → ∃ target, Path.GivenIn fs base o.config target ∧
    LoadedConfig.NamedBy fs target c
  missing : config = none → o.config = none ∧
    fs.holds (if fs.isDirectory base then Path.join base Config.fileName else base) = false

theorem Options.isAbsolute_baseDir (fs : FileSystem) (o : Options) :
    Path.isAbsolute (o.baseDir fs) = true := by
  unfold baseDir
  split
  · exact Path.isAbsolute_join fs.isAbsolute_workPath _
  · exact fs.isAbsolute_workPath

theorem Options.finds_of_loadConfig {fs : FileSystem} {o : Options} {config : Option LoadedConfig}
    (h : o.loadConfig fs = .ok config) : o.Finds fs (o.baseDir fs) config := by
  have hbase := o.isAbsolute_baseDir fs
  have hload := eq_ok_of_during h
  have hgiven : Path.GivenIn fs fs.workPath o.cwd (o.baseDir fs) := by
    unfold baseDir
    cases o.cwd with
    | none => rfl
    | some dir => exact Path.readAgainst_join fs fs.isAbsolute_workPath dir
  cases hconfig : o.config with
  | none =>
    rw [hconfig] at hload
    refine ⟨hgiven, ?_, ?_⟩
    · rintro c rfl
      refine ⟨o.baseDir fs, ?_, LoadedConfig.namedBy_of_load hbase hload⟩
      rw [hconfig]
      rfl
    · rintro rfl
      exact ⟨hconfig, LoadedConfig.holds_of_load_none hbase hload⟩
  | some p =>
    rw [hconfig] at hload
    obtain ⟨c, hrequired, rfl⟩ := exists_of_map_eq_ok hload
    have htarget := Path.readAgainst_join fs hbase p
    refine ⟨hgiven, ?_, fun hnone => by cases hnone⟩
    rintro c' ⟨⟩
    refine ⟨_, ?_, LoadedConfig.namedBy_of_load htarget.absolute
      (LoadedConfig.load_of_loadRequired hrequired)⟩
    rw [hconfig]
    exact htarget

/-- Settings are made of the base directory, the configuration that is found, the command line and
the entries of the env file. -/
theorem Options.exists_sources {fs : FileSystem} {o : Options} {s : Settings}
    (h : (o.settings fs).value = .ok s) :
    ∃ config entries, o.loadConfig fs = .ok config ∧
      Settings.Sources.fileVariables ⟨o.baseDir fs, config, o.overrides⟩ fs = .ok entries ∧
      s = Settings.ofSources ⟨o.baseDir fs, config, o.overrides⟩ entries := by
  unfold Options.settings at h
  split at h
  · cases h
  · rename_i config hconfig
    rw [Settings.value_build] at h
    obtain ⟨entries, hentries, rfl⟩ := exists_of_map_eq_ok h
    exact ⟨config, entries, hconfig, hentries, rfl⟩

theorem Options.isAbsolute_dir {fs : FileSystem} {o : Options} {config : Option LoadedConfig}
    (h : o.loadConfig fs = .ok config) : ∀ c, config = some c → Path.isAbsolute c.dir = true := by
  intro c hc
  obtain ⟨target, -, hnamed⟩ := (Options.finds_of_loadConfig h).named c hc
  exact hnamed.absolute

/-- Whenever settings are built, they are chosen from the command line and the configuration that it
finds. The engine, the runner and the timeout are those of the command line, else those of the
configuration, else the native engine, `newman` and none. A path is the one that is chosen by
`Path.Chosen`, and it is absolute. -/
theorem settings_chosen {fs : FileSystem} {o : Options} {s : Settings}
    (h : (o.settings fs).value = .ok s) :
    ∃ base config envFile, o.Finds fs base config ∧
      Settings.ChosenFrom fs ⟨base, config, o.overrides⟩ envFile s := by
  obtain ⟨config, entries, hconfig, hentries, rfl⟩ := Options.exists_sources h
  exact ⟨o.baseDir fs, config, _, Options.finds_of_loadConfig hconfig,
    Settings.chosenFrom_ofSources (o.isAbsolute_baseDir fs) (Options.isAbsolute_dir hconfig)
      hentries⟩

/-- Files with a configuration beside the base directory. -/
def besideFiles : FileSystem :=
  ⟨[(["w"], .directory), (["w", "base"], .directory), (["w", "conf"], .directory),
    (["w", "conf", "colrun.json"], .file (toBytes
      ("\x7b\"collection\":\"c.json\",\"engine\":\"newman\"," ++
        "\"envFile\":\"v.env\",\"timeoutMs\":5\x7d"))),
    (["w", "conf", "v.env"], .file (toBytes "A=1\n"))], ["w"]⟩

/-- A command line that asks for that configuration by its directory. -/
def besideOptions : Options where
  overrides := { engine := some .native, jsonExport := some "out.json" }
  config := some "../conf"
  cwd := some "base"

/-- The settings that it leads to. -/
def besideSettings : Settings where
  baseUrl := "http://localhost:8080"
  collection := "/w/base/../conf/c.json"
  fixture := "/w/base/../conf/test-files/test-package.zip"
  engine := .native
  runnerBin := "newman"
  timeoutMs := some 5
  vars := [("A", "1")]
  jsonExport := some "/w/base/out.json"

/-- The collection and the fixture stand beside the configuration, and the export in the base
directory. -/
theorem settings_chosen_beside :
    (besideOptions.settings besideFiles).value = .ok besideSettings ∧
      ∃ base config envFile, besideOptions.Finds besideFiles base config ∧
        Settings.ChosenFrom besideFiles ⟨base, config, besideOptions.overrides⟩ envFile
          besideSettings := by
  have hbuilt : (besideOptions.settings besideFiles).value.toOption = some besideSettings := by
    decide +kernel
  have h : (besideOptions.settings besideFiles).value = .ok besideSettings := by
    cases hvalue : (besideOptions.settings besideFiles).value with
    | error p =>
      rw [hvalue] at hbuilt
      cases hbuilt
    | ok s =>
      rw [hvalue] at hbuilt
      exact congrArg Except.ok (Option.some.inj hbuilt)
  exact ⟨h, settings_chosen h⟩

end Cli

end CollectionRunner
