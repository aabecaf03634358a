import CollectionRunner.Proofs.Cli.Exit
import CollectionRunner.Proofs.FileSystem.StartedIn
import CollectionRunner.Proofs.Run.Carried
import CollectionRunner.Proofs.Run.Independence
import CollectionRunner.Proofs.Settings.Chosen

/-!
# A program that is started in another directory

With an absolute base directory no path of the command line, of the configuration or of a default is
read against the process directory; the uploads of a collection are, where they are not pointed at
the fixture. Main statement: the process directory decides what these uploads hold and nothing else
of a native run (`Cli.run_elsewhere`).
-/

namespace CollectionRunner

/-- The world when the program is started in another directory. -/
def World.startedIn (w : World) (dir : Place) : World := { w with files := w.files.startedIn dir }

/-! ## The configuration and the settings -/

namespace LoadedConfig

variable {fs : FileSystem} {dir : Place} {target : Path}

theorem fst_locate_startedIn (htarget : Path.isAbsolute target = true) :
    (locate (fs.startedIn dir) target).1 = (locate fs target).1 := by
  rw [fst_locate_of_isAbsolute htarget, fst_locate_of_isAbsolute htarget,
    FileSystem.isDirectory_startedIn htarget]

/-- Where a file is found, its path has a parent, so its directory is not the process directory. -/
theorem locate_startedIn (htarget : Path.isAbsolute target = true)
    (h : fs.holds (locate fs target).1 = true) :
    locate (fs.startedIn dir) target = locate fs target := by
  rw [fst_locate_of_isAbsolute htarget] at h
  rw [locate_of_isAbsolute htarget, locate_of_isAbsolute htarget,
    FileSystem.isDirectory_startedIn htarget]
  cases hdir : fs.isDirectory target with
  | true => rfl
  | false =>
    rw [hdir, if_neg Bool.false_ne_true] at h
    obtain ⟨above, habove⟩ := FileSystem.exists_parent?_of_holds htarget h hdir
    rw [if_neg Bool.false_ne_true, if_neg Bool.false_ne_true, habove]
    rfl

theorem load_startedIn (htarget : Path.isAbsolute target = true) :
    load (fs.startedIn dir) target = load fs target := by
  have hpath : Path.isAbsolute (locate fs target).1 = true := isAbsolute_fst_locate htarget
  have hfst : (locate (fs.startedIn dir) target).1 = (locate fs target).1 :=
    fst_locate_startedIn htarget
  unfold load
  dsimp only
  rw [hfst, FileSystem.holds_startedIn hpath, FileSystem.readText_startedIn hpath]
  cases hholds : fs.holds (locate fs target).1 with
  | false => rw [Bool.not_false, if_pos rfl, if_pos rfl]
  | true => rw [locate_startedIn htarget hholds]

theorem loadRequired_startedIn (htarget : Path.isAbsolute target = true) :
    loadRequired (fs.startedIn dir) target = loadRequired fs target := by
  rw [loadRequired, load_startedIn htarget, loadRequired]

end LoadedConfig

theorem EnvFile.load_startedIn {fs : FileSystem} {dir : CollectionRunner.Place} {path : Path}
    (hpath : Path.isAbsolute path = true) : load (fs.startedIn dir) path = load fs path := by
  rw [load, FileSystem.readText_startedIn hpath, load]

namespace Settings

theorem build_startedIn {fs : FileSystem} {dir : Place} {s : Sources}
    (hbase : Path.isAbsolute s.baseDir = true)
    (hdir : ∀ c, s.config = some c → Path.isAbsolute c.dir = true) :
    build (fs.startedIn dir) s = build fs s := by
  have hfixture : Path.isAbsolute s.fixture = true :=
    (Sources.chosen_getD fs hbase hdir defaultFixture).isAbsolute
  have hvars : s.fileVariables (fs.startedIn dir) = s.fileVariables fs := by
    have henvFile : Path.Chosen fs s.baseDir (s.config.map LoadedConfig.dir) none
        s.overrides.envFile (s.configured Config.envFile) s.envFile :=
      Sources.chosen_pickPath fs hbase hdir
    unfold Sources.fileVariables
    cases hfile : s.envFile with
    | none => rfl
    | some p =>
      rw [hfile] at henvFile
      exact EnvFile.load_startedIn henvFile.isAbsolute
  rw [build, build, FileSystem.holds_startedIn hfixture, hvars]

end Settings

namespace Cli.Options

variable {fs : FileSystem} {o : Options} {cwd : Path}

theorem baseDir_of_cwd (hcwd : o.cwd = some cwd) (hcwd' : Path.isAbsolute cwd = true) :
    o.baseDir fs = cwd := by
  rw [baseDir, hcwd]
  exact Path.join_of_isAbsolute hcwd'

section

variable (hcwd : o.cwd = some cwd) (habsolute : Path.isAbsolute cwd = true)
include hcwd habsolute

theorem loadConfig_startedIn (dir : Place) :
    o.loadConfig (fs.startedIn dir) = o.loadConfig fs := by
  unfold loadConfig
  rw [baseDir_of_cwd hcwd habsolute, baseDir_of_cwd hcwd habsolute]
  cases o.config with
  | none => simp only [LoadedConfig.load_startedIn habsolute]
  | some path =>
    simp only [LoadedConfig.loadRequired_startedIn (Path.isAbsolute_join habsolute path)]

/-- With an absolute base directory the settings do not depend on the process directory. -/
theorem settings_startedIn (dir : Place) : o.settings (fs.startedIn dir) = o.settings fs := by
  unfold settings
  rw [loadConfig_startedIn hcwd habsolute, baseDir_of_cwd hcwd habsolute,
    baseDir_of_cwd hcwd habsolute]
  cases hconfig : o.loadConfig fs with
  | error p => rfl
  | ok config => exact Settings.build_startedIn habsolute (isAbsolute_dir hconfig)

end

/-- The paths of settings that are built are absolute. -/
theorem isAbsolute_of_settings {s : Settings} (h : (o.settings fs).value = .ok s) :
    Path.isAbsolute s.collection = true ∧
      ∀ p, s.jsonExport = some p → Path.isAbsolute p = true := by
  obtain ⟨config, entries, hconfig, hentries, rfl⟩ := exists_sources h
  have hchosen := Settings.chosenFrom_ofSources (s := ⟨o.baseDir fs, config, o.overrides⟩)
    (o.isAbsolute_baseDir fs) (isAbsolute_dir hconfig) hentries
  exact ⟨hchosen.absolute _ (.inl rfl), fun p hp =>
    hchosen.absolute p (.inr (.inr (.inr hp.symm)))⟩

end Cli.Options

/-! ## The run -/

/-- The relative paths that the requests of a collection are built from. -/
def Collection.relativePaths (c : Collection) : List Path :=
  (c.leaves.flatMap fun l => l.request.filePaths).filter fun p => !Path.isAbsolute p

theorem Collection.read_of_relativePaths {c : Collection} {fs : FileSystem} {dir : Place}
    (h : ∀ p ∈ c.relativePaths, (fs.startedIn dir).read p = fs.read p) :
    ∀ l ∈ c.leaves, ∀ p ∈ l.request.filePaths, (fs.startedIn dir).read p = fs.read p := by
  intro l hl p hp
  cases habsolute : Path.isAbsolute p with
  | true => exact FileSystem.read_startedIn habsolute
  | false =>
    exact h p (List.mem_filter.mpr ⟨List.mem_flatMap.mpr ⟨l, hl, hp⟩, by rw [habsolute]; rfl⟩)

namespace Native

variable {w : World} {dir : Place}

theorem perform_startedIn {l : Leaf}
    (h : ∀ p ∈ l.request.filePaths, (w.files.startedIn dir).read p = w.files.read p)
    (vars : Variables) (index : Nat) (earlier : List Message) :
    perform (w.startedIn dir) vars index earlier l = perform w vars index earlier l := by
  have hprepare : l.request.prepare (w.startedIn dir).files vars =
      l.request.prepare w.files vars := Request.prepare_congr h
  rw [perform, hprepare, perform]
  rfl

theorem performAll_startedIn {ls : List Leaf}
    (h : ∀ l ∈ ls, ∀ p ∈ l.request.filePaths, (w.files.startedIn dir).read p = w.files.read p)
    (vars : Variables) (index : Nat) (earlier : List Message) :
    performAll (w.startedIn dir) vars index earlier ls = performAll w vars index earlier ls := by
  induction ls generalizing index earlier with
  | nil => rfl
  | cons l ls ih =>
    obtain ⟨hl, hls⟩ := List.forall_mem_cons.mp h
    simp only [performAll, perform_startedIn hl, ih hls]

/-- A run is the same in every process directory in which the relative paths lead to the same
files. -/
theorem run_startedIn {r : RunRequest}
    (h : ∀ p ∈ r.collection.relativePaths, (w.files.startedIn dir).read p = w.files.read p) :
    run (w.startedIn dir) r = run w r := by
  rw [run, performAll_startedIn (Collection.read_of_relativePaths h), run]
  rfl

end Native

/-! ## The program -/

theorem Settings.start_startedIn {w : World} {s : Settings}
    (h : Path.isAbsolute s.collection = true)
    (dir : Place) : s.start (w.startedIn dir) = s.start w := by
  have hcollection : Collection.prepare (w.startedIn dir).files s.collection s.fixture =
      Collection.prepare w.files s.collection s.fixture := by
    rw [Collection.prepare, Collection.load, World.startedIn, FileSystem.readText_startedIn h,
      Collection.prepare, Collection.load]
  rw [start, hcollection, start]
  rfl

namespace Cli

theorem Options.start_startedIn {w : World} {o : Options} {cwd : Path} (hcwd : o.cwd = some cwd)
    (habsolute : Path.isAbsolute cwd = true) (dir : Place) :
    o.start (w.startedIn dir) = o.start w := by
  have hsettings : o.settings (w.startedIn dir).files = o.settings w.files :=
    settings_startedIn hcwd habsolute dir
  rw [start, hsettings, start]
  cases hvalue : (o.settings w.files).value with
  | error p => rfl
  | ok s => exact Settings.start_startedIn (isAbsolute_of_settings hvalue).1 dir

theorem Options.isAbsolute_exportPath {fs : FileSystem} {p : Path} (o : Options)
    (h : o.exportPath? fs = some p) : Path.isAbsolute p = true := by
  obtain ⟨q, -, rfl⟩ := Option.map_eq_some_iff.mp h
  exact Path.isAbsolute_join (o.isAbsolute_baseDir fs) q

/-- The end of the program with the working directory of its files changed. -/
def Exit.startedIn (x : Exit) (dir : Place) : Exit := { x with files := x.files.startedIn dir }

@[simp] theorem Exit.code_startedIn (x : Exit) (dir : Place) :
    (x.startedIn dir).code = x.code := rfl

@[simp] theorem Exit.sent_startedIn (x : Exit) (dir : Place) :
    (x.startedIn dir).sent = x.sent := rfl

theorem Exit.ofRun_startedIn {e : Engine} {w : World} {r : RunRequest} {dir : Place}
    (hrun : e.run (w.startedIn dir) r = e.run w r)
    (hexport : ∀ p, r.jsonExport? = some p → Path.isAbsolute p = true) :
    ofRun e (w.startedIn dir) r = (ofRun e w r).startedIn dir := by
  cases hresult : (e.run w r).value.result with
  | error p =>
    have hresult' : (e.run (w.startedIn dir) r).value.result = .error p := by rw [hrun, hresult]
    rw [ofRun, value_runOnce_of_error hresult', hrun, ofRun, value_runOnce_of_error hresult]
    rfl
  | ok s =>
    have hresult' : (e.run (w.startedIn dir) r).value.result = .ok s := by rw [hrun, hresult]
    rw [ofRun, value_runOnce_of_run hresult', hrun, ofRun, value_runOnce_of_run hresult,
      World.startedIn, Summary.export?_startedIn hexport]
    cases (s.export? w.files r.jsonExport?).2 <;> rfl

end Cli

/-! ## Other times -/

/-- Whether a file can be written does not depend on its content. -/
theorem FileSystem.write_error (fs : FileSystem) (p : Path) (content other : Bytes) {f : Fault}
    (h : fs.write p content = .error f) : fs.write p other = .error f := by
  unfold write at h ⊢
  cases hplace : fs.placeToMake p with
  | error f' =>
    rw [hplace] at h
    exact h
  | ok found =>
    obtain ⟨place, there⟩ := found
    rw [hplace] at h
    revert h
    show Except.bind _ _ = _ → Except.bind _ _ = _
    cases (splitLast p).2.2 <;> rcases there with _ | _ | _ <;> intro h <;>
      first | exact h | cases h

namespace Summary

theorem writeFile_snd (fs : FileSystem) (path : Path) (s t : Summary) :
    (write.writeFile path t fs).2 = (write.writeFile path s fs).2 := by
  unfold write.writeFile
  cases hs : fs.write path (toBytes s.report) with
  | error f => rw [fs.write_error path _ (toBytes t.report) hs]
  | ok written =>
    cases ht : fs.write path (toBytes t.report) with
    | ok written' => rfl
    | error f =>
      rw [fs.write_error path _ (toBytes s.report) ht] at hs
      cases hs

/-- A summary records the same executions and failures as another one, up to the times. -/
structure Matches (s t : Summary) : Prop where
  executions : s.executions.map Execution.timeless = t.executions.map Execution.timeless
  failures : s.failures = t.failures

/-- Whether a summary can be exported does not depend on what it holds. -/
theorem export?_snd (fs : FileSystem) (path : Option Path) (s t : Summary) :
    (t.export? fs path).2 = (s.export? fs path).2 := by
  cases path with
  | none => rfl
  | some p =>
    show (t.write fs p).2 = (s.write fs p).2
    unfold write
    cases Path.parent? p with
    | none =>
      dsimp only
      exact writeFile_snd fs p s t
    | some above =>
      dsimp only
      cases fs.makeDirectories above with
      | error f => rfl
      | ok made =>
        dsimp only
        exact writeFile_snd made p s t

end Summary

namespace Cli

/-- Two ends of the program tell the same, up to the times of their runs. -/
structure Exit.Agrees (x y : Exit) : Prop where
  code : x.code = y.code
  problem : x.problem = y.problem
  sent : x.sent = y.sent
  launched : x.launched = y.launched

/-- How the program ends depends on what was done and on the failures that were recorded. -/
theorem Exit.agrees_ofRun {e : Engine} {w w' : World} {r : RunRequest} {s t : Summary}
    (hs : (e.run w r).value.result = .ok s) (ht : (e.run w' r).value.result = .ok t)
    (hfiles : w'.files = w.files) (hfailures : t.failures = s.failures)
    (hsent : (e.run w' r).value.sent = (e.run w r).value.sent)
    (hlaunched : (e.run w' r).value.launched = (e.run w r).value.launched) :
    (ofRun e w' r).Agrees (ofRun e w r) := by
  have houtcome : Outcome.ofSummary t = Outcome.ofSummary s := by
    rw [Outcome.ofSummary, Summary.failureCount, hfailures, Outcome.ofSummary, Summary.failureCount]
  have hexport := Summary.export?_snd w.files r.jsonExport? s t
  rw [ofRun, value_runOnce_of_run ht, ofRun, value_runOnce_of_run hs]
  simp only [hfiles, hexport, houtcome]
  generalize (t.export? w.files r.jsonExport?).1 = fs'
  generalize (s.export? w.files r.jsonExport?).1 = fs
  cases (s.export? w.files r.jsonExport?).2 with
  | error p => exact ⟨rfl, rfl, hsent, hlaunched⟩
  | ok _ => exact ⟨rfl, rfl, hsent, hlaunched⟩

/-- The times of a native run have no influence on how the program ends. -/
theorem Exit.agrees_timed (w : World) (k : Clock) (r : RunRequest) :
    (ofRun Native.engine (w.timed k) r).Agrees (ofRun Native.engine w r) := by
  obtain ⟨hsent, -, t, s, ht, hs, -, -, hfailures, -⟩ := Native.run_timed w k w.clock r
  have hlaunched : ∀ w', (Native.run w' r).value.launched = none := fun _ => rfl
  exact agrees_ofRun hs ht rfl hfailures hsent ((hlaunched _).trans (hlaunched w).symm)

theorem Options.engine_of_start {w : World} {o : Options} {e : Engine} {r : RunRequest}
    (hnative : ∀ s, (o.settings w.files).value = .ok s → s.engine = .native)
    (h : o.start w = .ok (e, r)) : e = Native.engine := by
  obtain ⟨s, hsettings, hstart⟩ := exists_of_bind_eq_ok h
  obtain ⟨hengine, -⟩ := Settings.execute_of_start hstart
  rw [Settings.makeEngine, hnative s hsettings] at hengine
  have hengine : Native.make w = .ok e := hengine
  unfold Native.make at hengine
  split at hengine
  · cases hengine
  · exact (Except.ok.inj hengine).symm

theorem Options.start_timed (w : World) (k : Clock) (o : Options) :
    o.start (w.timed k) = o.start w := rfl

theorem warnings_runOptions_of_start_error {w : World} {o : Options} {p : Problem}
    (h : o.start w = .error p) : (runOptions w o).warnings = (o.settings w.files).warnings := by
  unfold Options.start at h
  rw [runOptions, Logged.warnings_bind]
  cases hsettings : (o.settings w.files).value with
  | error p' => exact List.append_nil _
  | ok s =>
    rw [hsettings] at h
    have hexecute : s.execute w = pure (w.files, .failed p) := Settings.execute_of_start_error h
    simp only [hexecute]
    exact List.append_nil _

section

variable {w : World} {arguments : List String} {o : Options}
  (hread : Options.read arguments = .ok o)
include hread

/-- The program ends with the first problem on the way to a run. -/
theorem run_of_start_error {p : Problem} (h : o.start w = .error p) :
    run w arguments = ⟨.ofAttempt w.files (.failed p), (o.settings w.files).warnings⟩ := by
  rw [run, hread, ← runOptions_of_start_error h, ← warnings_runOptions_of_start_error h]

/-- The program ends with what its engine runs. -/
theorem run_of_start {e : Engine} {r : RunRequest} (h : o.start w = .ok (e, r)) :
    run w arguments =
      ⟨.ofRun e w r, (o.settings w.files).warnings ++ (e.run w r).warnings⟩ := by
  obtain ⟨hvalue, hwarnings, -⟩ := runOptions_of_start h
  rw [run, hread, ← hvalue, ← hwarnings]

end

section

variable {w : World} {arguments : List String} {o : Options} {cwd : Path}
  (hread : Options.read arguments = .ok o)
  (hnative : ∀ s, (o.settings w.files).value = .ok s → s.engine = .native)
include hread hnative

/-- At another time a native run of the program does the same. -/
theorem run_timed (k : Clock) :
    (run (w.timed k) arguments).warnings = (run w arguments).warnings ∧
      (run (w.timed k) arguments).value.Agrees (run w arguments).value ∧
      ∀ e r, o.start w = .ok (e, r) → ∃ s t : Summary, (e.run w r).value.result = .ok s ∧
        (e.run (w.timed k) r).value.result = .ok t ∧ t.Matches s := by
  have htimed : o.start (w.timed k) = o.start w := Options.start_timed w k o
  cases hstart : o.start w with
  | error p =>
    rw [run_of_start_error hread (htimed.trans hstart), run_of_start_error hread hstart]
    exact ⟨rfl, ⟨rfl, rfl, rfl, rfl⟩, fun e r h => by cases h⟩
  | ok started =>
    obtain ⟨e, r⟩ := started
    obtain rfl := Options.engine_of_start hnative hstart
    obtain ⟨-, hwarnings, t, s, ht, hs, -, hexecutions, hfailures, -⟩ :=
      Native.run_timed w k w.clock r
    have hwarnings : (Native.engine.run (w.timed k) r).warnings =
        (Native.engine.run w r).warnings := hwarnings
    rw [run_of_start hread (htimed.trans hstart), run_of_start hread hstart]
    refine ⟨?_, Exit.agrees_timed w k r, ?_⟩
    · show (o.settings w.files).warnings ++ _ = (o.settings w.files).warnings ++ _
      rw [hwarnings]
    · rintro e r' ⟨⟩
      exact ⟨s, t, hs, ht, hexecutions, hfailures⟩

variable (hcwd : o.cwd = some cwd) (habsolute : Path.isAbsolute cwd = true)
include hcwd habsolute

/-- In another process directory a native run of the program does the same, if the relative paths of
the uploads lead to the same files. -/
theorem run_eq_startedIn {dir : Place}
    (hpaths : ∀ e r, o.start w = .ok (e, r) → ∀ p ∈ r.collection.relativePaths,
      (w.startedIn dir).files.read p = w.files.read p) :
    run (w.startedIn dir) arguments =
        ⟨(run w arguments).value.startedIn dir, (run w arguments).warnings⟩ ∧
      ∀ e r, o.start w = .ok (e, r) → e.run (w.startedIn dir) r = e.run w r := by
  have hsettings : o.settings (w.startedIn dir).files = o.settings w.files :=
    Options.settings_startedIn hcwd habsolute dir
  have hstart' : o.start (w.startedIn dir) = o.start w :=
    Options.start_startedIn hcwd habsolute dir
  cases hstart : o.start w with
  | error p =>
    rw [run_of_start_error hread (hstart'.trans hstart), run_of_start_error hread hstart, hsettings]
    exact ⟨rfl, fun e r h => by cases h⟩
  | ok started =>
    obtain ⟨e, r⟩ := started
    obtain rfl := Options.engine_of_start hnative hstart
    have hsame : Native.engine.run (w.startedIn dir) r = Native.engine.run w r :=
      Native.run_startedIn (hpaths _ _ hstart)
    have hexport : ∀ p, r.jsonExport? = some p → Path.isAbsolute p = true := by
      obtain ⟨-, -, hpath, -⟩ := runOptions_of_start hstart
      rw [hpath]
      exact fun p hp => o.isAbsolute_exportPath hp
    rw [run_of_start hread (hstart'.trans hstart), run_of_start hread hstart, hsettings, hsame,
      Exit.ofRun_startedIn hsame hexport]
    refine ⟨rfl, ?_⟩
    rintro e r' ⟨⟩
    exact hsame

end

/-- With an absolute base directory the settings and what is started are the same in every process
directory, so no path of the command line, of the configuration or of a default is read against it.
The requests open the relative paths of their uploads as they stand. Where these lead to the same
files, a native run of the program is the same in all that it does; at another time it sends the
same messages, records the same executions and failures and ends with the same exit code. -/
theorem run_elsewhere {w : World} {arguments : List String} {o : Options} {cwd : Path}
    (hread : Options.read arguments = .ok o) (hcwd : o.cwd = some cwd)
    (habsolute : Path.isAbsolute cwd = true) (dir : Place) :
    o.settings (w.startedIn dir).files = o.settings w.files ∧
      o.start (w.startedIn dir) = o.start w ∧
      ((∀ s, (o.settings w.files).value = .ok s → s.engine = .native) →
        (∀ e r, o.start w = .ok (e, r) → ∀ p ∈ r.collection.relativePaths,
          (w.startedIn dir).files.read p = w.files.read p) →
        run (w.startedIn dir) arguments =
            ⟨(run w arguments).value.startedIn dir, (run w arguments).warnings⟩ ∧
          (∀ e r, o.start w = .ok (e, r) → e.run (w.startedIn dir) r = e.run w r) ∧
          ∀ k, (run ((w.startedIn dir).timed k) arguments).warnings = (run w arguments).warnings ∧
            (run ((w.startedIn dir).timed k) arguments).value.Agrees (run w arguments).value ∧
            ∀ e r, o.start w = .ok (e, r) → ∃ s t : Summary, (e.run w r).value.result = .ok s ∧
              (e.run ((w.startedIn dir).timed k) r).value.result = .ok t ∧ t.Matches s) := by
  have hsettings : o.settings (w.startedIn dir).files = o.settings w.files :=
    Options.settings_startedIn hcwd habsolute dir
  have hstart : o.start (w.startedIn dir) = o.start w :=
    Options.start_startedIn hcwd habsolute dir
  refine ⟨hsettings, hstart, fun hnative hpaths => ?_⟩
  obtain ⟨hrun, hsame⟩ := run_eq_startedIn hread hnative hcwd habsolute hpaths
  refine ⟨hrun, hsame, fun k => ?_⟩
  have hnative' : ∀ s, (o.settings (w.startedIn dir).files).value = .ok s → s.engine = .native := by
    rw [hsettings]
    exact hnative
  obtain ⟨hwarnings, hagrees, hrecorded⟩ := run_timed hread hnative' k
  rw [hrun] at hwarnings hagrees
  have hagrees' :
      (run ((w.startedIn dir).timed k) arguments).value.Agrees (run w arguments).value :=
    ⟨hagrees.code, hagrees.problem, hagrees.sent, hagrees.launched⟩
  refine ⟨hwarnings, hagrees', fun e r h => ?_⟩
  rw [← hsame e r h]
  exact hrecorded e r (hstart.trans h)

/-- A collection with one request, which uploads a note by a relative path. -/
def noteText : String :=
  "\x7b\"item\":[\x7b\"request\":\x7b\"url\":\"h\",\"body\":\x7b\"mode\":\"formdata\"," ++
    "\"formdata\":[\x7b\"key\":\"k\",\"type\":\"file\",\"src\":\"n\"\x7d]\x7d\x7d\x7d]\x7d"

/-- A world in which every message is answered. The note stands in two directories, and the
collection in one of them. -/
def noteWorld : World where
  files :=
    ⟨[(["a"], .directory), (["a", "c.json"], .file (toBytes noteText)),
      (["a", "n"], .file (toBytes "N")), (["b"], .directory),
      (["b", "n"], .file (toBytes "N"))], ["a"]⟩
  network := fun _ _ => .answered 200 []
  runner := .missing
  clock := ⟨⟨0⟩, ⟨0⟩, fun _ => .zero⟩
  boundary := ""
  scratch := ""
  color := false

/-- The command line of a run over that collection. -/
def noteArguments : List String := ["--cwd", "/a", "--collection", "c.json"]

/-- What it asks for. -/
def noteOptions : Options where
  overrides := { collection := some "c.json" }
  cwd := some "/a"

/-- The exit code of a run and the number of messages that it sends. -/
def codeAndSent (e : Engine) (w : World) (r : RunRequest) : Nat × Nat :=
  ((Exit.ofRun e w r).code, (Exit.ofRun e w r).sent.length)

/-- The note is sent from the directory that it stands in, and not from the root. -/
theorem noteWorld_runs :
    ∃ e r, noteOptions.start noteWorld = .ok (e, r) ∧ r.collection.relativePaths = ["n"] ∧
      codeAndSent e noteWorld r = (0, 1) ∧ codeAndSent e (noteWorld.startedIn []) r = (255, 0) := by
  have hstarts : (noteOptions.start noteWorld).toOption.any (fun er =>
      er.2.collection.relativePaths == ["n"] && codeAndSent er.1 noteWorld er.2 == (0, 1) &&
        codeAndSent er.1 (noteWorld.startedIn []) er.2 == (255, 0)) = true := by decide +kernel
  cases hstart : noteOptions.start noteWorld with
  | error p =>
    rw [hstart] at hstarts
    cases hstarts
  | ok er =>
    obtain ⟨e, r⟩ := er
    rw [hstart] at hstarts
    have hstarts : (r.collection.relativePaths == ["n"] && codeAndSent e noteWorld r == (0, 1) &&
        codeAndSent e (noteWorld.startedIn []) r == (255, 0)) = true := hstarts
    simp only [Bool.and_eq_true, beq_iff_eq] at hstarts
    obtain ⟨⟨hpaths, hhere⟩, helsewhere⟩ := hstarts
    exact ⟨e, r, rfl, hpaths, hhere, helsewhere⟩

theorem read_noteArguments : Options.read noteArguments = .ok noteOptions := rfl

theorem native_noteOptions :
    ∀ s, (noteOptions.settings noteWorld.files).value = .ok s → s.engine = .native := by
  have hnative : (noteOptions.settings noteWorld.files).value.toOption.all
      (fun s => s.engine == .native) = true := by decide +kernel
  intro s hs
  rw [hs] at hnative
  exact beq_iff_eq.mp hnative

/-- Started in the other directory with the note, the program does the same. -/
theorem run_elsewhere_beside :
    noteOptions.cwd = some "/a" ∧ Path.isAbsolute "/a" = true ∧
      (run (noteWorld.startedIn ["b"]) noteArguments).value.code = 0 ∧
      (run (noteWorld.startedIn ["b"]) noteArguments).value.sent =
        (run noteWorld noteArguments).value.sent := by
  obtain ⟨e, r, hstart, hpaths, hhere, -⟩ := noteWorld_runs
  obtain ⟨-, -, hsame⟩ := run_elsewhere (w := noteWorld) read_noteArguments rfl rfl ["b"]
  have hread : (noteWorld.startedIn ["b"]).files.read "n" = noteWorld.files.read "n" := by
    decide +kernel
  have hreads : ∀ e r, noteOptions.start noteWorld = .ok (e, r) → ∀ p ∈ r.collection.relativePaths,
      (noteWorld.startedIn ["b"]).files.read p = noteWorld.files.read p := by
    intro e' r' hstart' p hp
    rw [hstart] at hstart'
    cases hstart'
    rw [hpaths] at hp
    rw [List.mem_singleton.mp hp, hread]
  obtain ⟨hrun, -⟩ := hsame native_noteOptions hreads
  have hcode : (run noteWorld noteArguments).value.code = 0 := by
    rw [run_of_start read_noteArguments hstart]
    exact congrArg Prod.fst hhere
  refine ⟨rfl, rfl, ?_, ?_⟩
  · rw [hrun, Exit.code_startedIn, hcode]
  · rw [hrun, Exit.sent_startedIn]

/-- Started in the root, the program with the same absolute base directory does not send the note
and fails. -/
theorem not_sent_elsewhere :
    Options.read noteArguments = .ok noteOptions ∧ noteOptions.cwd = some "/a" ∧
      Path.isAbsolute "/a" = true ∧
      (∀ s, (noteOptions.settings noteWorld.files).value = .ok s → s.engine = .native) ∧
      (run noteWorld noteArguments).value.code = 0 ∧
      (run noteWorld noteArguments).value.sent.length = 1 ∧
      (run (noteWorld.startedIn []) noteArguments).value.code = 255 ∧
      (run (noteWorld.startedIn []) noteArguments).value.sent = [] := by
  obtain ⟨e, r, hstart, -, hhere, helsewhere⟩ := noteWorld_runs
  have hroot : Path.isAbsolute "/a" = true := rfl
  have hstart' : noteOptions.start (noteWorld.startedIn []) = .ok (e, r) := by
    rw [Options.start_startedIn rfl hroot, hstart]
  rw [run_of_start read_noteArguments hstart, run_of_start read_noteArguments hstart']
  exact ⟨rfl, rfl, rfl, native_noteOptions, congrArg Prod.fst hhere, congrArg Prod.snd hhere,
    congrArg Prod.fst helsewhere, List.length_eq_zero_iff.mp (congrArg Prod.snd helsewhere)⟩

end Cli

end CollectionRunner
