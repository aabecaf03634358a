import CollectionRunner.Cli.Program
import CollectionRunner.Proofs.FileSystem.Written
import CollectionRunner.Proofs.Run.Reported

/-!
# How the program ends

The program makes an engine and what it runs out of the command line (`Options.start`), or ends with
the first problem on the way. The engine runs once, its summary is exported if that is asked for,
and the failures decide the exit code. Main statement: `run_exit`.
-/

namespace CollectionRunner

open Json

/-! ## Engines -/

/-- An engine that gives no summary has printed nothing. -/
theorem Settings.printed_of_makeEngine {w : World} {s : Settings} {e : Engine} {r : RunRequest}
    {p : Problem} (hmake : s.makeEngine w = .ok e) (hrun : (e.run w r).value.result = .error p) :
    (e.run w r).value.printed = "" := by
  cases hkind : s.engine with
  | native =>
    -- a native run always gives a summary
    have hmake : Native.make w = .ok e := by rwa [makeEngine, hkind] at hmake
    unfold Native.make at hmake
    split at hmake
    · cases hmake
    · cases hmake
      cases hrun
  | external =>
    have hengine : External.engine s.runnerBin s.timeoutMs = e := by
      rw [makeEngine, hkind] at hmake
      exact Except.ok.inj hmake
    rw [← hengine]
    rfl

theorem Settings.jsonExport?_reporters (s : Settings) (c : Collection) (env : Environment) :
    RunRequest.jsonExport? ⟨c, env, s.reporters⟩ = s.jsonExport := by
  unfold RunRequest.jsonExport? reporters
  cases s.jsonExport <;> rfl

/-- The engine runs once. -/
theorem done_runOnce (e : Engine) (w : World) (r : RunRequest) :
    (runOnce e w r).value.2.sent = (e.run w r).value.sent ∧
      (runOnce e w r).value.2.launched = (e.run w r).value.launched := by
  rw [runOnce, Logged.value_bind]
  split <;> exact ⟨rfl, rfl⟩

theorem warnings_runOnce (e : Engine) (w : World) (r : RunRequest) :
    (runOnce e w r).warnings = (e.run w r).warnings := by
  rw [runOnce, Logged.warnings_bind]
  split <;> exact List.append_nil _

/-! ## What the program starts with -/

/-- The engine of the settings and what it runs. The first problem on the way is that of the
collection or that of the engine. -/
def Settings.start (w : World) (s : Settings) : Except Problem (Engine × RunRequest) := do
  let c ← Collection.prepare w.files s.collection s.fixture
  let e ← s.makeEngine w
  pure (e, ⟨c, s.environment, s.reporters⟩)

theorem Settings.execute_of_start_error {w : World} {s : Settings} {p : Problem}
    (h : s.start w = .error p) : s.execute w = pure (w.files, .failed p) := by
  unfold start at h
  unfold execute
  cases hcollection : Collection.prepare w.files s.collection s.fixture with
  | error p' =>
    rw [hcollection] at h
    cases h
    rfl
  | ok c =>
    cases hengine : s.makeEngine w with
    | error p' =>
      rw [hcollection, hengine] at h
      cases h
      rfl
    | ok e =>
      rw [hcollection, hengine] at h
      cases h

theorem Settings.execute_of_start {w : World} {s : Settings} {e : Engine} {r : RunRequest}
    (h : s.start w = .ok (e, r)) :
    s.makeEngine w = .ok e ∧ r.jsonExport? = s.jsonExport ∧
      s.execute w = (do
        let (fs, a) ← runOnce e w r
        pure (fs, a.withResult (a.result.map Prod.snd))) := by
  obtain ⟨c, hcollection, h⟩ := exists_of_bind_eq_ok h
  obtain ⟨e', hengine, h⟩ := exists_of_bind_eq_ok h
  cases h
  refine ⟨hengine, s.jsonExport?_reporters c s.environment, ?_⟩
  simp only [execute, hcollection, hengine]

namespace Cli

/-- The engine and what it runs, as the command line asks for them. The first problem on the way is
that of the configuration, of the settings with their env file, of the collection or of the
engine. -/
def Options.start (w : World) (o : Options) : Except Problem (Engine × RunRequest) := do
  let s ← (o.settings w.files).value
  s.start w

/-- The path of the export that the command line asks for. -/
def Options.exportPath? (fs : FileSystem) (o : Options) : Option Path :=
  o.overrides.jsonExport.map (Path.join (o.baseDir fs))

theorem Options.jsonExport_settings {fs : FileSystem} {o : Options} {s : Settings}
    (h : (o.settings fs).value = .ok s) : s.jsonExport = o.exportPath? fs := by
  unfold settings at h
  split at h
  · cases h
  · rw [Settings.value_build] at h
    obtain ⟨vars, -, rfl⟩ := exists_of_map_eq_ok h
    rfl

/-- The end of a run of an engine. -/
def Exit.ofRun (e : Engine) (w : World) (r : RunRequest) : Exit :=
  let (fs, a) := (runOnce e w r).value
  .ofAttempt fs (a.withResult (a.result.map Prod.snd))

section

variable {w : World} {o : Options} {e : Engine} {r : RunRequest} {p : Problem}

theorem runOptions_of_start_error (h : o.start w = .error p) :
    (runOptions w o).value = .ofAttempt w.files (.failed p) := by
  unfold Options.start at h
  rw [runOptions, Logged.value_bind]
  cases hsettings : (o.settings w.files).value with
  | error p' =>
    rw [hsettings] at h
    cases h
    rfl
  | ok s =>
    rw [hsettings] at h
    have hexecute : s.execute w = pure (w.files, .failed p) := Settings.execute_of_start_error h
    simp only [hexecute]
    rfl

theorem runOptions_of_start (h : o.start w = .ok (e, r)) :
    (runOptions w o).value = .ofRun e w r ∧
      (runOptions w o).warnings = (o.settings w.files).warnings ++ (e.run w r).warnings ∧
      r.jsonExport? = o.exportPath? w.files ∧
      ∀ p, (e.run w r).value.result = .error p → (e.run w r).value.printed = "" := by
  obtain ⟨s, hsettings, hstart⟩ := exists_of_bind_eq_ok h
  obtain ⟨hengine, hexport, hexecute⟩ := Settings.execute_of_start hstart
  refine ⟨?_, ?_, ?_, fun p hrun => Settings.printed_of_makeEngine hengine hrun⟩
  · rw [runOptions, Logged.value_bind, hsettings]
    simp only [hexecute]
    rfl
  · rw [runOptions, Logged.warnings_bind, hsettings]
    simp only [hexecute, Logged.warnings_bind, Logged.warnings_pure, List.append_nil,
      warnings_runOnce]
  · rw [hexport, Options.jsonExport_settings hsettings]

end

/-! ## The end -/

namespace Exit

/-- The program ends with a problem: it exits with 1, it prints nothing and it leaves all files as
they are. -/
structure Fails (x : Exit) (fs : FileSystem) (p : Problem) : Prop where
  code : x.code = 1
  output : x.output = ""
  problem : x.problem = some p
  files : x.files = fs

/-- The program ends with a verdict on a summary. The export is what it was asked for: its file
holds the report, in which a reader finds the whole summary, and without a path all files are as
they were. -/
structure Judges (x : Exit) (printed : String) (fs : FileSystem) (path : Option Path)
    (s : Summary) : Prop where
  problem : x.problem = none
  passed : s.failures = [] → x.code = 0 ∧ x.output = printed
  failed : s.failures ≠ [] → x.code = 255 ∧
    x.output = printed ++ "Failed with " ++ toString s.failures.length ++ " failing tests.\n"
  unasked : path = none → x.files = fs
  exported : ∀ p, path = some p → x.files.read p = .ok (toBytes s.report)
  reported : s.ReportedIn (toBytes s.report)

/-- What was sent and called is what one attempt sent and called. -/
structure RanOnce (x : Exit) (a : Attempt α) : Prop where
  sent : x.sent = a.sent
  launched : x.launched = a.launched

section

variable {e : Engine} {w : World} {r : RunRequest}

theorem ranOnce_ofAttempt (fs : FileSystem) (a : Attempt Outcome) :
    (ofAttempt fs a).RanOnce a := by
  unfold ofAttempt
  split <;> exact ⟨rfl, rfl⟩

theorem ranOnce_ofRun (e : Engine) (w : World) (r : RunRequest) :
    (ofRun e w r).RanOnce (e.run w r).value := by
  obtain ⟨hsent, hlaunched⟩ := done_runOnce e w r
  let a := (runOnce e w r).value.2
  have hends := ranOnce_ofAttempt (runOnce e w r).value.1 (a.withResult (a.result.map Prod.snd))
  exact ⟨hends.sent.trans hsent, hends.launched.trans hlaunched⟩

theorem fails_ofRun {p : Problem} (h : (e.run w r).value.result = .error p)
    (hprinted : (e.run w r).value.printed = "") :
    (ofRun e w r).Fails w.files (p.within e.failure) := by
  rw [ofRun, value_runOnce_of_error h]
  exact ⟨rfl, hprinted, rfl, rfl⟩

theorem judges_ofRun {s : Summary} {fs : FileSystem} (h : (e.run w r).value.result = .ok s)
    (hexport : s.export? w.files r.jsonExport? = (fs, .ok ())) :
    (ofRun e w r).Judges (e.run w r).value.printed w.files r.jsonExport? s := by
  rw [ofRun, value_runOnce_of_run h, hexport]
  refine ⟨rfl, fun hnone => ?_, fun hsome => ?_, fun hpath => ?_, fun path hpath => ?_,
    s.reportedIn_report⟩
  · have houtcome : Outcome.ofSummary s = .passed := Outcome.ofSummary_eq_passed.mpr hnone
    show (Outcome.ofSummary s).exitCode = 0 ∧
      (e.run w r).value.printed ++ lastLine (Outcome.ofSummary s) = (e.run w r).value.printed
    rw [houtcome]
    exact ⟨rfl, String.append_empty⟩
  · have houtcome : Outcome.ofSummary s = .failed s.failures.length :=
      if_neg fun hlength => hsome (List.length_eq_zero_iff.mp hlength)
    show (Outcome.ofSummary s).exitCode = 255 ∧
      (e.run w r).value.printed ++ lastLine (Outcome.ofSummary s) = _
    rw [houtcome]
    refine ⟨rfl, ?_⟩
    simp only [lastLine, Outcome.message?, String.append_assoc]
    rfl
  · rw [hpath] at hexport
    cases hexport
    rfl
  · rw [hpath] at hexport
    exact Summary.read_write hexport

theorem ofRun_of_export_error {s : Summary} {fs : FileSystem} {p : Problem}
    (h : (e.run w r).value.result = .ok s)
    (hexport : s.export? w.files r.jsonExport? = (fs, .error p)) :
    (ofRun e w r).code = 1 ∧ (ofRun e w r).output = (e.run w r).value.printed ∧
      (ofRun e w r).problem = some p := by
  rw [ofRun, value_runOnce_of_run h, hexport]
  exact ⟨rfl, rfl, rfl⟩

end

end Exit

/-- Take any command line that can be read. A problem with the configuration, the settings, the
collection or the engine ends the program before anything is sent or called. Otherwise the engine
runs once. A problem of the run ends the program like one before it. With a summary, the program
ends with a problem when the summary cannot be exported. If it can, the export holds all of it, and
the failures alone decide the exit code and the last line. -/
theorem run_exit {w : World} {arguments : List String} {o : Options}
    (hread : Options.read arguments = .ok o) :
    let x := (run w arguments).value
    (∀ p, o.start w = .error p → x.Fails w.files p ∧ x.sent = [] ∧ x.launched = none) ∧
      ∀ e r, o.start w = .ok (e, r) →
        let a := (e.run w r).value
        x.RanOnce a ∧
          (run w arguments).warnings = (o.settings w.files).warnings ++ (e.run w r).warnings ∧
          (∀ p, a.result = .error p → x.Fails w.files (p.within e.failure)) ∧
          ∀ s, a.result = .ok s →
            match s.export? w.files (o.exportPath? w.files) with
            | (_, .error p) => x.code = 1 ∧ x.output = a.printed ∧ x.problem = some p
            | (_, .ok ()) => x.Judges a.printed w.files (o.exportPath? w.files) s := by
  have hrun : run w arguments = runOptions w o := by rw [run, hread]
  rw [hrun]
  refine ⟨fun p hstart => ?_, fun e r hstart => ?_⟩
  · rw [runOptions_of_start_error hstart]
    exact ⟨⟨rfl, rfl, rfl, rfl⟩, rfl, rfl⟩
  · obtain ⟨hvalue, hwarnings, hpath, hprinted⟩ := runOptions_of_start hstart
    rw [hvalue, ← hpath]
    refine ⟨Exit.ranOnce_ofRun e w r, hwarnings, fun p hresult => ?_, fun s hresult => ?_⟩
    · exact Exit.fails_ofRun hresult (hprinted p hresult)
    · split
      · rename_i hexport
        exact Exit.ofRun_of_export_error hresult hexport
      · rename_i hexport
        exact Exit.judges_ofRun hresult hexport

/-- The report of a run with one failure, as the runner leaves it. -/
def failureText : String :=
  "\x7b\"run\":\x7b\"executions\":[\x7b\"response\":\x7b\"responseTime\":12.5\x7d\x7d]," ++
    "\"failures\":[\x7b\"error\":\x7b\"name\":\"Error\"\x7d\x7d]," ++
    "\"timings\":\x7b\"started\":951782400123\x7d\x7d\x7d"

/-- How long its request took: twelve and a half milliseconds. -/
def duration : Decimal.Binary64 := ⟨false, 7036874417766400, 1025⟩

/-- The summary of that report. -/
def failingSummary : Summary where
  collection := ""
  stats := {}
  executions :=
    [{ item := "", method := "", url := "", status := none, durationMs := duration,
       responseBytes := none, assertions := [], error := none }]
  failures := [⟨"<unknown>", "", ⟨"Error", none, ""⟩⟩]
  started := ⟨951782400123⟩
  completed := none

/-- A world with an empty collection, in which the runner leaves that report. -/
def failingWorld : World where
  files := ⟨[(["c.json"], .file (toBytes "\x7b\x7d"))], []⟩
  network := .unreachable
  runner := fun _ => .ended (.code 1) (some (toBytes failureText))
  clock := ⟨⟨0⟩, ⟨0⟩, fun _ => .zero⟩
  boundary := ""
  scratch := ""
  color := false

/-- The options of a run that is left to the runner and exported. -/
def exportingOptions : Options where
  overrides :=
    { collection := some "/c.json", engine := some .external, jsonExport := some "/out/r.json" }

/-- The command line of that run. -/
def exportingArguments : List String :=
  ["--collection", "/c.json", "--engine", "newman", "--reporter-json-export", "/out/r.json"]

/-- Whether a run gives a summary, prints nothing and can be exported. -/
def summarizes (expected : Summary) (w : World) (o : Options) (e : Engine) (r : RunRequest) :
    Bool :=
  match (e.run w r).value.result with
  | .error _ => false
  | .ok s =>
    decide (s = expected) && (e.run w r).value.printed == "" &&
      (s.export? w.files (o.exportPath? w.files)).2.toBool

/-- The run of that command line gives the summary, prints nothing and can be exported. -/
theorem exists_start_failingWorld :
    ∃ (e : Engine) (r : RunRequest) (fs : FileSystem) (s : Summary),
      exportingOptions.start failingWorld = .ok (e, r) ∧ s = failingSummary ∧
        (e.run failingWorld r).value.result = .ok s ∧ (e.run failingWorld r).value.printed = "" ∧
        s.export? failingWorld.files (exportingOptions.exportPath? failingWorld.files) =
          (fs, .ok ()) := by
  have hstarts : (exportingOptions.start failingWorld).toOption.any
      (fun er => summarizes failingSummary failingWorld exportingOptions er.1 er.2) = true := by
    decide +kernel
  cases hstart : exportingOptions.start failingWorld with
  | error p =>
    rw [hstart] at hstarts
    cases hstarts
  | ok er =>
    obtain ⟨e, r⟩ := er
    rw [hstart] at hstarts
    have hstarts : summarizes failingSummary failingWorld exportingOptions e r = true := hstarts
    unfold summarizes at hstarts
    cases hresult : (e.run failingWorld r).value.result with
    | error p =>
      rw [hresult] at hstarts
      cases hstarts
    | ok s =>
      simp only [hresult, Bool.and_eq_true, beq_iff_eq, decide_eq_true_eq] at hstarts
      obtain ⟨⟨hs, hprinted⟩, hexported⟩ := hstarts
      cases hexport : s.export? failingWorld.files
          (exportingOptions.exportPath? failingWorld.files) with
      | mk fs ended =>
        rw [hexport] at hexported
        cases ended with
        | error p => cases hexported
        | ok u => exact ⟨e, r, fs, s, rfl, hs, hresult, hprinted, hexport⟩

/-- Without arguments there is no collection to run. With them the one failure is counted in the
last line, the exit code tells of it, and a reader of the export finds the summary in it: the
failure, the start of the run and how long its request took. -/
theorem run_exit_failing :
    (∃ p, Options.start failingWorld {} = .error p ∧
      (run failingWorld []).value.Fails failingWorld.files p) ∧
      Options.read exportingArguments = .ok exportingOptions ∧
      ∃ (e : Engine) (r : RunRequest) (bytes : Bytes) (text : String) (d entry : Document),
        exportingOptions.start failingWorld = .ok (e, r) ∧
        (e.run failingWorld r).value.result = .ok failingSummary ∧
        (run failingWorld exportingArguments).value.code = 255 ∧
        (run failingWorld exportingArguments).value.output = "Failed with 1 failing tests.\n" ∧
        (run failingWorld exportingArguments).value.files.read "/out/r.json" = .ok bytes ∧
        ofBytes? bytes = some text ∧ Page.ofText text = ⟨d, true⟩ ∧
        failingSummary.ReportedBy d ∧
        d.Has ["run", "started"] (Document.IsText "2000-02-29T00:00:00.123Z") ∧
        d.along? ["run", "executions"] = some (.array [entry] none) ∧
        entry.Has ["duration_ms"] (fun d => d = .number (.ok (.float duration))) := by
  have hmissing : (Options.start failingWorld {}).toOption.isNone = true := by decide +kernel
  have hread : Options.read exportingArguments = .ok exportingOptions := rfl
  have hpath : exportingOptions.exportPath? failingWorld.files = some "/out/r.json" := by
    decide +kernel
  have hstarted : failingSummary.started.text = "2000-02-29T00:00:00.123Z" := by decide +kernel
  have hduration : (Number.float duration).reread = .ok (.float duration) := by decide +kernel
  refine ⟨?_, hread, ?_⟩
  · cases hstart : Options.start failingWorld {} with
    | error p => exact ⟨p, rfl, ((run_exit rfl).1 p hstart).1⟩
    | ok er =>
      rw [hstart] at hmissing
      cases hmissing
  obtain ⟨e, r, fs, s, hstart, hs, hresult, hprinted, hexport⟩ := exists_start_failingWorld
  obtain ⟨-, -, -, hends⟩ := (run_exit hread).2 e r hstart
  have hends := hends s hresult
  rw [hexport] at hends
  have hone : s.failures.length = 1 := congrArg (fun s => s.failures.length) hs
  obtain ⟨hcode, houtput⟩ := hends.failed (List.ne_nil_of_length_pos (hone ▸ Nat.one_pos))
  obtain ⟨text, d, htext, hpage, hreported⟩ := hends.reported
  have hreported : failingSummary.ReportedBy d := hs ▸ hreported
  -- there is one execution, whose duration is read back
  obtain ⟨_, hexecutions, _, rfl, hentries⟩ := hreported.executions
  obtain _ | ⟨hentry, ⟨⟩⟩ := hentries
  obtain ⟨_, htook, p, hp, hfloat⟩ := hentry.duration
  refine ⟨e, r, _, text, d, _, hstart, hs ▸ hresult, hcode, ?_, hends.exported _ hpath, htext,
    hpage, hreported, hstarted ▸ hreported.started, hexecutions, _, htook, ?_⟩
  · rw [houtput, hprinted, hone]
    rfl
  · rw [hfloat, ← Number.reread_eq hp.wellFormed hp.text, hduration]

end Cli

end CollectionRunner
