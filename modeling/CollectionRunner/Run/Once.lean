import CollectionRunner.Collection.Loading
import CollectionRunner.External.Engine
import CollectionRunner.Run.Native
import CollectionRunner.Run.Report
import CollectionRunner.Settings

/-!
Running a collection once: an engine runs it, the summary is written to the file that is asked for,
and the failures decide how the run ended.
-/

namespace CollectionRunner

/-- What is done when the run of an engine fails. -/
def Engine.failure (e : Engine) : String := e.name ++ " engine failed to run the collection"

/-- The files after the summary is exported to a path, if there is one. -/
def Summary.export? (fs : FileSystem) (s : Summary) :
    Option Path → FileSystem × Except Problem Unit
  | some path => s.write fs path
  | none => (fs, .ok ())

/-- Runs a collection once. The files are those after the run. -/
def runOnce (e : Engine) (w : World) (r : RunRequest) :
    Logged (FileSystem × Attempt (Summary × Outcome)) := do
  let a ← e.run w r
  match during e.failure a.result with
  | .error p => pure (w.files, a.withResult (.error p))
  | .ok s =>
    let (fs, exported) := s.export? w.files r.jsonExport?
    pure (fs, a.withResult (exported.map fun _ => (s, Outcome.ofSummary s)))

section

variable {e : Engine} {w : World} {r : RunRequest} {s : Summary}

theorem value_runOnce_of_error {p : Problem} (h : (e.run w r).value.result = .error p) :
    (runOnce e w r).value =
      (w.files, (e.run w r).value.withResult (.error (p.within e.failure))) := by
  simp only [runOnce, Logged.value_bind, h, during]
  rfl

theorem value_runOnce_of_run (h : (e.run w r).value.result = .ok s) :
    (runOnce e w r).value =
      ((s.export? w.files r.jsonExport?).1, (e.run w r).value.withResult
        ((s.export? w.files r.jsonExport?).2.map fun _ => (s, Outcome.ofSummary s))) := by
  simp only [runOnce, Logged.value_bind, h, during]
  rfl

/-- When the engine gives a summary, the result waits for its export alone. -/
theorem result_runOnce_of_run (h : (e.run w r).value.result = .ok s) :
    (runOnce e w r).value.2.result =
      (s.export? w.files r.jsonExport?).2.map fun _ => (s, Outcome.ofSummary s) := by
  rw [value_runOnce_of_run h]
  rfl

theorem result_runOnce_of_error {p : Problem} (h : (e.run w r).value.result = .error p) :
    (runOnce e w r).value.2.result = .error (p.within e.failure) := by
  rw [value_runOnce_of_error h]
  rfl

/-- A run that ends without a problem has the summary that its engine gives. -/
theorem run_of_result_runOnce {o : Outcome}
    (h : (runOnce e w r).value.2.result = .ok (s, o)) :
    (e.run w r).value.result = .ok s ∧ o = Outcome.ofSummary s := by
  cases hrun : (e.run w r).value.result with
  | error p =>
    rw [result_runOnce_of_error hrun] at h
    cases h
  | ok t =>
    rw [result_runOnce_of_run hrun] at h
    cases hexport : (t.export? w.files r.jsonExport?).2 with
    | error p =>
      rw [hexport] at h
      cases h
    | ok _ =>
      rw [hexport] at h
      cases h
      exact ⟨rfl, rfl⟩

end

namespace Settings

/-- Makes the engine of the settings. -/
def makeEngine (w : World) (s : Settings) : Except Problem Engine :=
  match s.engine with
  | .native => Native.make w
  | .external => .ok (External.engine s.runnerBin s.timeoutMs)

/-- The reporters of the settings: the console, and the export if it is asked for. -/
def reporters (s : Settings) : List Reporter :=
  .console :: (s.jsonExport.map Reporter.json).toList

/-- Runs the collection of the settings. The files are those after the run. -/
def execute (w : World) (s : Settings) : Logged (FileSystem × Attempt Outcome) :=
  match Collection.prepare w.files s.collection s.fixture with
  | .error p => pure (w.files, .failed p)
  | .ok c =>
    match s.makeEngine w with
    | .error p => pure (w.files, .failed p)
    | .ok e => do
      let (fs, a) ← runOnce e w ⟨c, s.environment, s.reporters⟩
      pure (fs, a.withResult (a.result.map Prod.snd))

end Settings

end CollectionRunner
