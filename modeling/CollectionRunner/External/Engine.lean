import CollectionRunner.Collection.Encoder
import CollectionRunner.External.Export
import CollectionRunner.Run.Engine

/-!
The engine that leaves the run to the external runner.

The collection and the environment are staged in files of a directory made for the run. The summary
is read from the report that the runner leaves there, whatever its exit status.
-/

namespace CollectionRunner.External

/-- The staged collection. -/
def collectionFile : String := "collection.json"

/-- The staged environment. -/
def environmentFile : String := "environment.json"

/-- The report. -/
def reportFile : String := "summary.json"

/-- The reporters of the runner. -/
def reporterNames (console : Bool) : String := if console then "cli,json" else "json"

/-- The arguments that limit how long a request may take. -/
def timeoutArguments : Option Nat → List String
  | some ms => ["--timeout-request", toString ms]
  | none => []

/-- The call of the runner for a run whose files are staged in `directory`. -/
def invocation (binary : String) (timeoutMs : Option Nat) (directory : Path) (r : RunRequest) :
    Invocation where
  binary := binary
  arguments :=
    ["run", Path.join directory collectionFile,
      "--environment", Path.join directory environmentFile,
      "--reporters", reporterNames r.reportsToConsole,
      "--reporter-json-export", Path.join directory reportFile] ++ timeoutArguments timeoutMs
  collection := r.collection.toValue.pretty
  environment := r.environment.toValue.pretty

/-- What is said when the report cannot be read. -/
def unreadableReport (path : Path) (reason : FileSystem.Fault) : Problem :=
  ⟨["reading newman summary " ++ path], .file reason⟩

/-- The summary of a report file. -/
def readReport (now : Instant) (path : Path) (report : Bytes) : Except Problem Summary :=
  match ofBytes? report with
  | some text => readSummary now text
  | none => .error (unreadableReport path .notText)

/-- The summary that a call of the runner gives. -/
def outcome (now : Instant) (path : Path) (binary : String) : Launch → Except Problem Summary
  | .unstaged activity reason => .error ⟨[activity], .file reason⟩
  | .notFound => .error ⟨[], .runner (.notFound binary)⟩
  | .failed reason => .error ⟨[], .runner (.notStarted binary reason)⟩
  | .ended status none => .error ⟨[], .runner (.noSummary status.text)⟩
  | .ended _ (some report) => readReport now path report
  | .unreadable _ reason => .error (unreadableReport path reason)

/-- Whether the runner ran. -/
def Launch.hasRun : Launch → Bool
  | ended _ _ => true
  | unreadable _ _ => true
  | _ => false

/-- Runs a collection. -/
def run (binary : String) (timeoutMs : Option Nat) (w : World) (r : RunRequest) :
    Logged (Attempt Summary) :=
  let call := invocation binary timeoutMs w.scratch r
  let launch := w.runner call
  pure
    { result := outcome w.clock.started (Path.join w.scratch reportFile) binary launch
      launched := if launch.hasRun then some call else none }

/-- The engine that leaves the run to the runner of a binary. -/
def engine (binary : String) (timeoutMs : Option Nat) : Engine := ⟨"newman", run binary timeoutMs⟩

end CollectionRunner.External
