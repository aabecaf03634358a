import CollectionRunner.Json.Printer
import CollectionRunner.Problem
import CollectionRunner.Run.Summary

/-!
The report of a run: its summary as a JSON text, and the file that it is written to.
-/

namespace CollectionRunner

open Json

/-- A text or null. -/
def optionalText (s : Option String) : Value := Value.ofOption .string s

/-- An assertion as an object. -/
def AssertionResult.toValue (a : AssertionResult) : Value :=
  .object
    [("name", .string a.name), ("passed", .bool a.passed), ("message", optionalText a.message)]

/-- An execution as an object. -/
def Execution.toValue (e : Execution) : Value :=
  .object
    [("item", .string e.item), ("method", .string e.method), ("url", .string e.url),
      ("status", Value.ofOption Value.ofNat e.status),
      ("duration_ms", .number (.float e.durationMs)),
      ("response_bytes", Value.ofOption Value.ofNat e.responseBytes),
      ("assertions", .array (e.assertions.map AssertionResult.toValue)),
      ("error", optionalText e.error)]

/-- A failure as an object. -/
def Failure.toValue (f : Failure) : Value :=
  .object
    [("source", .string f.source), ("at", .string f.place),
      ("error", .object
        [("name", .string f.error.name), ("test", optionalText f.error.test),
          ("message", .string f.error.message)])]

/-- A counter as an object. -/
def Counter.toValue (c : Counter) : Value :=
  .object [("total", .ofNat c.total), ("failed", .ofNat c.failed)]

namespace Summary

/-- A summary as an object. -/
def toValue (s : Summary) : Value :=
  .object
    [("collection", .string s.collection),
      ("run", .object
        [("stats", .object
            [("requests", s.stats.requests.toValue), ("assertions", s.stats.assertions.toValue)]),
          ("executions", .array (s.executions.map Execution.toValue)),
          ("failures", .array (s.failures.map Failure.toValue)),
          ("started", .string s.started.text),
          ("completed", Value.ofOption (fun i : Instant => .string i.text) s.completed)])]

/-- The text of the report. -/
def report (s : Summary) : String := s.toValue.pretty

/-- The files after the report is written to a path; the directories above it are made. -/
def write (fs : FileSystem) (path : Path) (s : Summary) : FileSystem × Except Problem Unit :=
  match Path.parent? path with
  | none => writeFile fs
  | some parent =>
    match fs.makeDirectories parent with
    | .error f => (fs, .error ⟨["creating report directory " ++ parent], .file f⟩)
    | .ok fs => writeFile fs
where
  /-- Writes the file alone. -/
  writeFile (fs : FileSystem) : FileSystem × Except Problem Unit :=
    match fs.write path (toBytes s.report) with
    | .ok fs => (fs, .ok ())
    | .error f => (fs, .error ⟨["writing run summary to " ++ path], .file f⟩)

end Summary

end CollectionRunner
