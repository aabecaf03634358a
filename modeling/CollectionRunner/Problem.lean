import CollectionRunner.EnvFile.Line
import CollectionRunner.FileSystem
import CollectionRunner.Json.Document
import CollectionRunner.Url.Basic

/-!
Problems that end an operation: a cause, and what was being done when it arose.
-/

namespace CollectionRunner

/-- Why the external runner gave no report. -/
inductive RunnerFault
  | notFound (binary : String)
  | notStarted (binary : String) (reason : FileSystem.Fault)
  | noSummary (status : String)
  deriving DecidableEq, Repr

/-- What is said of a fault of the external runner, the outermost text first. -/
def RunnerFault.texts : RunnerFault → List String
  | notFound binary =>
    ["\x60" ++ binary ++ "\x60 not found in PATH; install newman (npm install -g newman) or use " ++
      "--engine native"]
  | notStarted binary reason => ["failed to start \x60" ++ binary ++ "\x60", reason.message]
  | noSummary status => ["newman exited with " ++ status ++ " without writing a run summary"]

/-- The cause of a problem. -/
inductive Cause
  | file (f : FileSystem.Fault)
  /-- A text is not the JSON that is asked for. Its message is no part of this library. -/
  | json (f : Json.Fault)
  | envLine (f : EnvFile.Fault)
  | url (f : Url.Fault)
  | runner (f : RunnerFault)
  | other (text : String)
  deriving DecidableEq, Repr

/-- What is said of a cause, the outermost text first. -/
def Cause.texts : Cause → List String
  | file f => [f.message]
  | json _ => []
  | envLine f =>
    ["Error parsing line: \x27" ++ String.ofList f.line ++ "\x27, error at line index: " ++
      toString f.index]
  | url f => [f.message]
  | runner f => f.texts
  | other text => [text]

/-- A cause with what was being done, the outermost activity first. -/
structure Problem where
  context : List String
  cause : Cause
  deriving DecidableEq, Repr

namespace Problem

/-- All texts of a problem, the outermost one first. -/
def texts (p : Problem) : List String := p.context ++ p.cause.texts

/-- The full message of a problem. -/
def message (p : Problem) : String := ": ".intercalate p.texts

/-- The outermost text of a problem. -/
def headline (p : Problem) : String := p.texts.head?.getD ""

/-- The problem as it arises within a further activity. -/
def within (context : String) (p : Problem) : Problem := { p with context := context :: p.context }

end Problem

/-- A result whose fault is the cause of a problem that arises within an activity. -/
def orProblem (context : String) (cause : ε → Cause) : Except ε α → Except Problem α
  | .ok a => .ok a
  | .error f => .error ⟨[context], cause f⟩

/-- A result whose problem arises within a further activity. -/
def during (context : String) : Except Problem α → Except Problem α
  | .ok a => .ok a
  | .error p => .error (p.within context)

end CollectionRunner
