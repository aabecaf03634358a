import CollectionRunner.Collection.Leaves
import CollectionRunner.Environment
import CollectionRunner.Problem
import CollectionRunner.Run.World
import CollectionRunner.Warning

/-!
Engines: what runs a collection once and gives its summary.

An engine that cannot run a collection at all ends in a problem; assertions that fail are part of
the summary.
-/

namespace CollectionRunner

/-- Where a run is reported. -/
inductive Reporter
  | console
  /-- The summary is written to a file. -/
  | json (path : Path)
  deriving DecidableEq, Repr

/-- What an engine runs. -/
structure RunRequest where
  collection : Collection
  environment : Environment
  reporters : List Reporter

namespace RunRequest

/-- Whether the run is reported on the console. -/
def reportsToConsole (r : RunRequest) : Bool := r.reporters.contains .console

/-- The file of a reporter. -/
def filePath? : Reporter → Option Path
  | .json path => some path
  | .console => none

/-- The file that the summary is written to: the first one that a reporter names. -/
def jsonExport? (r : RunRequest) : Option Path := r.reporters.findSome? filePath?

end RunRequest

/-- A result, and what was done on the way to it. -/
structure Attempt (α : Type) where
  result : Except Problem α
  /-- The text on the console. -/
  printed : String := ""
  /-- The messages that arrived, in order. -/
  sent : List Message := []
  /-- The call of the external runner. -/
  launched : Option External.Invocation := none

namespace Attempt

/-- A problem arises before anything is done. -/
def failed (p : Problem) : Attempt α := ⟨.error p, "", [], none⟩

/-- The attempt with another result. -/
def withResult (a : Attempt α) (result : Except Problem β) : Attempt β :=
  ⟨result, a.printed, a.sent, a.launched⟩

end Attempt

/-- What runs a collection. -/
structure Engine where
  name : String
  run : World → RunRequest → Logged (Attempt Summary)

end CollectionRunner
