import CollectionRunner.External.Invocation
import CollectionRunner.Run.Network
import CollectionRunner.Run.Summary

/-!
What a run takes place in, as a value: the files, the network, the external runner and the clock.
-/

namespace CollectionRunner

open Decimal

/-- The times of a run. -/
structure Clock where
  started : Instant
  finished : Instant
  /-- How long the request at a place of the run takes, in milliseconds. -/
  elapsed : (index : Nat) → Binary64

/-- What a run takes place in. -/
structure World where
  files : FileSystem
  network : Network
  runner : External.Runner
  clock : Clock
  /-- What stands between the parts of a form. -/
  boundary : String
  /-- The directory that files for the external runner are staged in. -/
  scratch : Path
  /-- Whether the console shows colours. -/
  color : Bool
  /-- Why no client for requests can be made, if none can. -/
  clientFault : Option String := none

end CollectionRunner
