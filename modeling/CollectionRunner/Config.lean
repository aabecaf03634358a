import CollectionRunner.Json.Decoder
import CollectionRunner.Problem

/-!
The configuration of a run: a JSON file whose members are all optional.

It is named by its file or by the directory that holds it. Paths in it are read against the
directory of the file.
-/

namespace CollectionRunner

open Json

/-- What runs a collection. -/
inductive EngineKind
  /-- The engine that sends the requests itself. -/
  | native
  /-- The external runner. -/
  | external
  deriving DecidableEq, Repr

/-- The engines by their names. -/
def EngineKind.names : List (String × EngineKind) := [("native", .native), ("newman", .external)]

/-- The members of a configuration. -/
structure Config where
  collection : Option String := none
  fixture : Option String := none
  defaultPort : Option String := none
  engine : Option EngineKind := none
  runnerBin : Option String := none
  timeoutMs : Option Nat := none
  envFile : Option String := none
  vars : Keyed String := []
  extras : Members := []
  deriving Repr

namespace Config

/-- The name of the file in a directory. -/
def fileName : String := "colrun.json"

open Decoder in
/-- The members that a configuration knows. -/
def fields : List (Slot Config) :=
  [.of "collection" (optional Decoder.string) (fun s c => { c with collection := s }),
    .of "fixture" (optional Decoder.string) (fun s c => { c with fixture := s }),
    .of "defaultPort" (optional Decoder.string) (fun s c => { c with defaultPort := s }),
    .of "engine" (optional (choice EngineKind.names)) (fun e c => { c with engine := e }),
    .of "newmanBin" (optional Decoder.string) (fun s c => { c with runnerBin := s }),
    .of "timeoutMs" (optional (Decoder.nat maxWhole)) (fun n c => { c with timeoutMs := n }),
    .of "envFile" (optional Decoder.string) (fun s c => { c with envFile := s }),
    .of "variables" (entries Decoder.string) (fun vs c => { c with vars := vs })]

/-- Reads a configuration. -/
def decode : Decoder Config :=
  .openRecord {} fields fun k v c => { c with extras := c.extras.put k v }

end Config

/-- A configuration, the path of its file, and the directory that its paths are read against. -/
structure LoadedConfig where
  config : Config
  path : Path
  dir : Path
  deriving Repr

namespace LoadedConfig

/-- A path of the configuration, read against its directory. -/
def resolve (c : LoadedConfig) (p : Path) : Path := Path.join c.dir p

/-- The file that a target names and its directory. A target is read against the working
directory. -/
def locate (fs : FileSystem) (target : Path) : Path × Path :=
  let target := if Path.isAbsolute target then target else Path.join fs.workPath target
  if fs.isDirectory target then (Path.join target Config.fileName, target)
  else (target, (Path.parent? target).getD fs.workPath)

/-- The configuration that a target names, if its file is there. -/
def load (fs : FileSystem) (target : Path) : Except Problem (Option LoadedConfig) := do
  let (path, dir) := locate fs target
  if !fs.holds path then pure none
  else do
    let text ← orProblem ("reading config " ++ path) .file (fs.readText path)
    let config ← orProblem ("parsing config " ++ path) .json (Config.decode.parse text)
    pure (some ⟨config, path, dir⟩)

/-- The configuration that a target names; it is a problem if its file is missing. -/
def loadRequired (fs : FileSystem) (target : Path) : Except Problem LoadedConfig := do
  match ← load fs target with
  | some c => pure c
  | none =>
    .error ⟨[], .other ("config " ++ target ++ " not found (a directory must contain " ++
      Config.fileName ++ ")")⟩

end LoadedConfig

end CollectionRunner
