import CollectionRunner.BaseUrl
import CollectionRunner.Config
import CollectionRunner.EnvFile.Loading
import CollectionRunner.Environment
import CollectionRunner.Warning

/-!
The settings of a run.

A value of the command line wins over one of the configuration, and that over the default. Paths of
the command line are read against the base directory, those of the configuration and the default
names against the directory of the configuration. The variables are those of the configuration
sorted by name, and behind them those of the env file.
-/

namespace CollectionRunner

/-- Values of the command line. -/
structure Overrides where
  port : Option String := none
  collection : Option Path := none
  fixture : Option Path := none
  engine : Option EngineKind := none
  runnerBin : Option String := none
  timeoutMs : Option Nat := none
  envFile : Option Path := none
  jsonExport : Option Path := none
  deriving Repr

/-- Everything that a run depends on beside files and servers. -/
structure Settings where
  baseUrl : String
  collection : Path
  fixture : Path
  engine : EngineKind
  runnerBin : String
  timeoutMs : Option Nat
  vars : Variables
  jsonExport : Option Path
  deriving DecidableEq, Repr

namespace Settings

/-- The collection when none is given. -/
def defaultCollection : String := "filevault-packagemgr-tests.postman_collection.json"

/-- The fixture when none is given. -/
def defaultFixture : String := "test-files/test-package.zip"

/-- The external runner when none is given. -/
def defaultRunnerBin : String := "newman"

/-- What the settings are built from: the base directory, the configuration and the command line. -/
structure Sources where
  baseDir : Path
  config : Option LoadedConfig
  overrides : Overrides
  deriving Repr

namespace Sources

/-- A member of the configuration. -/
def configured (s : Sources) (member : Config → Option α) : Option α :=
  s.config.bind fun c => member c.config

/-- The value of the command line, else that of the configuration. -/
def pick (s : Sources) (override : Overrides → Option α) (member : Config → Option α) : Option α :=
  (override s.overrides).or (s.configured member)

/-- The path of the command line, else that of the configuration. -/
def pickPath (s : Sources) (override : Overrides → Option Path)
    (member : Config → Option String) : Option Path :=
  match override s.overrides, s.config with
  | some p, _ => some (Path.join s.baseDir p)
  | none, some c => (member c.config).map c.resolve
  | none, none => none

/-- The directory of the configuration, else the base directory. -/
def defaultsDir (s : Sources) : Path := (s.config.map LoadedConfig.dir).getD s.baseDir

/-- The collection. -/
def collection (s : Sources) : Path :=
  (s.pickPath Overrides.collection Config.collection).getD
    (Path.join s.defaultsDir defaultCollection)

/-- The fixture. -/
def fixture (s : Sources) : Path :=
  (s.pickPath Overrides.fixture Config.fixture).getD (Path.join s.defaultsDir defaultFixture)

/-- The env file. -/
def envFile (s : Sources) : Option Path := s.pickPath Overrides.envFile Config.envFile

/-- The variables of the configuration in the order of their names, whatever order it holds them
in. -/
def configVariables (s : Sources) : Variables :=
  (s.config.map fun c => Variables.sorted c.config.vars).getD []

/-- The variables of the env file. -/
def fileVariables (s : Sources) (fs : FileSystem) : Except Problem Variables :=
  match s.envFile with
  | some path => EnvFile.load fs path
  | none => .ok []

end Sources

/-- The settings with the given variables of the env file. -/
def ofSources (s : Sources) (fileVariables : Variables) : Settings where
  baseUrl := CollectionRunner.baseUrl (s.pick Overrides.port Config.defaultPort)
  collection := s.collection
  fixture := s.fixture
  engine := (s.pick Overrides.engine Config.engine).getD .native
  runnerBin := (s.pick Overrides.runnerBin Config.runnerBin).getD defaultRunnerBin
  timeoutMs := s.pick Overrides.timeoutMs Config.timeoutMs
  vars := s.configVariables ++ fileVariables
  jsonExport := s.overrides.jsonExport.map (Path.join s.baseDir)

/-- Builds the settings. A missing fixture is worth a warning, a missing env file ends the run. -/
def build (fs : FileSystem) (s : Sources) : Logged (Except Problem Settings) := do
  if !fs.holds s.fixture then Logged.warn (.missingFixture s.fixture)
  pure ((s.fileVariables fs).map (ofSources s))

theorem value_build (fs : FileSystem) (s : Sources) :
    (build fs s).value = (s.fileVariables fs).map (ofSources s) := by
  unfold build
  split <;> rfl

/-- The environment of the run. -/
def environment (s : Settings) : Environment :=
  (Environment.forHost s.baseUrl).withVariables s.vars

end Settings

end CollectionRunner
