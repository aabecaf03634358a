import CollectionRunner.Cli.Options
import CollectionRunner.Run.Once

/-!
The program: it reads the command line, loads the configuration, builds the settings and runs the
collection once.
-/

namespace CollectionRunner.Cli

/-- The text of the version. -/
def versionText : String := "colrun 0.0.0-dev\n"

/-- The line that shows how the program is called. -/
def usageText : String := "Usage: colrun [OPTIONS] [PORT]"

/-- The text of the help. -/
def helpText : String :=
  "Collection-driven API test runner\n" ++
  "\n" ++
  usageText ++ "\n" ++
  "\n" ++
  "Arguments:\n" ++
  "  [PORT]  Port of the server under test (defaults to 8080)\n" ++
  "\n" ++
  "Options:\n" ++
  "      --collection <COLLECTION>      Collection file to run\n" ++
  "      --fixture <FIXTURE>            Package file uploaded by the collection\x27s " ++
    "upload requests\n" ++
  "  -c, --config <CONFIG>              Directory or file containing colrun.json\n" ++
  "      --cwd <CWD>                    Override base directory used for resolving paths\n" ++
  "      --engine <ENGINE>              Engine that executes the collection " ++
    "[possible values: native, newman]\n" ++
  "  -e, --env-file <ENV_FILE>          Extra environment variables for the run " ++
    "(dotenv format)\n" ++
  "      --reporter-json-export <PATH>  Write the run summary as JSON to this file\n" ++
  "      --timeout-ms <TIMEOUT_MS>      Per-request timeout in milliseconds\n" ++
  "      --newman-bin <NEWMAN_BIN>      newman executable used by the newman engine\n" ++
  "  -h, --help                         Print help\n" ++
  "  -V, --version                      Print version\n"

namespace Options

/-- The directory that relative paths of the command line are read against. -/
def baseDir (fs : FileSystem) (o : Options) : Path :=
  match o.cwd with
  | some dir => Path.join fs.workPath dir
  | none => fs.workPath

/-- The configuration: the one that is asked for, else that of the base directory if it has one. -/
def loadConfig (fs : FileSystem) (o : Options) : Except Problem (Option LoadedConfig) :=
  during "loading configuration"
    (match o.config with
      | some path => (LoadedConfig.loadRequired fs (Path.join (o.baseDir fs) path)).map some
      | none => LoadedConfig.load fs (o.baseDir fs))

/-- The settings that the command line asks for. -/
def settings (fs : FileSystem) (o : Options) : Logged (Except Problem Settings) :=
  match o.loadConfig fs with
  | .error p => pure (.error p)
  | .ok config => Settings.build fs ⟨o.baseDir fs, config, o.overrides⟩

end Options

/-- The exit code when the arguments cannot be read. -/
def usageCode : Nat := 2

/-- The exit code when a run could not take place. -/
def problemCode : Nat := 1

/-- How the program ended, and what it did. -/
structure Exit where
  code : Nat
  output : String
  problem : Option Problem
  files : FileSystem
  sent : List Message
  launched : Option External.Invocation

namespace Exit

/-- The program ends before anything is done. -/
def early (fs : FileSystem) (code : Nat) (output : String) : Exit :=
  ⟨code, output, none, fs, [], none⟩

/-- The last line of the output of a run. -/
def lastLine (o : Outcome) : String :=
  match o.message? with
  | some m => m ++ "\n"
  | none => ""

/-- How the program ends after a run. -/
def ofAttempt (fs : FileSystem) (a : Attempt Outcome) : Exit :=
  match a.result with
  | .ok o => ⟨o.exitCode, a.printed ++ lastLine o, none, fs, a.sent, a.launched⟩
  | .error p => ⟨problemCode, a.printed, some p, fs, a.sent, a.launched⟩

/-- How the program ends when the arguments are not read to their end. -/
def ofStop (fs : FileSystem) : Stop → Exit
  | .usage => early fs usageCode ""
  | .help => early fs 0 helpText
  | .version => early fs 0 versionText

end Exit

/-- The line that tells a problem. -/
def errorLine (p : Problem) : String := "Error: " ++ p.headline

/-- The lines of causes, numbered from `number` on. -/
def numberedCauses (number : Nat) : List String → String
  | [] => ""
  | cause :: causes =>
    "\n    " ++ toString number ++ ": " ++ cause ++ numberedCauses (number + 1) causes

/-- The causes of a problem below its headline. -/
def causesText : List String → String
  | [] => ""
  | [cause] => "\n\nCaused by:\n    " ++ cause
  | causes => "\n\nCaused by:" ++ numberedCauses 0 causes

/-- The whole text that tells a problem. -/
def errorText (p : Problem) : String := errorLine p ++ causesText p.texts.tail

/-- Runs the program with what the command line asks for. -/
def runOptions (w : World) (o : Options) : Logged Exit := do
  match ← o.settings w.files with
  | .error p => pure (Exit.ofAttempt w.files (.failed p))
  | .ok s =>
    let (fs, a) ← s.execute w
    pure (Exit.ofAttempt fs a)

/-- Runs the program. -/
def run (w : World) (arguments : List String) : Logged Exit :=
  match Options.read arguments with
  | .ok o => runOptions w o
  | .error stop => pure (Exit.ofStop w.files stop)

end CollectionRunner.Cli
