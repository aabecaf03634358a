import CollectionRunner.FileSystem

/-!
Calls of the external runner as values: what it is given, and what becomes of it.
-/

namespace CollectionRunner.External

/-- A call of the external runner, with the texts of the two files that are staged for it. -/
structure Invocation where
  binary : String
  arguments : List String
  collection : String
  environment : String
  deriving DecidableEq, Repr

/-- How a process ended. -/
inductive ExitStatus
  | code (n : Nat)
  | signal (n : Nat)
  deriving DecidableEq, Repr

/-- The names of the signals from the first one on. -/
def signalNames : List String :=
  ["SIGHUP", "SIGINT", "SIGQUIT", "SIGILL", "SIGTRAP", "SIGABRT", "SIGBUS", "SIGFPE", "SIGKILL",
    "SIGUSR1", "SIGSEGV", "SIGUSR2", "SIGPIPE", "SIGALRM", "SIGTERM", "SIGSTKFLT", "SIGCHLD",
    "SIGCONT", "SIGSTOP", "SIGTSTP", "SIGTTIN", "SIGTTOU", "SIGURG", "SIGXCPU", "SIGXFSZ",
    "SIGVTALRM", "SIGPROF", "SIGWINCH", "SIGIO", "SIGPWR", "SIGSYS"]

/-- The text of the way in which a process ended. -/
def ExitStatus.text : ExitStatus → String
  | code n => "exit status: " ++ toString n
  | signal n =>
    "signal: " ++ toString n ++
      match signalNames[n - 1]? with
      | some name => " (" ++ name ++ ")"
      | none => ""

/-- What became of a call. -/
inductive Launch
  /-- The files for the runner could not be staged; that ended while `activity` was done. -/
  | unstaged (activity : String) (reason : FileSystem.Fault)
  /-- There is no such runner. -/
  | notFound
  /-- The runner is there and does not start. -/
  | failed (reason : FileSystem.Fault)
  /-- The runner ran; it left a report or none. -/
  | ended (status : ExitStatus) (report : Option Bytes)
  /-- The runner ran; what it left as its report cannot be read. -/
  | unreadable (status : ExitStatus) (reason : FileSystem.Fault)
  deriving DecidableEq, Repr

/-- The external runner. -/
abbrev Runner := Invocation → Launch

/-- The runner that is not there. -/
def Runner.missing : Runner := fun _ => .notFound

end CollectionRunner.External
