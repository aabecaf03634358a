import CollectionRunner.Console.Lines
import CollectionRunner.Request.Preparation
import CollectionRunner.Run.Engine
import CollectionRunner.Script.Check
import CollectionRunner.Text.Quoted

/-!
The engine that sends the requests itself.

The requests of a collection are sent one after the other. What goes wrong with one of them is
recorded as its error and does not stop the run. The checks of a request are evaluated when its
answer was read to the end.
-/

namespace CollectionRunner.Native

open Script

/-- What a request leaves behind: its execution, and its message if it arrived. -/
structure Performed where
  execution : Execution
  sent : Option Message
  deriving Repr

/-- What is said of an assertion that cannot be evaluated. -/
def unsupportedMessage (test : String) : String :=
  "unsupported assertion in " ++ Text.quoted test ++ "; run with --engine newman to evaluate it"

/-- What becomes of a check when a status is answered. -/
def assess (status : Nat) : Check → AssertionResult
  | .status check =>
    let passed := check.holds status
    ⟨check.describe, passed, if passed then none else some (check.failureMessage status)⟩
  | .unsupported name =>
    let test := String.ofList name
    ⟨test, false, some (unsupportedMessage test)⟩

/-- The warning that a check is worth. -/
def checkWarning? (item : String) : Check → Option Warning
  | .status _ => none
  | .unsupported name => some (.notEvaluated item (String.ofList name))

/-- What becomes of the checks of a script when a status is answered. -/
def assessAll (item : String) (status : Nat) (script : String) : Logged (List AssertionResult) :=
  ⟨(checks script).map (assess status), (checks script).filterMap (checkWarning? item)⟩

/-- The execution of a request that is not prepared yet. -/
def unprepared (l : Leaf) : Execution where
  item := l.displayPath
  method := capitalLetters l.request.method
  url := l.request.url.raw
  status := none
  durationMs := .zero
  responseBytes := none
  assertions := []
  error := none

/-- The execution of a request with the given draft. -/
def prepared (l : Leaf) (d : Draft) (elapsed : Decimal.Binary64) : Execution :=
  { unprepared l with method := d.method, url := d.url.text, durationMs := elapsed }

/-- What is said when no answer comes back. -/
def sendingFailed (u : Url) : String := "error sending request for url (" ++ u.text ++ ")"

/-- What is said when an answer breaks off. -/
def readingFailed : String := "reading response body: error decoding response body"

/-- The execution of a request after a reply to its message. -/
def answer (l : Leaf) (m : Message) (e : Execution) : Reply → Logged Execution
  | .unreachable => pure { e with error := some (sendingFailed m.url) }
  | .closed => pure { e with error := some (sendingFailed m.url) }
  | .truncated status => pure { e with status := some status, error := some readingFailed }
  | .answered status body => do
    let assertions ← assessAll e.item status l.content.testScript
    pure { e with status := some status, responseBytes := some body.length, assertions }

/-- Sends the request at a place of the run; `earlier` holds the messages that arrived before. -/
def perform (w : World) (vars : Variables) (index : Nat) (earlier : List Message) (l : Leaf) :
    Logged Performed := do
  match ← l.request.prepare w.files vars with
  | .error p => pure ⟨{ unprepared l with error := some p.message }, none⟩
  | .ok d =>
    let e := prepared l d (w.clock.elapsed index)
    match d.outgoing w.boundary with
    | .error f => pure ⟨{ e with error := some f.message }, none⟩
    | .ok m =>
      let reply := w.network earlier m
      let e ← answer l m e reply
      pure ⟨e, if reply.hasArrived then some m else none⟩

/-- Sends requests one after the other. -/
def performAll (w : World) (vars : Variables) :
    (index : Nat) → (earlier : List Message) → List Leaf → Logged (List Performed)
  | _, _, [] => pure []
  | index, earlier, l :: ls => do
    let p ← perform w vars index earlier l
    let ps ← performAll w vars (index + 1) (earlier ++ p.sent.toList) ls
    pure (p :: ps)

/-- The variables of a run: those of the environment win over those of the collection. -/
def runVariables (r : RunRequest) : Variables :=
  r.collection.activeVariables ++ r.environment.toVariables

/-- The summary of a run with the given executions. -/
def summary (clock : Clock) (name : String) (es : List Execution) : Summary :=
  ((Summary.start name clock.started).recordAll es).finish clock.finished

/-- Runs a collection. -/
def run (w : World) (r : RunRequest) : Logged (Attempt Summary) := do
  let ps ← performAll w (runVariables r) 0 [] r.collection.leaves
  let s := summary w.clock r.collection.displayName (ps.map Performed.execution)
  pure
    { result := .ok s
      printed := if r.reportsToConsole then Console.runText w.color s else ""
      sent := ps.filterMap Performed.sent }

/-- The engine that sends the requests itself. -/
def engine : Engine := ⟨"native", run⟩

/-- Makes the engine. It needs a client for its requests. -/
def make (w : World) : Except Problem Engine :=
  match w.clientFault with
  | some reason => .error ⟨["building HTTP client"], .other reason⟩
  | none => .ok engine

end CollectionRunner.Native
