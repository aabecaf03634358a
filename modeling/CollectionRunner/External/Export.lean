import CollectionRunner.Collection.RequestUrl
import CollectionRunner.Problem
import CollectionRunner.Run.Summary

/-!
The report of the external runner, and the summary that it stands for.

All members of the report are optional, and those that are not named here are passed over. Counts
and failures are taken as the report gives them.
-/

namespace CollectionRunner.External

open Json Decoder Decimal

/-- Something with a name. -/
structure Named where
  name : Option String := none

/-- Reads something with a name. -/
def Named.decode : Decoder Named :=
  .closedRecord false {} [.of "name" (optional Decoder.string) fun s n => { n with name := s }]

/-- An error. -/
structure ErrorInfo where
  name : Option String := none
  test : Option String := none
  message : Option String := none

/-- Reads an error. -/
def ErrorInfo.decode : Decoder ErrorInfo :=
  .closedRecord false {}
    [.of "name" (optional Decoder.string) (fun s e => { e with name := s }),
      .of "test" (optional Decoder.string) (fun s e => { e with test := s }),
      .of "message" (optional Decoder.string) (fun s e => { e with message := s })]

/-- An assertion, which failed if it has an error. -/
structure AssertionInfo where
  assertion : String := ""
  error : Option ErrorInfo := none

/-- Reads an assertion. -/
def AssertionInfo.decode : Decoder AssertionInfo :=
  .closedRecord false {}
    [.of "assertion" Decoder.string (fun s a => { a with assertion := s }),
      .of "error" (optional ErrorInfo.decode) (fun e a => { a with error := e })]

/-- A request. -/
structure RequestInfo where
  method : Option String := none
  url : Option Value := none

/-- Reads a request. -/
def RequestInfo.decode : Decoder RequestInfo :=
  .closedRecord false {}
    [.of "method" (optional Decoder.string) (fun s r => { r with method := s }),
      .of "url" (optional Decoder.value) (fun u r => { r with url := u })]

/-- A response. -/
structure ResponseInfo where
  code : Option Nat := none
  responseTime : Option Binary64 := none
  responseSize : Option Nat := none

/-- Reads a response. -/
def ResponseInfo.decode : Decoder ResponseInfo :=
  .closedRecord false {}
    [.of "code" (optional (Decoder.nat 65535)) (fun n r => { r with code := n }),
      .of "responseTime" (optional Decoder.binary64) (fun x r => { r with responseTime := x }),
      .of "responseSize" (optional (Decoder.nat maxWhole))
        (fun n r => { r with responseSize := n })]

/-- What became of a request. -/
structure ExecutionInfo where
  item : Named := {}
  request : RequestInfo := {}
  response : Option ResponseInfo := none
  assertions : List AssertionInfo := []
  requestError : Option ErrorInfo := none

/-- Reads what became of a request. -/
def ExecutionInfo.decode : Decoder ExecutionInfo :=
  .closedRecord false {}
    [.of "item" Named.decode (fun n e => { e with item := n }),
      .of "request" RequestInfo.decode (fun r e => { e with request := r }),
      .of "response" (optional ResponseInfo.decode) (fun r e => { e with response := r }),
      .of "assertions" (array AssertionInfo.decode) (fun as e => { e with assertions := as }),
      .of "requestError" (optional ErrorInfo.decode) (fun r e => { e with requestError := r })]

/-- A failure. -/
structure FailureInfo where
  error : ErrorInfo := {}
  source : Option Named := none
  place : Option String := none

/-- Reads a failure. -/
def FailureInfo.decode : Decoder FailureInfo :=
  .closedRecord false {}
    [.of "error" ErrorInfo.decode (fun e f => { f with error := e }),
      .of "source" (optional Named.decode) (fun n f => { f with source := n }),
      .of "at" (optional Decoder.string) (fun s f => { f with place := s })]

/-- Reads a counter. -/
def counter : Decoder Counter :=
  .closedRecord false {}
    [.of "total" (Decoder.nat maxWhole) (fun n c => { c with total := n }),
      .of "failed" (Decoder.nat maxWhole) (fun n c => { c with failed := n })]

/-- Reads the counts of a run. -/
def stats : Decoder Stats :=
  .closedRecord false {}
    [.of "requests" counter (fun c s => { s with requests := c }),
      .of "assertions" counter (fun c s => { s with assertions := c })]

/-- The start and the end of a run in milliseconds since the start of 1970. -/
structure Timings where
  started : Option Int := none
  completed : Option Int := none

/-- Reads a whole number of 64 bits with a sign. -/
def signed : Decoder Int := Decoder.int (-9223372036854775808) 9223372036854775807

/-- Reads the start and the end of a run. -/
def Timings.decode : Decoder Timings :=
  .closedRecord false {}
    [.of "started" (optional signed) (fun n t => { t with started := n }),
      .of "completed" (optional signed) (fun n t => { t with completed := n })]

/-- A run. -/
structure RunInfo where
  stats : Stats := {}
  executions : List ExecutionInfo := []
  failures : List FailureInfo := []
  timings : Timings := {}

/-- Reads a run. -/
def RunInfo.decode : Decoder RunInfo :=
  .closedRecord false {}
    [.of "stats" External.stats (fun s r => { r with stats := s }),
      .of "executions" (array ExecutionInfo.decode) (fun es r => { r with executions := es }),
      .of "failures" (array FailureInfo.decode) (fun fs r => { r with failures := fs }),
      .of "timings" Timings.decode (fun t r => { r with timings := t })]

/-- The collection of a report. -/
structure CollectionRef where
  info : Named := {}

/-- Reads the collection of a report. -/
def CollectionRef.decode : Decoder CollectionRef :=
  .closedRecord false {} [.of "info" Named.decode fun n c => { c with info := n }]

/-- A report. -/
structure Export where
  collection : CollectionRef := {}
  run : RunInfo := {}

/-- Reads a report. -/
def Export.decode : Decoder Export :=
  .closedRecord false {}
    [.of "collection" CollectionRef.decode (fun c e => { e with collection := c }),
      .of "run" RunInfo.decode (fun r e => { e with run := r })]

/-- The assertion of a summary. -/
def AssertionInfo.result (a : AssertionInfo) : AssertionResult :=
  ⟨a.assertion, a.error.isNone, a.error.bind ErrorInfo.message⟩

/-- The text of the address; a value that stands for no address gives none. -/
def RequestInfo.urlText (r : RequestInfo) : String :=
  ((r.url.bind RequestUrl.ofValue?).map RequestUrl.raw).getD ""

/-- The execution of a summary. -/
def ExecutionInfo.execution (e : ExecutionInfo) : Execution where
  item := e.item.name.getD ""
  method := e.request.method.getD ""
  url := e.request.urlText
  status := e.response.bind ResponseInfo.code
  durationMs := (e.response.bind ResponseInfo.responseTime).getD .zero
  responseBytes := e.response.bind ResponseInfo.responseSize
  assertions := e.assertions.map AssertionInfo.result
  error := e.requestError.bind ErrorInfo.message

/-- The failure of a summary. -/
def FailureInfo.failure (f : FailureInfo) : Failure :=
  ⟨(f.source.bind Named.name).getD "<unknown>", f.place.getD "",
    ⟨f.error.name.getD "Error", f.error.test, f.error.message.getD ""⟩⟩

/-- The summary of a report. A run whose start the report does not give started now. -/
def Export.summary (now : Instant) (e : Export) : Summary where
  collection := e.collection.info.name.getD ""
  stats := e.run.stats
  executions := e.run.executions.map ExecutionInfo.execution
  failures := e.run.failures.map FailureInfo.failure
  started := (e.run.timings.started.bind Instant.ofMs?).getD now
  completed := e.run.timings.completed.bind Instant.ofMs?

/-- The summary that the text of a report stands for. -/
def readSummary (now : Instant) (text : String) : Except Problem Summary :=
  orProblem "parsing newman summary" .json ((Export.decode.parse text).map (Export.summary now))

end CollectionRunner.External
