import CollectionRunner.Decimal.Binary64
import CollectionRunner.Run.Instant

/-!
The summary of a run.

A summary holds the executions of a run in order, counts them and their assertions, and lists what
failed: first the error of an execution, then its assertions that did not hold.
-/

namespace CollectionRunner

open Decimal

/-- What became of an assertion. -/
structure AssertionResult where
  name : String
  passed : Bool
  message : Option String
  deriving DecidableEq, Repr

/-- What became of a request. -/
structure Execution where
  item : String
  method : String
  url : String
  status : Option Nat
  durationMs : Binary64
  responseBytes : Option Nat
  assertions : List AssertionResult
  error : Option String
  deriving DecidableEq, Repr

/-- What a failure says. -/
structure FailureError where
  name : String
  test : Option String
  message : String
  deriving DecidableEq, Repr

/-- A failure: the item that failed, and where in it. -/
structure Failure where
  source : String
  place : String
  error : FailureError
  deriving DecidableEq, Repr

/-- How many there were, and how many of them failed. -/
structure Counter where
  total : Nat := 0
  failed : Nat := 0
  deriving DecidableEq, Repr

/-- The counts of a run. -/
structure Stats where
  requests : Counter := {}
  assertions : Counter := {}
  deriving DecidableEq, Repr

/-- The summary of a run. -/
structure Summary where
  collection : String
  stats : Stats
  executions : List Execution
  failures : List Failure
  started : Instant
  completed : Option Instant
  deriving DecidableEq, Repr

namespace Failure

/-- The failure of a request that ended in an error. -/
def ofError (item message : String) : Failure := ⟨item, "request", ⟨"Error", none, message⟩⟩

/-- The failure of an assertion, which stands at place `index` of its execution. -/
def ofAssertion (item : String) (index : Nat) (a : AssertionResult) : Failure :=
  ⟨item, "assertion:" ++ toString index ++ " in test-script",
    ⟨"AssertionError", some a.name, a.message.getD ""⟩⟩

end Failure

namespace Execution

/-- The failure of a request that ended in an error. -/
def errorFailures (e : Execution) : List Failure :=
  match e.error with
  | some message => [.ofError e.item message]
  | none => []

/-- The failures of assertions that did not hold; `index` is the place of the first one. -/
def assertionFailures (item : String) : (index : Nat) → List AssertionResult → List Failure
  | _, [] => []
  | index, a :: as =>
    if a.passed then assertionFailures item (index + 1) as
    else .ofAssertion item index a :: assertionFailures item (index + 1) as

/-- The failures of a request. -/
def failures (e : Execution) : List Failure :=
  e.errorFailures ++ assertionFailures e.item 0 e.assertions

/-- The number of assertions that did not hold. -/
def failedAssertions (e : Execution) : Nat := e.assertions.countP fun a => !a.passed

theorem length_assertionFailures (item : String) (index : Nat) (as : List AssertionResult) :
    (assertionFailures item index as).length = as.countP fun a => !a.passed := by
  induction as generalizing index with
  | nil => rfl
  | cons a as ih =>
    simp only [assertionFailures, List.countP_cons]
    cases ha : a.passed <;> simp [ih]

theorem length_failures (e : Execution) :
    e.failures.length = (if e.error.isSome then 1 else 0) + e.failedAssertions := by
  rw [failures, List.length_append, length_assertionFailures]
  cases h : e.error <;> simp [errorFailures, failedAssertions, h]

end Execution

namespace Summary

/-- The summary of a run that starts. -/
def start (collection : String) (now : Instant) : Summary := ⟨collection, {}, [], [], now, none⟩

/-- Counts a request, and lists its error if it has one. -/
def recordRequest (s : Summary) (e : Execution) : Summary :=
  let s := { s with stats.requests.total := s.stats.requests.total + 1 }
  match e.error with
  | some message =>
    { s with
      stats.requests.failed := s.stats.requests.failed + 1
      failures := s.failures ++ [.ofError e.item message] }
  | none => s

/-- Counts the assertion at place `index` of an execution, and lists it if it did not hold. -/
def recordAssertion (item : String) (index : Nat) (s : Summary) (a : AssertionResult) : Summary :=
  let s := { s with stats.assertions.total := s.stats.assertions.total + 1 }
  if a.passed then s
  else
    { s with
      stats.assertions.failed := s.stats.assertions.failed + 1
      failures := s.failures ++ [.ofAssertion item index a] }

/-- Counts assertions one after the other; `index` is the place of the first one. -/
def recordAssertions (item : String) : (index : Nat) → Summary → List AssertionResult → Summary
  | _, s, [] => s
  | index, s, a :: as => recordAssertions item (index + 1) (s.recordAssertion item index a) as

/-- Adds an execution. -/
def record (s : Summary) (e : Execution) : Summary :=
  let s := recordAssertions e.item 0 (s.recordRequest e) e.assertions
  { s with executions := s.executions ++ [e] }

/-- Adds executions one after the other. -/
def recordAll (s : Summary) (es : List Execution) : Summary := es.foldl record s

/-- The run ends. -/
def finish (s : Summary) (now : Instant) : Summary := { s with completed := some now }

/-- The number of failures. -/
def failureCount (s : Summary) : Nat := s.failures.length

/-- The milliseconds from the start of a run to its end. -/
def durationMs? (s : Summary) : Option Int := s.completed.map fun c => c.since s.started

theorem recordRequest_eq (s : Summary) (e : Execution) :
    s.recordRequest e =
      { s with
        stats.requests :=
          ⟨s.stats.requests.total + 1, s.stats.requests.failed + if e.error.isSome then 1 else 0⟩
        failures := s.failures ++ e.errorFailures } := by
  unfold recordRequest Execution.errorFailures
  cases e.error <;> simp

theorem recordAssertion_eq (item : String) (index : Nat) (s : Summary) (a : AssertionResult) :
    s.recordAssertion item index a =
      { s with
        stats.assertions :=
          ⟨s.stats.assertions.total + 1, s.stats.assertions.failed + if a.passed then 0 else 1⟩
        failures := s.failures ++ Execution.assertionFailures item index [a] } := by
  unfold recordAssertion
  cases h : a.passed <;> simp [Execution.assertionFailures, h]

/-- What a loop over the assertions of an execution adds to a summary. -/
theorem recordAssertions_eq (item : String) (index : Nat) (s : Summary)
    (as : List AssertionResult) :
    recordAssertions item index s as =
      { s with
        stats.assertions :=
          ⟨s.stats.assertions.total + as.length,
            s.stats.assertions.failed + as.countP fun a => !a.passed⟩
        failures := s.failures ++ Execution.assertionFailures item index as } := by
  induction as generalizing index s with
  | nil => simp [recordAssertions, Execution.assertionFailures]
  | cons a as ih =>
    have hlength : s.stats.assertions.total + 1 + as.length =
        s.stats.assertions.total + (as.length + 1) := by omega
    rw [recordAssertions, ih, recordAssertion_eq]
    cases h : a.passed with
    | true => simp [Execution.assertionFailures, h, hlength]
    | false =>
      simp [Execution.assertionFailures, h, hlength]
      omega

/-- What an execution adds to a summary. -/
theorem record_eq (s : Summary) (e : Execution) :
    s.record e =
      { s with
        stats :=
          { requests := ⟨s.stats.requests.total + 1,
              s.stats.requests.failed + if e.error.isSome then 1 else 0⟩
            assertions := ⟨s.stats.assertions.total + e.assertions.length,
              s.stats.assertions.failed + e.failedAssertions⟩ }
        executions := s.executions ++ [e]
        failures := s.failures ++ e.failures } := by
  rw [record, recordAssertions_eq, recordRequest_eq]
  simp [Execution.failures, Execution.failedAssertions]

@[simp] theorem executions_record (s : Summary) (e : Execution) :
    (s.record e).executions = s.executions ++ [e] := by rw [record_eq]

@[simp] theorem failures_record (s : Summary) (e : Execution) :
    (s.record e).failures = s.failures ++ e.failures := by rw [record_eq]

theorem recordAll_cons (s : Summary) (e : Execution) (es : List Execution) :
    s.recordAll (e :: es) = (s.record e).recordAll es := rfl

@[simp] theorem executions_recordAll (s : Summary) (es : List Execution) :
    (s.recordAll es).executions = s.executions ++ es := by
  induction es generalizing s with
  | nil => simp [recordAll]
  | cons e es ih =>
    rw [recordAll_cons, ih, executions_record, List.append_assoc, List.singleton_append]

@[simp] theorem failures_recordAll (s : Summary) (es : List Execution) :
    (s.recordAll es).failures = s.failures ++ es.flatMap Execution.failures := by
  induction es generalizing s with
  | nil => simp [recordAll]
  | cons e es ih =>
    rw [recordAll_cons, ih, failures_record, List.flatMap_cons, List.append_assoc]

end Summary

/-- How a run ended. -/
inductive Outcome
  | passed
  | failed (failures : Nat)
  deriving DecidableEq, Repr

namespace Outcome

/-- A run passes when nothing failed. -/
def ofSummary (s : Summary) : Outcome :=
  if s.failureCount = 0 then .passed else .failed s.failureCount

theorem ofSummary_eq_passed {s : Summary} : ofSummary s = passed ↔ s.failures = [] := by
  unfold ofSummary Summary.failureCount
  by_cases h : s.failures = []
  · simp [h]
  · simp [h, List.length_eq_zero_iff]

/-- The exit code of a run. -/
def exitCode : Outcome → Nat
  | passed => 0
  | failed _ => 255

/-- What is said at the end of a run. -/
def message? : Outcome → Option String
  | passed => none
  | failed n => some ("Failed with " ++ toString n ++ " failing tests.")

end Outcome

end CollectionRunner
