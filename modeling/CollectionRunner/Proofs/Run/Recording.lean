import CollectionRunner.Run.Summary
import Mathlib.Algebra.GroupWithZero.Nat

/-!
# What a summary holds of its executions

Executions are recorded one after the other, each in a loop over its assertions. After every one of
them the summary accounts for all executions so far (`Summary.Accounts`). Main statement:
`Summary.accounts_recordAll`.
-/

namespace CollectionRunner

/-- What is listed of an execution: its error, if it has one, and then every assertion that did not
hold, under its place among all assertions of the execution. -/
def Execution.listed (e : Execution) : List Failure :=
  (e.error.toList.map fun message => ⟨e.item, "request", ⟨"Error", none, message⟩⟩) ++
    (e.assertions.zipIdx.filter fun p => !p.1.passed).map fun p =>
      ⟨e.item, "assertion:" ++ toString p.2 ++ " in test-script",
        ⟨"AssertionError", some p.1.name, p.1.message.getD ""⟩⟩

theorem Execution.assertionFailures_eq (item : String) (index : Nat) (as : List AssertionResult) :
    assertionFailures item index as =
      ((as.zipIdx index).filter fun p => !p.1.passed).map fun p => .ofAssertion item p.2 p.1 := by
  induction as generalizing index with
  | nil => rfl
  | cons a as ih =>
    rw [assertionFailures, List.zipIdx_cons, ih]
    cases h : a.passed with
    | true => simp [h]
    | false => simp [h]

theorem Execution.failures_eq_listed (e : Execution) : e.failures = e.listed := by
  rw [failures, listed, assertionFailures_eq]
  congr 1
  unfold errorFailures
  cases e.error <;> rfl

namespace Summary

/-- A summary accounts for executions: it counts them and those with an error, it counts their
assertions and those that did not hold, and it lists what failed, all in the order of the
executions. -/
structure Accounts (s : Summary) (es : List Execution) : Prop where
  executions : s.executions = es
  requests : s.stats.requests = ⟨es.length, es.countP fun e => e.error.isSome⟩
  assertions : s.stats.assertions =
    ⟨(es.map fun e => e.assertions.length).sum,
      (es.map fun e => e.assertions.countP fun a => !a.passed).sum⟩
  failures : s.failures = es.flatMap Execution.listed

theorem Accounts.start (name : String) (now : Instant) : (start name now).Accounts [] :=
  ⟨rfl, rfl, rfl, rfl⟩

/-- The step lemma: with one more record the summary accounts for one more execution. -/
theorem Accounts.record {s : Summary} {es : List Execution} (h : s.Accounts es) (e : Execution) :
    (s.record e).Accounts (es ++ [e]) := by
  obtain ⟨hexecutions, hrequests, hassertions, hfailures⟩ := h
  rw [record_eq]
  refine ⟨?_, ?_, ?_, ?_⟩
  · simp [hexecutions]
  · simp [hrequests, List.countP_append, List.countP_singleton]
  · simp [hassertions, Execution.failedAssertions]
  · simp [hfailures, Execution.failures_eq_listed]

/-- The run lemma. -/
theorem Accounts.recordAll {s : Summary} {es : List Execution} (h : s.Accounts es)
    (more : List Execution) : (s.recordAll more).Accounts (es ++ more) := by
  induction more generalizing s es with
  | nil => rwa [List.append_nil]
  | cons e more ih =>
    rw [recordAll_cons, List.append_cons]
    exact ih (h.record e)

theorem Accounts.finish {s : Summary} {es : List Execution} (h : s.Accounts es) (now : Instant) :
    (s.finish now).Accounts es := ⟨h.executions, h.requests, h.assertions, h.failures⟩

/-- What is listed is what was counted as failed. -/
theorem Accounts.failureCount_eq {s : Summary} {es : List Execution} (h : s.Accounts es) :
    s.failureCount = s.stats.requests.failed + s.stats.assertions.failed := by
  rw [failureCount, h.failures, h.requests, h.assertions]
  clear h
  induction es with
  | nil => rfl
  | cons e es ih =>
    have hlength : e.listed.length =
        (if e.error.isSome then 1 else 0) + e.assertions.countP fun a => !a.passed := by
      rw [← Execution.failures_eq_listed, Execution.length_failures]
      rfl
    rw [List.flatMap_cons, List.length_append, ih, hlength]
    simp only [List.countP_cons, List.map_cons, List.sum_cons]
    omega

theorem recordAll_append (s : Summary) (es more : List Execution) :
    s.recordAll (es ++ more) = (s.recordAll es).recordAll more := List.foldl_append

/-- Take any sequence of records and any place in it. There the summary accounts for the executions
in front of it, and it lists as many failures as it counts. All records that follow leave the
executions and the failures of that place as they are, in front of theirs. -/
theorem accounts_recordAll (name : String) (now : Instant) (es more : List Execution) :
    let s := (start name now).recordAll es
    s.Accounts es ∧
      s.failureCount = s.stats.requests.failed + s.stats.assertions.failed ∧
      (start name now).recordAll (es ++ more) = s.recordAll more ∧
      s.executions <+: (s.recordAll more).executions ∧
      s.failures <+: (s.recordAll more).failures := by
  intro s
  have haccounts : s.Accounts es := (Accounts.start name now).recordAll es
  refine ⟨haccounts, haccounts.failureCount_eq, recordAll_append _ es more, ?_, ?_⟩
  · rw [executions_recordAll s more]
    exact List.prefix_append _ _
  · rw [failures_recordAll s more]
    exact List.prefix_append _ _

end Summary

end CollectionRunner
