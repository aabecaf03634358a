import CollectionRunner.Proofs.Collection.Listing
import CollectionRunner.Proofs.External.Entries
import CollectionRunner.Proofs.Run.Scripts

/-!
# The errors of a report

An entry that failed has an error, of which every member may be missing. What is kept of an error is
its message. An execution whose error has none looks like one that went well, and an assertion whose
error has none is not passed but gives no reason. A native run gives a message to every assertion
that is not passed. Main statement: `readSummary_errors`.
-/

namespace CollectionRunner

open Script

namespace Native

/-- The step lemma: a check has a message just when it is not passed. -/
theorem message_assess (status : Nat) (c : Check) :
    (assess status c).message ≠ none ↔ (assess status c).passed = false := by
  cases c with
  | status check => cases hholds : check.holds status <;> simp [assess, hholds]
  | unsupported name => simp [assess]

theorem Fate.Records.message {f : Fate} {e : Execution} (h : f.Records e) {a : AssertionResult}
    (ha : a ∈ e.assertions) : a.message ≠ none ↔ a.passed = false := by
  rw [Records] at h
  split at h
  · obtain ⟨-, -, hassertions⟩ := h
    rw [hassertions] at ha
    obtain ⟨c, -, rfl⟩ := List.mem_map.mp ha
    exact message_assess _ c
  · rw [h.2] at ha
    cases ha

/-- The run lemma: in a whole run, an assertion has a message just when it is not passed. -/
theorem message_run {w : World} {r : RunRequest} {s : Summary}
    (h : (run w r).value.result = .ok s) {e : Execution} (he : e ∈ s.executions)
    {a : AssertionResult} (ha : a ∈ e.assertions) : a.message ≠ none ↔ a.passed = false := by
  obtain rfl : runSummary w r = s := Except.ok.inj h
  rw [executions_runSummary] at he
  have hrecords := performAll_records w (runVariables r) 0 [] r.collection.leaves
  obtain ⟨f, -, hf⟩ := exists_of_mem_left hrecords.flip he
  exact Fate.Records.message hf ha

end Native

namespace External

open Json

/-! ## Errors of entries -/

/-- The error that an entry of the executions has, unless it is null. -/
def requestErrorOf? (entry : Document) : Option Document :=
  entry.givenAt? ExecutionInfo.shape "requestError"

/-- The assertions of an entry of the executions. -/
def assertionsOf (entry : Document) : List Document :=
  entry.itemsAt ExecutionInfo.shape "assertions"

/-- The error that an assertion of an entry has, unless it is null. -/
def assertionErrorOf? (assertion : Document) : Option Document :=
  assertion.givenAt? AssertionInfo.shape "error"

/-- The message of an error. -/
def messageOf? (error : Document) : Option String :=
  error.textAt? ErrorInfo.shape "message"

/-- An execution keeps the errors of its entry: it has one when the entry has one, and an assertion
that has one is not passed and has a message. -/
def KeepsErrors (entry : Document) (x : Execution) : Prop :=
  (x.error ≠ none ↔ requestErrorOf? entry ≠ none) ∧
    ∀ (j : Nat) assertion, (assertionsOf entry)[j]? = some assertion →
      ∃ a, x.assertions[j]? = some a ∧
        (assertionErrorOf? assertion ≠ none → a.passed = false ∧ a.message ≠ none)

/-- Every error of an entry, that of the request and those of the assertions, has a message. -/
def ErrorsSpeak (entry : Document) : Prop :=
  (∀ error, requestErrorOf? entry = some error → messageOf? error ≠ none) ∧
    ∀ assertion ∈ assertionsOf entry, ∀ error, assertionErrorOf? assertion = some error →
      messageOf? error ≠ none

theorem error_executionOf (entry : Document) :
    (executionOf entry).error = (requestErrorOf? entry).bind messageOf? := rfl

theorem assertions_executionOf (entry : Document) :
    (executionOf entry).assertions = (assertionsOf entry).map assertionOf := rfl

theorem message_assertionOf (assertion : Document) :
    (assertionOf assertion).message = (assertionErrorOf? assertion).bind messageOf? := rfl

theorem passed_assertionOf (assertion : Document) :
    (assertionOf assertion).passed = false ↔ assertionErrorOf? assertion ≠ none :=
  Option.isNone_eq_false_iff.trans Option.isSome_iff_ne_none

/-- An error is kept, when there is one, just when it has a message. -/
theorem bind_messageOf?_ne_none_iff (error? : Option Document) :
    (error?.bind messageOf? ≠ none ↔ error? ≠ none) ↔
      ∀ error, error? = some error → messageOf? error ≠ none := by
  cases error? with
  | none => simp
  | some error => simp

theorem keepsErrors_executionOf (entry : Document) :
    KeepsErrors entry (executionOf entry) ↔ ErrorsSpeak entry := by
  refine and_congr (bind_messageOf?_ne_none_iff _) ⟨fun h assertion hmem error herror => ?_,
    fun h j assertion hj => ?_⟩
  · obtain ⟨j, hj⟩ := List.mem_iff_getElem?.mp hmem
    obtain ⟨a, ha, hkept⟩ := h j assertion hj
    rw [assertions_executionOf, List.getElem?_map, hj] at ha
    obtain rfl := Option.some.inj ha
    obtain ⟨-, hmessage⟩ := hkept (by rw [herror]; exact Option.some_ne_none error)
    rwa [message_assertionOf, herror] at hmessage
  · refine ⟨assertionOf assertion, by rw [assertions_executionOf, List.getElem?_map, hj]; rfl,
      fun hne => ⟨(passed_assertionOf assertion).mpr hne, ?_⟩⟩
    obtain ⟨error, herror⟩ := Option.ne_none_iff_exists'.mp hne
    rw [message_assertionOf, herror]
    exact h assertion (List.mem_of_getElem? hj) error herror

/-! ## Errors of a summary -/

/-- The executions of a report that is accepted stand for its entries, one for each. An execution
has an error just when its entry has one with a message, and that message is the error. An assertion
is passed unless its entry has an error, whose message it has, if there is one. So the errors of an
entry are kept just when each of them has a message. In a native run, an assertion has a message
just when it is not passed. -/
theorem readSummary_errors {now : Instant} {text : String} {s : Summary}
    (h : readSummary now text = .ok s) :
    s.executions.length = (entriesOf (Page.ofText text).document "executions").length ∧
      (∀ (i : Nat) entry,
        (entriesOf (Page.ofText text).document "executions")[i]? = some entry →
          ∃ x, s.executions[i]? = some x ∧
            (∀ m, x.error = some m ↔
              ∃ error, requestErrorOf? entry = some error ∧ messageOf? error = some m) ∧
            (∀ (j : Nat) assertion, (assertionsOf entry)[j]? = some assertion →
              ∃ a, x.assertions[j]? = some a ∧
                (a.passed = false ↔ assertionErrorOf? assertion ≠ none) ∧
                ∀ m, a.message = some m ↔
                  ∃ error, assertionErrorOf? assertion = some error ∧
                    messageOf? error = some m) ∧
            (KeepsErrors entry x ↔ ErrorsSpeak entry)) ∧
      ∀ w r t, (Native.run w r).value.result = .ok t →
        ∀ x ∈ t.executions, ∀ a ∈ x.assertions, a.message ≠ none ↔ a.passed = false := by
  obtain ⟨e, hparse, rfl⟩ := readSummary_eq_ok.mp h
  rw [eq_ofDocument_of_parse hparse, executions_summary]
  refine ⟨List.length_map _, fun i entry hi => ?_, fun w r t ht x hx a ha =>
    Native.message_run ht hx ha⟩
  refine ⟨executionOf entry, by rw [List.getElem?_map, hi]; rfl, fun m => ?_,
    fun j assertion hj => ?_, keepsErrors_executionOf entry⟩
  · rw [error_executionOf]
    exact Option.bind_eq_some_iff
  · refine ⟨assertionOf assertion, ?_, passed_assertionOf assertion, fun m => ?_⟩
    · rw [assertions_executionOf, List.getElem?_map, hj]
      rfl
    · rw [message_assertionOf]
      exact Option.bind_eq_some_iff

/-- A report of two requests that could not be sent, the first for an error without a message. -/
def refusedReport : Value :=
  .object [("run", .object [("executions", .array
    [.object [("item", .object [("name", .string "a")]), ("requestError", .object
      [("code", .string "ECONNREFUSED"), ("syscall", .string "connect")])],
    .object [("item", .object [("name", .string "b")]), ("requestError", .object
      [("message", .string "connect ECONNREFUSED")])]])])]

theorem readSummary_refusedReport :
    (Page.ofText refusedReport.pretty).document = refusedReport.document ∧
      readSummary ⟨0⟩ refusedReport.pretty =
        .ok ((Export.ofDocument refusedReport.document).summary ⟨0⟩) := by
  have hwhole : refusedReport.Whole := by
    simp [refusedReport, Value.Whole, Value.ItemsWhole, Value.MembersWhole]
  exact ⟨by rw [Page.ofText_pretty hwhole],
    readSummary_pretty hwhole (e := Export.ofDocument refusedReport.document) rfl ⟨0⟩⟩

theorem readSummary_errors_refusedReport :
    ∃ s, readSummary ⟨0⟩ refusedReport.pretty = .ok s ∧
      s.executions.length = 2 ∧
      (∃ x, s.executions[0]? = some x ∧ x.error = none) ∧
      ∃ x, s.executions[1]? = some x ∧ x.error = some "connect ECONNREFUSED" := by
  obtain ⟨hdocument, hread⟩ := readSummary_refusedReport
  obtain ⟨hlength, hentries, -⟩ := readSummary_errors hread
  rw [hdocument] at hlength hentries
  refine ⟨_, hread, hlength.trans rfl, ?_, ?_⟩
  · obtain ⟨x, hx, herror, -⟩ := hentries 0 _ rfl
    refine ⟨x, hx, Option.eq_none_iff_forall_ne_some.mpr fun m hm => ?_⟩
    obtain ⟨error, hsome, hmessage⟩ := (herror m).mp hm
    cases hsome
    cases hmessage
  · obtain ⟨x, hx, herror, -⟩ := hentries 1 _ rfl
    exact ⟨x, hx, (herror _).mpr ⟨_, rfl, rfl⟩⟩

/-- The error of the first request is lost. -/
theorem not_keepsErrors_refusedReport :
    ¬ ∀ now text s, readSummary now text = .ok s →
      ∀ (i : Nat) entry, (entriesOf (Page.ofText text).document "executions")[i]? = some entry →
        ∃ x, s.executions[i]? = some x ∧ KeepsErrors entry x := by
  intro hkeeps
  obtain ⟨hdocument, hread⟩ := readSummary_refusedReport
  have hentries := hkeeps _ _ _ hread
  rw [hdocument] at hentries
  obtain ⟨x, hx, ⟨herror, -⟩⟩ := hentries 0 _ rfl
  cases hx
  exact herror.mpr (Option.some_ne_none _) rfl

end External

end CollectionRunner
