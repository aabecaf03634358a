import CollectionRunner.Proofs.Text.Utf8
import CollectionRunner.Run.Once

/-!
# The verdict of a run that is left to the external runner

The runner ends with a status and leaves a report, which gives its own account of the run: counts,
executions and a list of failures. Main statement: `runOnce_of_report`. The list of failures alone
decides how the run ended, so a run may pass although the runner ended in an error and the rest of
its report speaks of failures (`passed_of_failed_report`).
-/

namespace CollectionRunner.External

section

variable (binary : String) (timeoutMs : Option Nat) (w : World) (r : RunRequest)

/-- The runner ends with a status and leaves a report that can be read. -/
def Leaves (status : ExitStatus) (e : Export) : Prop :=
  ∃ report text, w.runner (invocation binary timeoutMs w.scratch r) = .ended status (some report) ∧
    ofBytes? report = some text ∧ Export.decode.parse text = .ok e

end

/-- Whether the request or an assertion of an execution ended in an error. -/
def ExecutionInfo.showsFailure (x : ExecutionInfo) : Bool :=
  x.requestError.isSome || x.assertions.any fun a => a.error.isSome

/-- Whether a report speaks of a failure in its counts or in its executions. -/
def Export.showsFailure (e : Export) : Bool :=
  e.run.stats.requests.failed != 0 || e.run.stats.assertions.failed != 0 ||
    e.run.executions.any ExecutionInfo.showsFailure

/-- The outcome that a report stands for. -/
def Export.outcome (e : Export) : Outcome :=
  if e.run.failures = [] then .passed else .failed e.run.failures.length

theorem ofSummary_summary (now : Instant) (e : Export) :
    Outcome.ofSummary (e.summary now) = e.outcome := by
  have hlength : (e.summary now).failureCount = e.run.failures.length := by
    rw [Summary.failureCount, Export.summary, List.length_map]
  rw [Outcome.ofSummary, Export.outcome, hlength]
  simp only [List.length_eq_zero_iff]

theorem outcome_eq_passed {e : Export} : e.outcome = .passed ↔ e.run.failures = [] := by
  rw [Export.outcome]
  split <;> simp_all

/-! ## What the engine gives -/

theorem readReport_eq_ok {now : Instant} {path : Path} {report : Bytes} {s : Summary} :
    readReport now path report = .ok s ↔
      ∃ text e, ofBytes? report = some text ∧ Export.decode.parse text = .ok e ∧
        s = e.summary now := by
  rw [readReport]
  cases ofBytes? report with
  | none => simp
  | some text =>
    simp only [readSummary, Option.some.injEq]
    cases hparse : Export.decode.parse text with
    | error f => simp [orProblem, Except.map, hparse]
    | ok e => simp [orProblem, Except.map, hparse, eq_comm]

section

variable {binary : String} {timeoutMs : Option Nat} {w : World} {r : RunRequest}

/-- The engine gives the summary of the report, and a summary only where there is a report. -/
theorem run_eq_ok {s : Summary} :
    (run binary timeoutMs w r).value.result = .ok s ↔
      ∃ status e, Leaves binary timeoutMs w r status e ∧ s = e.summary w.clock.started := by
  show outcome _ _ _ (w.runner (invocation binary timeoutMs w.scratch r)) = .ok s ↔ _
  unfold Leaves
  cases w.runner (invocation binary timeoutMs w.scratch r) with
  | unstaged activity reason => simp [outcome]
  | notFound => simp [outcome]
  | failed reason => simp [outcome]
  | unreadable status reason => simp [outcome]
  | ended status report =>
    cases report with
    | none => simp [outcome]
    | some report =>
      rw [outcome, readReport_eq_ok]
      constructor
      · rintro ⟨text, e, htext, hparse, hs⟩
        exact ⟨status, e, ⟨report, text, rfl, htext, hparse⟩, hs⟩
      · rintro ⟨_, e, ⟨report, text, hlaunch, htext, hparse⟩, hs⟩
        cases hlaunch
        exact ⟨text, e, htext, hparse, hs⟩

/-- The report that a result was read from. -/
theorem exists_leaves_of_result {s : Summary} {o : Outcome}
    (h : (runOnce (engine binary timeoutMs) w r).value.2.result = .ok (s, o)) :
    ∃ status e, Leaves binary timeoutMs w r status e ∧ s = e.summary w.clock.started ∧
      o = e.outcome := by
  obtain ⟨hrun, ho⟩ := run_of_result_runOnce h
  obtain ⟨status, e, hleaves, hs⟩ := run_eq_ok.mp hrun
  exact ⟨status, e, hleaves, hs, by rw [ho, hs, ofSummary_summary]⟩

/-- A call leaves one report. -/
theorem Leaves.unique {status status' : ExitStatus} {e e' : Export}
    (h : Leaves binary timeoutMs w r status e) (h' : Leaves binary timeoutMs w r status' e') :
    status = status' ∧ e = e' := by
  obtain ⟨report, text, hlaunch, htext, hparse⟩ := h
  obtain ⟨report', text', hlaunch', htext', hparse'⟩ := h'
  rw [hlaunch] at hlaunch'
  cases hlaunch'
  rw [htext] at htext'
  cases htext'
  rw [hparse] at hparse'
  cases hparse'
  exact ⟨rfl, rfl⟩

theorem result_of_leaves {status : ExitStatus} {e : Export}
    (h : Leaves binary timeoutMs w r status e) :
    (runOnce (engine binary timeoutMs) w r).value.2.result =
      ((e.summary w.clock.started).export? w.files r.jsonExport?).2.map
        fun _ => (e.summary w.clock.started, e.outcome) := by
  have hrun : ((engine binary timeoutMs).run w r).value.result = .ok (e.summary w.clock.started) :=
    run_eq_ok.mpr ⟨status, e, h, rfl⟩
  rw [result_runOnce_of_run hrun, ofSummary_summary]

end

/-! ## What decides the outcome -/

/-- A report that can be read gives a result, unless the summary cannot be exported: passed when it
lists no failure, else failed with as many as it lists. No run passes without such a report, and
none does that shows a failure, if a failure is listed whenever one is shown. The exit status plays
no part. -/
theorem runOnce_of_report (binary : String) (timeoutMs : Option Nat) (w : World) (r : RunRequest) :
    (∀ status e, Leaves binary timeoutMs w r status e →
      (runOnce (engine binary timeoutMs) w r).value.2.result =
        ((e.summary w.clock.started).export? w.files r.jsonExport?).2.map
          fun _ => (e.summary w.clock.started, e.outcome)) ∧
      (∀ s, (runOnce (engine binary timeoutMs) w r).value.2.result = .ok (s, .passed) →
        ∃ status e, Leaves binary timeoutMs w r status e ∧ s = e.summary w.clock.started ∧
          e.run.failures = []) ∧
      (∀ status e, Leaves binary timeoutMs w r status e →
        (status ≠ .code 0 ∨ e.showsFailure = true → e.run.failures ≠ []) →
          ∀ s, (runOnce (engine binary timeoutMs) w r).value.2.result = .ok (s, .passed) →
            status = .code 0 ∧ e.showsFailure = false) ∧
      ∀ (report : Bytes) (status status' : ExitStatus),
        runOnce (engine binary timeoutMs)
            { w with runner := fun _ => .ended status (some report) } r =
          runOnce (engine binary timeoutMs)
            { w with runner := fun _ => .ended status' (some report) } r := by
  have hpasses : ∀ s, (runOnce (engine binary timeoutMs) w r).value.2.result = .ok (s, .passed) →
      ∃ status e, Leaves binary timeoutMs w r status e ∧ s = e.summary w.clock.started ∧
        e.run.failures = [] := by
    intro s hpassed
    obtain ⟨status, e, hleaves, hs, houtcome⟩ := exists_leaves_of_result hpassed
    exact ⟨status, e, hleaves, hs, outcome_eq_passed.mp houtcome.symm⟩
  refine ⟨fun status e h => result_of_leaves h, hpasses, ?_, fun report status status' => rfl⟩
  intro status e hleaves hlists s hpassed
  obtain ⟨status', e', hleaves', -, hnone⟩ := hpasses s hpassed
  obtain ⟨-, rfl⟩ := hleaves.unique hleaves'
  have hshown : ¬ (status ≠ .code 0 ∨ e.showsFailure = true) := fun h => hlists h hnone
  rw [not_or, Classical.not_not, Bool.not_eq_true] at hshown
  exact hshown

/-- A report that counts a failed request and a failed assertion, has an execution with both, and
lists no failure. -/
def silentText : String :=
  "\x7b\"run\":\x7b" ++
    "\"stats\":\x7b\"requests\":\x7b\"failed\":1\x7d,\"assertions\":\x7b\"failed\":1\x7d\x7d," ++
    "\"executions\":[\x7b\"assertions\":[\x7b\"error\":\x7b\x7d\x7d]," ++
    "\"requestError\":\x7b\x7d\x7d]\x7d\x7d"

/-- A world in which the runner ends in an error and leaves that report. -/
def silentWorld : World where
  files := ⟨[], []⟩
  network := .unreachable
  runner := fun _ => .ended (.code 1) (some (toBytes silentText))
  clock := ⟨⟨0⟩, ⟨0⟩, fun _ => .zero⟩
  boundary := ""
  scratch := ""
  color := false

/-- Whether a report speaks of failures in both counts and in an execution, and lists none. -/
def Export.isSilent (e : Export) : Bool :=
  e.run.stats.requests.failed != 0 && e.run.stats.assertions.failed != 0 &&
    e.run.executions.any ExecutionInfo.showsFailure && e.run.failures.isEmpty

theorem exists_leaves_silentWorld (r : RunRequest) :
    ∃ e, Leaves "newman" none silentWorld r (.code 1) e ∧ e.isSilent = true := by
  have htext : ofBytes? (toBytes silentText) = some silentText :=
    Text.ofBytes?_toBytes silentText
  have hsilent : (Export.decode.parse silentText).toOption.any Export.isSilent = true := by
    decide +kernel
  cases hparse : Export.decode.parse silentText with
  | error f =>
    rw [hparse] at hsilent
    cases hsilent
  | ok e =>
    rw [hparse] at hsilent
    exact ⟨e, ⟨_, _, rfl, htext, hparse⟩, hsilent⟩

/-- A run may pass although the runner ended in an error, and both the counts and an execution of
its report speak of failures. -/
theorem passed_of_failed_report :
    ¬ ∀ (binary : String) (timeoutMs : Option Nat) (w : World) (r : RunRequest) (s : Summary),
      (runOnce (engine binary timeoutMs) w r).value.2.result = .ok (s, .passed) →
        ∀ status e, Leaves binary timeoutMs w r status e →
          status = .code 0 ∨ e.run.stats.requests.failed = 0 ∨
            e.run.stats.assertions.failed = 0 ∨ ∀ x ∈ e.run.executions, x.showsFailure = false := by
  intro h
  let r : RunRequest := ⟨{}, ⟨"", [], ""⟩, []⟩
  obtain ⟨e, hleaves, hsilent⟩ := exists_leaves_silentWorld r
  simp only [Export.isSilent, Bool.and_eq_true, bne_iff_ne, List.any_eq_true,
    List.isEmpty_iff] at hsilent
  obtain ⟨⟨⟨hrequests, hassertions⟩, x, hx, hshown⟩, hfailures⟩ := hsilent
  have hresult : (runOnce (engine "newman" none) silentWorld r).value.2.result =
      .ok (e.summary ⟨0⟩, .passed) := by
    rw [result_of_leaves hleaves, outcome_eq_passed.mpr hfailures]
    rfl
  rcases h _ _ _ _ _ hresult _ _ hleaves with hcode | hnone | hnone | hnone
  · cases hcode
  · exact hrequests hnone
  · exact hassertions hnone
  · rw [hnone x hx] at hshown
    cases hshown

end CollectionRunner.External
