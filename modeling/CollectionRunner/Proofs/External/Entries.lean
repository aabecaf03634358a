import CollectionRunner.Proofs.External.Reading

/-!
# The entries of a report

What becomes of the entries of a report, said of its document. Each execution and each failure of
the summary is made of one entry, in the order of the report, and members that are not known play no
part, wherever they stand. Main statement: `readSummary_entries`.
-/

namespace CollectionRunner.External

open Json Decoder Decimal

/-! ## What an entry stands for -/

/-- The entries of a list of the run. -/
def entriesOf (report : Document) (key : String) : List Document :=
  (report.at? Export.shape "run").elim [] fun run => run.itemsAt RunInfo.shape key

/-- The address that the request of an entry has, if its value stands for one. -/
def addressOf? (entry : Document) : Option RequestUrl :=
  ((entry.at? ExecutionInfo.shape "request").bind fun r => r.givenAt? RequestInfo.shape "url").bind
    fun u => RequestUrl.ofValue? u.held.canonical

/-- The assertion that an entry stands for. -/
def assertionOf (entry : Document) : AssertionResult where
  name := (entry.at? AssertionInfo.shape "assertion").elim "" Document.text
  passed := (entry.givenAt? AssertionInfo.shape "error").isNone
  message := (entry.givenAt? AssertionInfo.shape "error").bind fun e =>
    e.textAt? ErrorInfo.shape "message"

/-- The execution that an entry stands for. -/
def executionOf (entry : Document) : Execution :=
  let request := entry.at? ExecutionInfo.shape "request"
  let response := entry.givenAt? ExecutionInfo.shape "response"
  { item := ((entry.at? ExecutionInfo.shape "item").bind fun n =>
      n.textAt? Named.shape "name").getD ""
    method := (request.bind fun r => r.textAt? RequestInfo.shape "method").getD ""
    url := (addressOf? entry).elim "" RequestUrl.raw
    status := (response.bind fun r => r.givenAt? ResponseInfo.shape "code").map fun n =>
      n.whole.toNat
    durationMs := ((response.bind fun r => r.givenAt? ResponseInfo.shape "responseTime").map
      Document.float).getD .zero
    responseBytes := (response.bind fun r => r.givenAt? ResponseInfo.shape "responseSize").map
      fun n => n.whole.toNat
    assertions := (entry.itemsAt ExecutionInfo.shape "assertions").map assertionOf
    error := (entry.givenAt? ExecutionInfo.shape "requestError").bind fun e =>
      e.textAt? ErrorInfo.shape "message" }

/-- The failure that an entry stands for. -/
def failureOf (entry : Document) : Failure :=
  let error := entry.at? FailureInfo.shape "error"
  { source := ((entry.givenAt? FailureInfo.shape "source").bind fun n =>
      n.textAt? Named.shape "name").getD "<unknown>"
    place := (entry.textAt? FailureInfo.shape "at").getD ""
    error := {
      name := (error.bind fun e => e.textAt? ErrorInfo.shape "name").getD "Error"
      test := error.bind fun e => e.textAt? ErrorInfo.shape "test"
      message := (error.bind fun e => e.textAt? ErrorInfo.shape "message").getD "" } }

theorem AssertionInfo.result_ofDocument (entry : Document) :
    (ofDocument entry).result = assertionOf entry := by
  simp only [result, ofDocument, assertionOf]
  cases entry.givenAt? shape "error" <;> rfl

theorem ExecutionInfo.execution_ofDocument (entry : Document) :
    (ofDocument entry).execution = executionOf entry := by
  have hassertions : ((entry.itemsAt shape "assertions").map AssertionInfo.ofDocument).map
      AssertionInfo.result = (entry.itemsAt shape "assertions").map assertionOf := by
    rw [List.map_map]
    exact List.map_congr_left fun a _ => AssertionInfo.result_ofDocument a
  have hurl : ((ofDocument entry).request).urlText = (addressOf? entry).elim "" RequestUrl.raw := by
    simp only [RequestInfo.urlText, ofDocument, addressOf?]
    cases entry.at? shape "request" with
    | none => rfl
    | some r =>
      simp only [Option.elim, RequestInfo.ofDocument, Option.bind_some]
      cases r.givenAt? RequestInfo.shape "url" with
      | none => rfl
      | some u => cases hu : RequestUrl.ofValue? u.held.canonical <;> simp [hu]
  simp only [execution, executionOf, hurl, ← hassertions]
  simp only [ofDocument]
  cases entry.at? shape "item" <;> cases entry.at? shape "request" <;>
    cases entry.givenAt? shape "response" <;> cases entry.givenAt? shape "requestError" <;> rfl

theorem FailureInfo.failure_ofDocument (entry : Document) :
    (ofDocument entry).failure = failureOf entry := by
  simp only [failure, ofDocument, failureOf]
  cases entry.at? shape "error" <;> cases entry.givenAt? shape "source" <;> rfl

/-! ## The summary of a report -/

theorem readSummary_eq_ok {now : Instant} {text : String} {s : Summary} :
    readSummary now text = .ok s ↔ ∃ e, Export.decode.parse text = .ok e ∧ s = e.summary now := by
  rw [readSummary]
  cases hparse : Export.decode.parse text with
  | error f => simp [orProblem, Except.map]
  | ok e => simp [orProblem, Except.map, eq_comm]

/-- A report that is accepted is read in the document of its text. -/
theorem eq_ofDocument_of_parse {text : String} {e : Export} (h : Export.decode.parse text = .ok e) :
    e = Export.ofDocument (Page.ofText text).document := by
  obtain ⟨b, hb, hend⟩ := exists_of_bind_eq_ok h
  split at hend
  · cases hend
    exact Export.yields _ _ _ hb
  · cases hend

theorem executions_summary (now : Instant) (report : Document) :
    ((Export.ofDocument report).summary now).executions =
      (entriesOf report "executions").map executionOf := by
  have hentries : (Export.ofDocument report).run.executions =
      (entriesOf report "executions").map ExecutionInfo.ofDocument := by
    rw [Export.ofDocument, entriesOf]
    cases report.at? Export.shape "run" <;> rfl
  rw [Export.summary, hentries, List.map_map]
  exact List.map_congr_left fun d _ => ExecutionInfo.execution_ofDocument d

theorem failures_summary (now : Instant) (report : Document) :
    ((Export.ofDocument report).summary now).failures =
      (entriesOf report "failures").map failureOf := by
  have hentries : (Export.ofDocument report).run.failures =
      (entriesOf report "failures").map FailureInfo.ofDocument := by
    rw [Export.ofDocument, entriesOf]
    cases report.at? Export.shape "run" <;> rfl
  rw [Export.summary, hentries, List.map_map]
  exact List.map_congr_left fun d _ => FailureInfo.failure_ofDocument d

/-- Two texts of values that differ in members only that are not known are read alike, whenever a
run whose start is not given started. -/
theorem readSummary_of_known {text text' : String} {v v' : Value}
    (hv : written.parse text = .ok v) (hv' : written.parse text' = .ok v')
    (hknown : Export.shape.known v = Export.shape.known v') (now : Instant) :
    readSummary now text = readSummary now text' := by
  rw [readSummary, readSummary, Export.sees.parse_eq hv hv' hknown]

/-- The indented text of a value is read as the value is. -/
theorem readSummary_pretty {v : Value} (hwhole : v.Whole) {e : Export}
    (h : Export.decode maxDepth v.document = .ok e) (now : Instant) :
    readSummary now v.pretty = .ok ((Export.ofDocument v.document).summary now) := by
  obtain rfl := Export.yields _ _ _ h
  rw [readSummary, Decoder.parse, Page.ofText_pretty hwhole]
  simp only [h]
  rfl

/-- The time now counts for the start of a run only. -/
theorem readSummary_now (now now' : Instant) (text : String) :
    ((readSummary now text).map fun s => { s with started := now }) =
      (readSummary now' text).map fun s => { s with started := now } := by
  rw [readSummary, readSummary]
  cases Export.decode.parse text <;> rfl

/-- A report that is accepted has one execution for each entry of its executions and one failure for
each entry of its failures, in the order of the report, each of them made of its own entry: an
assertion passes when its error is absent or null, and the text of an address is the one that its
value stands for, or empty. There are as many failures as entries. And texts of values that differ
only in members that are not known, at any depth outside the addresses, are accepted or refused
alike and give the same summary, the time now apart, which counts for the start of the run only. -/
theorem readSummary_entries (now : Instant) (text : String) :
    (∀ s, readSummary now text = .ok s →
      s.executions = (entriesOf (Page.ofText text).document "executions").map executionOf ∧
        s.failures = (entriesOf (Page.ofText text).document "failures").map failureOf ∧
        s.failureCount = (entriesOf (Page.ofText text).document "failures").length) ∧
      (∀ entry, ((assertionOf entry).passed = true ↔
        entry.at? AssertionInfo.shape "error" = none ∨
          entry.at? AssertionInfo.shape "error" = some .null)) ∧
      (∀ entry, (∀ address, addressOf? entry = some address →
          (executionOf entry).url = address.raw) ∧
        (addressOf? entry = none → (executionOf entry).url = "")) ∧
      ∀ text' v v', written.parse text = .ok v → written.parse text' = .ok v' →
        Export.shape.known v = Export.shape.known v' →
          readSummary now text = readSummary now text' ∧
            ∀ now', ((readSummary now text).map fun s => { s with started := now }) =
              (readSummary now' text').map fun s => { s with started := now } := by
  refine ⟨fun s h => ?_, fun entry => ?_, fun entry => ?_, fun text' v v' hv hv' hknown => ?_⟩
  · obtain ⟨e, hparse, rfl⟩ := readSummary_eq_ok.mp h
    rw [eq_ofDocument_of_parse hparse]
    refine ⟨executions_summary _ _, failures_summary _ _, ?_⟩
    rw [Summary.failureCount, failures_summary, List.length_map]
  · rw [← Document.givenAt?_eq_none]
    exact Option.isNone_iff_eq_none
  · refine ⟨fun address h => ?_, fun h => ?_⟩
    · rw [executionOf, h]
      rfl
    · rw [executionOf, h]
      rfl
  · have hsame := readSummary_of_known hv hv' hknown now
    refine ⟨hsame, fun now' => ?_⟩
    rw [hsame]
    exact readSummary_now now now' text'

/-- A report with members that are not known, one of them in an entry and one in an error. -/
def strangeReport : Value :=
  .object [("run", .object [("executions", .array
    [.object [("cursor", .array []), ("assertions", .array [.object [("assertion", .string "t"),
      ("error", .null)]])],
    .object [("requestError", .object [("errno", .string "E"), ("message", .string "m")])]])])]

/-- The report without them. -/
def plainReport : Value :=
  .object [("run", .object [("executions", .array
    [.object [("assertions", .array [.object [("assertion", .string "t"), ("error", .null)]])],
    .object [("requestError", .object [("message", .string "m")])]])])]

theorem readSummary_entries_strangeReport :
    ∃ s, readSummary ⟨0⟩ strangeReport.pretty = .ok s ∧
      s.executions = [⟨"", "", "", none, .zero, none, [⟨"t", true, none⟩], none⟩,
        ⟨"", "", "", none, .zero, none, [], some "m"⟩] ∧
      written.parse strangeReport.pretty = .ok strangeReport ∧
      written.parse plainReport.pretty = .ok plainReport ∧
      Export.shape.known strangeReport = Export.shape.known plainReport ∧
      readSummary ⟨0⟩ plainReport.pretty = .ok s := by
  have hwhole : strangeReport.Whole := by
    simp [strangeReport, Value.Whole, Value.ItemsWhole, Value.MembersWhole]
  have hwhole' : plainReport.Whole := by
    simp [plainReport, Value.Whole, Value.ItemsWhole, Value.MembersWhole]
  have hread := readSummary_pretty hwhole (e := Export.ofDocument strangeReport.document) rfl ⟨0⟩
  have hv := parse_pretty hwhole (by decide)
  have hv' := parse_pretty hwhole' (by decide)
  have hknown : Export.shape.known strangeReport = Export.shape.known plainReport := rfl
  obtain ⟨hentries, -, -, hsame⟩ := readSummary_entries ⟨0⟩ strangeReport.pretty
  obtain ⟨hexecutions, -, -⟩ := hentries _ hread
  rw [Page.ofText_pretty hwhole] at hexecutions
  refine ⟨_, hread, hexecutions.trans rfl, hv, hv', hknown, ?_⟩
  rw [← (hsame _ _ _ hv hv' hknown).1]
  exact hread

end CollectionRunner.External
