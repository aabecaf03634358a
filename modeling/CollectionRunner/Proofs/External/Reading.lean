import CollectionRunner.Proofs.External.Known

/-!
# What is read in a report

Each record of a report, as the documents of its members give it. A reader that accepts a report
yields just that. Main statement: `Export.yields`.
-/

namespace CollectionRunner.External

open Json Decoder

/-- What each member of something with a name puts into it. -/
def Named.parts : List (String × (Document → Named → Named)) :=
  [("name", fun d n => { n with name := d.given?.map Document.text })]

/-- Something with a name. -/
def Named.ofDocument (d : Document) : Named := ⟨d.textAt? shape "name"⟩

theorem Named.yields : Yields decode ofDocument := by
  refine Parts.yields (?_ : Parts _ parts) shape rfl (fun d => ?_) _
  · exact ⟨.cons (Slot.puts_of yields_string.optional _) .nil, by decide, by simp [parts]⟩
  · simp only [parts, fill, ofDocument, Document.textAt?, Document.givenAt?]
    cases d.at? shape "name" <;> rfl

/-- What each member of an error puts into it. -/
def ErrorInfo.parts : List (String × (Document → ErrorInfo → ErrorInfo)) :=
  [("name", fun d e => { e with name := d.given?.map Document.text }),
    ("test", fun d e => { e with test := d.given?.map Document.text }),
    ("message", fun d e => { e with message := d.given?.map Document.text })]

/-- An error. -/
def ErrorInfo.ofDocument (d : Document) : ErrorInfo :=
  ⟨d.textAt? shape "name", d.textAt? shape "test", d.textAt? shape "message"⟩

theorem ErrorInfo.yields : Yields decode ofDocument := by
  refine Parts.yields (?_ : Parts _ parts) shape rfl (fun d => ?_) _
  · refine ⟨.cons ?_ (.cons ?_ (.cons ?_ .nil)), by decide, by simp [parts]⟩
    · exact Slot.puts_of yields_string.optional _
    · exact Slot.puts_of yields_string.optional _
    · exact Slot.puts_of yields_string.optional _
  · simp only [parts, fill, ofDocument, Document.textAt?, Document.givenAt?]
    cases d.at? shape "name" <;> cases d.at? shape "test" <;> cases d.at? shape "message" <;> rfl

/-- What each member of an assertion puts into it. -/
def AssertionInfo.parts : List (String × (Document → AssertionInfo → AssertionInfo)) :=
  [("assertion", fun d a => { a with assertion := d.text }),
    ("error", fun d a => { a with error := d.given?.map ErrorInfo.ofDocument })]

/-- An assertion. -/
def AssertionInfo.ofDocument (d : Document) : AssertionInfo :=
  ⟨(d.at? shape "assertion").elim "" Document.text,
    (d.givenAt? shape "error").map ErrorInfo.ofDocument⟩

theorem AssertionInfo.yields : Yields decode ofDocument := by
  refine Parts.yields (?_ : Parts _ parts) shape rfl (fun d => ?_) _
  · refine ⟨.cons ?_ (.cons ?_ .nil), by decide, by simp [parts]⟩
    · exact Slot.puts_of yields_string _
    · exact Slot.puts_of ErrorInfo.yields.optional _
  · simp only [parts, fill, ofDocument, Document.givenAt?]
    cases d.at? shape "assertion" <;> cases d.at? shape "error" <;> rfl

/-- What each member of a request puts into it. -/
def RequestInfo.parts : List (String × (Document → RequestInfo → RequestInfo)) :=
  [("method", fun d r => { r with method := d.given?.map Document.text }),
    ("url", fun d r => { r with url := d.given?.map fun u => u.held.canonical })]

/-- A request. -/
def RequestInfo.ofDocument (d : Document) : RequestInfo :=
  ⟨d.textAt? shape "method", (d.givenAt? shape "url").map fun u => u.held.canonical⟩

theorem RequestInfo.yields : Yields decode ofDocument := by
  refine Parts.yields (?_ : Parts _ parts) shape rfl (fun d => ?_) _
  · refine ⟨.cons ?_ (.cons ?_ .nil), by decide, by simp [parts]⟩
    · exact Slot.puts_of yields_string.optional _
    · exact Slot.puts_of yields_value.optional _
  · simp only [parts, fill, ofDocument, Document.textAt?, Document.givenAt?]
    cases d.at? shape "method" <;> cases d.at? shape "url" <;> rfl

/-- What each member of a response puts into it. -/
def ResponseInfo.parts : List (String × (Document → ResponseInfo → ResponseInfo)) :=
  [("code", fun d r => { r with code := d.given?.map fun n => n.whole.toNat }),
    ("responseTime", fun d r => { r with responseTime := d.given?.map Document.float }),
    ("responseSize", fun d r => { r with responseSize := d.given?.map fun n => n.whole.toNat })]

/-- A response. -/
def ResponseInfo.ofDocument (d : Document) : ResponseInfo :=
  ⟨(d.givenAt? shape "code").map fun n => n.whole.toNat,
    (d.givenAt? shape "responseTime").map Document.float,
    (d.givenAt? shape "responseSize").map fun n => n.whole.toNat⟩

theorem ResponseInfo.yields : Yields decode ofDocument := by
  refine Parts.yields (?_ : Parts _ parts) shape rfl (fun d => ?_) _
  · refine ⟨.cons ?_ (.cons ?_ (.cons ?_ .nil)), by decide, by simp [parts]⟩
    · exact Slot.puts_of (yields_nat _).optional _
    · exact Slot.puts_of yields_binary64.optional _
    · exact Slot.puts_of (yields_nat _).optional _
  · simp only [parts, fill, ofDocument, Document.givenAt?]
    cases d.at? shape "code" <;> cases d.at? shape "responseTime" <;>
      cases d.at? shape "responseSize" <;> rfl

/-- What each member of an execution puts into it. -/
def ExecutionInfo.parts : List (String × (Document → ExecutionInfo → ExecutionInfo)) :=
  [("item", fun d e => { e with item := Named.ofDocument d }),
    ("request", fun d e => { e with request := RequestInfo.ofDocument d }),
    ("response", fun d e => { e with response := d.given?.map ResponseInfo.ofDocument }),
    ("assertions", fun d e => { e with assertions := d.items.map AssertionInfo.ofDocument }),
    ("requestError", fun d e => { e with requestError := d.given?.map ErrorInfo.ofDocument })]

/-- What became of a request. -/
def ExecutionInfo.ofDocument (d : Document) : ExecutionInfo :=
  ⟨(d.at? shape "item").elim {} Named.ofDocument,
    (d.at? shape "request").elim {} RequestInfo.ofDocument,
    (d.givenAt? shape "response").map ResponseInfo.ofDocument,
    (d.itemsAt shape "assertions").map AssertionInfo.ofDocument,
    (d.givenAt? shape "requestError").map ErrorInfo.ofDocument⟩

theorem ExecutionInfo.yields : Yields decode ofDocument := by
  refine Parts.yields (?_ : Parts _ parts) shape rfl (fun d => ?_) _
  · refine ⟨.cons ?_ (.cons ?_ (.cons ?_ (.cons ?_ (.cons ?_ .nil)))), by decide, by simp [parts]⟩
    · exact Slot.puts_of Named.yields _
    · exact Slot.puts_of RequestInfo.yields _
    · exact Slot.puts_of ResponseInfo.yields.optional _
    · exact Slot.puts_of AssertionInfo.yields.array _
    · exact Slot.puts_of ErrorInfo.yields.optional _
  · simp only [parts, fill, ofDocument, Document.itemsAt, Document.givenAt?]
    cases d.at? shape "item" <;> cases d.at? shape "request" <;> cases d.at? shape "response" <;>
      cases d.at? shape "assertions" <;> cases d.at? shape "requestError" <;> rfl

/-- What each member of a failure puts into it. -/
def FailureInfo.parts : List (String × (Document → FailureInfo → FailureInfo)) :=
  [("error", fun d f => { f with error := ErrorInfo.ofDocument d }),
    ("source", fun d f => { f with source := d.given?.map Named.ofDocument }),
    ("at", fun d f => { f with place := d.given?.map Document.text })]

/-- A failure. -/
def FailureInfo.ofDocument (d : Document) : FailureInfo :=
  ⟨(d.at? shape "error").elim {} ErrorInfo.ofDocument,
    (d.givenAt? shape "source").map Named.ofDocument, d.textAt? shape "at"⟩

theorem FailureInfo.yields : Yields decode ofDocument := by
  refine Parts.yields (?_ : Parts _ parts) shape rfl (fun d => ?_) _
  · refine ⟨.cons ?_ (.cons ?_ (.cons ?_ .nil)), by decide, by simp [parts]⟩
    · exact Slot.puts_of ErrorInfo.yields _
    · exact Slot.puts_of Named.yields.optional _
    · exact Slot.puts_of yields_string.optional _
  · simp only [parts, fill, ofDocument, Document.textAt?, Document.givenAt?]
    cases d.at? shape "error" <;> cases d.at? shape "source" <;> cases d.at? shape "at" <;> rfl

/-- What each member of a counter puts into it. -/
def counterParts : List (String × (Document → Counter → Counter)) :=
  [("total", fun d c => { c with total := d.whole.toNat }),
    ("failed", fun d c => { c with failed := d.whole.toNat })]

/-- A counter. -/
def counterOf (d : Document) : Counter :=
  ⟨(d.at? counterShape "total").elim 0 fun n => n.whole.toNat,
    (d.at? counterShape "failed").elim 0 fun n => n.whole.toNat⟩

theorem yields_counter : Yields counter counterOf := by
  refine Parts.yields (?_ : Parts _ counterParts) counterShape rfl (fun d => ?_) _
  · refine ⟨.cons ?_ (.cons ?_ .nil), by decide, by simp [counterParts]⟩
    · exact Slot.puts_of (yields_nat _) _
    · exact Slot.puts_of (yields_nat _) _
  · simp only [counterParts, fill, counterOf]
    cases d.at? counterShape "total" <;> cases d.at? counterShape "failed" <;> rfl

/-- What each member of the counts of a run puts into them. -/
def statsParts : List (String × (Document → Stats → Stats)) :=
  [("requests", fun d s => { s with requests := counterOf d }),
    ("assertions", fun d s => { s with assertions := counterOf d })]

/-- The counts of a run. -/
def statsOf (d : Document) : Stats :=
  ⟨(d.at? statsShape "requests").elim {} counterOf,
    (d.at? statsShape "assertions").elim {} counterOf⟩

theorem yields_stats : Yields stats statsOf := by
  refine Parts.yields (?_ : Parts _ statsParts) statsShape rfl (fun d => ?_) _
  · refine ⟨.cons ?_ (.cons ?_ .nil), by decide, by simp [statsParts]⟩
    · exact Slot.puts_of yields_counter _
    · exact Slot.puts_of yields_counter _
  · simp only [statsParts, fill, statsOf]
    cases d.at? statsShape "requests" <;> cases d.at? statsShape "assertions" <;> rfl

/-- What each member of the times of a run puts into them. -/
def Timings.parts : List (String × (Document → Timings → Timings)) :=
  [("started", fun d t => { t with started := d.given?.map Document.whole }),
    ("completed", fun d t => { t with completed := d.given?.map Document.whole })]

/-- The start and the end of a run. -/
def Timings.ofDocument (d : Document) : Timings :=
  ⟨(d.givenAt? shape "started").map Document.whole,
    (d.givenAt? shape "completed").map Document.whole⟩

theorem Timings.yields : Yields decode ofDocument := by
  refine Parts.yields (?_ : Parts _ parts) shape rfl (fun d => ?_) _
  · refine ⟨.cons ?_ (.cons ?_ .nil), by decide, by simp [parts]⟩
    · exact Slot.puts_of (yields_int _ _).optional _
    · exact Slot.puts_of (yields_int _ _).optional _
  · simp only [parts, fill, ofDocument, Document.givenAt?]
    cases d.at? shape "started" <;> cases d.at? shape "completed" <;> rfl

/-- What each member of a run puts into it. -/
def RunInfo.parts : List (String × (Document → RunInfo → RunInfo)) :=
  [("stats", fun d r => { r with stats := statsOf d }),
    ("executions", fun d r => { r with executions := d.items.map ExecutionInfo.ofDocument }),
    ("failures", fun d r => { r with failures := d.items.map FailureInfo.ofDocument }),
    ("timings", fun d r => { r with timings := Timings.ofDocument d })]

/-- A run. -/
def RunInfo.ofDocument (d : Document) : RunInfo :=
  ⟨(d.at? shape "stats").elim {} statsOf,
    (d.itemsAt shape "executions").map ExecutionInfo.ofDocument,
    (d.itemsAt shape "failures").map FailureInfo.ofDocument,
    (d.at? shape "timings").elim {} Timings.ofDocument⟩

theorem RunInfo.yields : Yields decode ofDocument := by
  refine Parts.yields (?_ : Parts _ parts) shape rfl (fun d => ?_) _
  · refine ⟨.cons ?_ (.cons ?_ (.cons ?_ (.cons ?_ .nil))), by decide, by simp [parts]⟩
    · exact Slot.puts_of yields_stats _
    · exact Slot.puts_of ExecutionInfo.yields.array _
    · exact Slot.puts_of FailureInfo.yields.array _
    · exact Slot.puts_of Timings.yields _
  · simp only [parts, fill, ofDocument, Document.itemsAt]
    cases d.at? shape "stats" <;> cases d.at? shape "executions" <;>
      cases d.at? shape "failures" <;> cases d.at? shape "timings" <;> rfl

/-- What each member of the collection of a report puts into it. -/
def CollectionRef.parts : List (String × (Document → CollectionRef → CollectionRef)) :=
  [("info", fun d c => { c with info := Named.ofDocument d })]

/-- The collection of a report. -/
def CollectionRef.ofDocument (d : Document) : CollectionRef :=
  ⟨(d.at? shape "info").elim {} Named.ofDocument⟩

theorem CollectionRef.yields : Yields decode ofDocument := by
  refine Parts.yields (?_ : Parts _ parts) shape rfl (fun d => ?_) _
  · exact ⟨.cons (Slot.puts_of Named.yields _) .nil, by decide, by simp [parts]⟩
  · simp only [parts, fill, ofDocument]
    cases d.at? shape "info" <;> rfl

/-- What each member of a report puts into it. -/
def Export.parts : List (String × (Document → Export → Export)) :=
  [("collection", fun d e => { e with collection := CollectionRef.ofDocument d }),
    ("run", fun d e => { e with run := RunInfo.ofDocument d })]

/-- A report. -/
def Export.ofDocument (d : Document) : Export :=
  ⟨(d.at? shape "collection").elim {} CollectionRef.ofDocument,
    (d.at? shape "run").elim {} RunInfo.ofDocument⟩

/-- What is accepted as a report is read as its document gives it. -/
theorem Export.yields : Yields decode ofDocument := by
  refine Parts.yields (?_ : Parts _ parts) shape rfl (fun d => ?_) _
  · refine ⟨.cons ?_ (.cons ?_ .nil), by decide, by simp [parts]⟩
    · exact Slot.puts_of CollectionRef.yields _
    · exact Slot.puts_of RunInfo.yields _
  · simp only [parts, fill, ofDocument]
    cases d.at? shape "collection" <;> cases d.at? shape "run" <;> rfl

end CollectionRunner.External
