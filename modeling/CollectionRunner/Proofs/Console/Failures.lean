import CollectionRunner.Proofs.Console.Colour
import CollectionRunner.Proofs.Run.Recording

/-!
# What is printed of failures

A failure is seen at four places: as a line with the mark of a failure below the request that it
belongs to, in the counts of the table, as a numbered entry of the list behind the table, and in the
message at the end. Lines are read back: which of them has the mark (`isFailureLine`), what number
stands in the last column of a row (`failedColumn?`), which of them starts a numbered entry and what
number it has (`entryNumber?`), and what belongs to an entry (`entriesOf`). All places show the
failures that the summary lists. Main statement: `failures_printed`.
-/

namespace CollectionRunner.Console

open Text Decimal Json

/-! ## Lines with the mark of a failure -/

/-- The mark of a failure in front of a text. -/
def failureMark (color : Bool) : List Char := marked color .red '✗' []

/-- A line starts with the mark of a failure. -/
def isFailureLine (color : Bool) (line : List Char) : Bool := (failureMark color).isPrefixOf line

/-- The lines with the mark of a failure below the first two lines of an execution, which name the
item and the request. -/
def failureLinesOf (color : Bool) (e : Execution) : List (List Char) :=
  ((executionLines color e).drop 2).filter (isFailureLine color)

/-- A method looks like the mark of a failure. -/
def LooksMarked (method : String) : Prop := ['✗', ' '] <+: method.toList ++ [' ']

theorem isFailureLine_marked (color : Bool) (text : List Char) :
    isFailureLine color (marked color .red '✗' text) = true := by
  refine List.isPrefixOf_iff_prefix.mpr ⟨text, ?_⟩
  simp [failureMark, marked]

theorem isFailureLine_assertionLine (color : Bool) (a : AssertionResult) :
    isFailureLine color (assertionLine color a) = !a.passed := by
  unfold assertionLine
  cases a.passed with
  | false => exact isFailureLine_marked color _
  | true => cases color <;> rfl

theorem isFailureLine_itemLine (color : Bool) (e : Execution) :
    isFailureLine color (paint color .dimmed ['→'] ++ ' ' :: paint color .bold e.item.toList) =
      false := by
  cases color <;> rfl

theorem isFailureLine_requestLine {color : Bool} {e : Execution}
    (h : color = true ∨ ¬ LooksMarked e.method) :
    isFailureLine color (requestLine color e) = false := by
  obtain ⟨back, hline⟩ : ∃ back, requestLine color e =
      ' ' :: ' ' :: (paint color .bold e.method.toList ++ ' ' :: back) := by
    unfold requestLine
    cases e.status with
    | none => exact ⟨_, rfl⟩
    | some status => exact ⟨_, by simp only [List.cons_append, List.append_assoc]; rfl⟩
  rw [hline]
  cases color with
  | true => rfl
  | false =>
    have hplain : ¬ LooksMarked e.method := h.resolve_left (by decide)
    rw [paint_plain, ← Bool.not_eq_true]
    intro hmark
    have hstart : ['✗', ' '] <+: e.method.toList ++ ' ' :: back := by
      have hprefix := List.isPrefixOf_iff_prefix.mp hmark
      exact (List.prefix_cons_inj _).mp ((List.prefix_cons_inj _).mp hprefix)
    have hmethod : e.method.toList ++ [' '] <+: e.method.toList ++ ' ' :: back :=
      ⟨back, by simp⟩
    -- both are at the start of the line, so the shorter one starts the longer one
    cases hchars : e.method.toList with
    | nil =>
      rw [hchars] at hstart
      have hfirst := (List.cons_prefix_cons.mp hstart).1
      exact absurd hfirst (by decide)
    | cons c cs =>
      refine hplain (List.prefix_of_prefix_length_le hstart hmethod ?_)
      rw [hchars]
      simp

/-- The lines with the mark are as many as the failures of the execution. -/
theorem length_failureLinesOf (color : Bool) (e : Execution) :
    (failureLinesOf color e).length = e.failures.length := by
  have herror : ((errorLines color e).filter (isFailureLine color)).length =
      if e.error.isSome then 1 else 0 := by
    unfold errorLines
    cases e.error with
    | none => rfl
    | some message => simp [isFailureLine_marked]
  have hassertions : ((e.assertions.map (assertionLine color)).filter
      (isFailureLine color)).length = e.failedAssertions := by
    rw [← List.countP_eq_length_filter, List.countP_map, Execution.failedAssertions]
    exact List.countP_congr fun a _ => by simp [isFailureLine_assertionLine]
  rw [Execution.length_failures, ← herror, ← hassertions, ← List.length_append,
    ← List.filter_append]
  rfl

/-- The first two lines of an execution have no mark, unless the method looks like one. -/
theorem filter_executionLines {color : Bool} {e : Execution}
    (h : color = true ∨ ¬ LooksMarked e.method) :
    (executionLines color e).filter (isFailureLine color) = failureLinesOf color e := by
  have hitem := isFailureLine_itemLine color e
  have hrequest := isFailureLine_requestLine h
  rw [executionLines, List.cons_append, List.cons_append, List.filter_cons_of_neg (by simp [hitem]),
    List.filter_cons_of_neg (by simp [hrequest])]
  rfl

/-! ## Rows of the table -/

/-- The number in a cell: behind spaces there are digits alone, painted or not. -/
def cellNumber? (cell : List Char) : Option Nat :=
  let digits := (withoutColours cell).dropWhile (· == ' ')
  if !digits.isEmpty && digits.all Char.isDigit then some (Nat.ofDigitChars 10 digits 0) else none

/-- The number in the last column of a row that counts `total` in all: behind the fourteen
characters of the name and the cell of the total, which is ten characters wide or as wide as the
number. -/
def failedColumn? (total : Nat) (row : List Char) : Option Nat :=
  cellNumber? (row.drop (14 + max 10 (natDigits total).length))

theorem dropWhile_spaces_natDigits {spaces : List Char} (h : ∀ c ∈ spaces, (c == ' ') = true)
    (n : Nat) (s : List Char) :
    (spaces ++ (natDigits n ++ s)).dropWhile (· == ' ') = natDigits n ++ s := by
  obtain ⟨c, ds, hdigits, hc⟩ := exists_of_natDigits n
  have hfirst : (c == ' ') = false := beq_eq_false_iff_ne.mpr (ne_of_isDigit hc rfl)
  rw [List.dropWhile_append_of_pos h, hdigits, List.cons_append, List.dropWhile_cons, hfirst]
  rfl

theorem eq_space_of_mem_fill {width : Nat} {cell : List Char} :
    ∀ c ∈ fill width cell, (c == ' ') = true := by
  intro c hc
  rw [List.eq_of_mem_replicate hc]
  rfl

/-- A count is painted or not, and in front of it there are spaces. -/
theorem exists_withoutColours_failedCount (color : Bool) (n : Nat) :
    ∃ spaces, withoutColours (padLeft 10 (failedCount color n)) = spaces ++ natDigits n ∧
      ∀ c ∈ spaces, (c == ' ') = true := by
  have hplain : withoutColours (padLeft 10 (natDigits n)) = fill 10 (natDigits n) ++ natDigits n :=
    (ReadsAs.of_noEscape (.padLeft 10 (.natDigits n))).withoutColours_eq
  unfold failedCount
  split
  · cases color with
    | false => exact ⟨_, hplain, eq_space_of_mem_fill⟩
    | true =>
      -- the colour sequences fill the column
      refine ⟨[], ?_, fun c hc => absurd hc List.not_mem_nil⟩
      rw [padLeft_paint_natDigits]
      exact (ReadsAs.paint .red (.natDigits n)).withoutColours_eq
  · exact ⟨_, hplain, eq_space_of_mem_fill⟩

theorem cellNumber?_failedCount (color : Bool) (n : Nat) :
    cellNumber? (padLeft 10 (failedCount color n)) = some n := by
  obtain ⟨spaces, hcell, hspaces⟩ := exists_withoutColours_failedCount color n
  have hdrop := dropWhile_spaces_natDigits hspaces n []
  rw [List.append_nil] at hdrop
  have hdigits := isDigits_natDigits n
  simp only [cellNumber?, hcell, hdrop, hdigits.isEmpty, List.all_eq_true.mpr hdigits.2]
  rw [Bool.not_false, Bool.and_true, if_pos rfl, ofDigitChars_natDigits]

/-- The last column of a row holds the count of what failed. -/
theorem failedColumn?_counterLine (color : Bool) {name : String} (h : name.toList.length ≤ 14)
    (c : Counter) : failedColumn? c.total (counterLine color name c) = some c.failed := by
  have hfront : (padRight 14 name.toList ++ padLeft 10 (natDigits c.total)).length =
      14 + max 10 (natDigits c.total).length := by
    rw [List.length_append, length_padRight, length_padLeft, Nat.max_eq_left h]
  rw [failedColumn?, counterLine, ← hfront, List.drop_left]
  exact cellNumber?_failedCount color c.failed

/-! ## Numbered lines -/

/-- The number of a line that starts an entry: behind at most two spaces there are digits, and then
a point and a space. -/
def entryNumber? (line : List Char) : Option Nat :=
  let body := line.dropWhile (· == ' ')
  let digits := body.takeWhile Char.isDigit
  if line.length ≤ body.length + 2 ∧ digits ≠ [] ∧ ['.', ' '] <+: body.dropWhile Char.isDigit then
    some (Nat.ofDigitChars 10 digits 0)
  else none

theorem entryNumber?_of_space (s : List Char) :
    entryNumber? (' ' :: ' ' :: ' ' :: s) = none := by
  have hshort : (s.dropWhile (· == ' ')).length ≤ s.length := by
    exact (List.dropWhile_suffix _).length_le
  refine if_neg ?_
  rintro ⟨hlength, -⟩
  have hdrop : (' ' :: ' ' :: ' ' :: s).dropWhile (· == ' ') = s.dropWhile (· == ' ') := rfl
  rw [hdrop] at hlength
  simp only [List.length_cons] at hlength
  omega

theorem entryNumber?_of_not_isDigit {line : List Char}
    (h : (line.dropWhile (· == ' ')).takeWhile Char.isDigit = []) : entryNumber? line = none :=
  if_neg fun ⟨_, hdigits, _⟩ => hdigits h

/-- The line that a failure starts with has its number. -/
theorem entryNumber?_numbered (n : Nat) (s : List Char) :
    entryNumber? (padLeft 3 (natDigits n) ++ '.' :: ' ' :: s) = some n := by
  have hall : ∀ c ∈ natDigits n, c.isDigit = true := fun c => isDigit_of_mem_natDigits
  have hpoint : ¬ Char.isDigit '.' = true := by decide
  have hbody : (padLeft 3 (natDigits n) ++ '.' :: ' ' :: s).dropWhile (· == ' ') =
      natDigits n ++ '.' :: ' ' :: s := by
    rw [Text.padLeft, List.append_assoc]
    exact dropWhile_spaces_natDigits eq_space_of_mem_fill n _
  have htake : (natDigits n ++ '.' :: ' ' :: s).takeWhile Char.isDigit = natDigits n := by
    rw [List.takeWhile_append_of_pos hall, List.takeWhile_cons_of_neg hpoint, List.append_nil]
  have hdrop : (natDigits n ++ '.' :: ' ' :: s).dropWhile Char.isDigit = '.' :: ' ' :: s := by
    rw [List.dropWhile_append_of_pos hall, List.dropWhile_cons_of_neg hpoint]
  have hlength : (padLeft 3 (natDigits n) ++ '.' :: ' ' :: s).length ≤
      (natDigits n ++ '.' :: ' ' :: s).length + 2 := by
    have hpos := length_natDigits_pos n
    rw [List.length_append, List.length_append, length_padLeft]
    omega
  have hsome : natDigits n ≠ [] := List.ne_nil_of_length_pos (length_natDigits_pos n)
  simp only [entryNumber?, hbody, htake, hdrop]
  rw [if_pos ⟨hlength, hsome, ⟨s, rfl⟩⟩, ofDigitChars_natDigits]

/-! ## Entries -/

/-- Lines in entries: each of them starts with a line that has a number and goes on to the next
one. -/
def entriesOf : List (List Char) → List (List (List Char))
  | [] => []
  | line :: lines =>
    match entryNumber? line with
    | some _ => (line :: lines.takeWhile fun l => (entryNumber? l).isNone) :: entriesOf lines
    | none => entriesOf lines

theorem entriesOf_append {front : List (List Char)} (h : ∀ line ∈ front, entryNumber? line = none)
    (lines : List (List Char)) : entriesOf (front ++ lines) = entriesOf lines := by
  induction front with
  | nil => rfl
  | cons line front ih =>
    obtain ⟨hline, hfront⟩ := List.forall_mem_cons.mp h
    rw [List.cons_append, entriesOf, hline]
    exact ih hfront

theorem entryNumber?_failureHead (color : Bool) (number : Nat) (f : Failure) :
    entryNumber? (failureHead color number f) = some number := by
  unfold failureHead
  rw [List.append_assoc]
  exact entryNumber?_numbered number _

/-- The lines below the first one of a failure. -/
def detailLines (color : Bool) (f : Failure) : List (List Char) :=
  (f.error.test.toList.map fun test => "     ".toList ++ test.toList) ++
    if f.error.message = "" then []
    else ["     ".toList ++ paint color .dimmed f.error.message.toList]

theorem failureLines_eq (color : Bool) (number : Nat) (f : Failure) :
    failureLines color number f = failureHead color number f :: detailLines color f := by
  unfold failureLines detailLines
  cases f.error.test <;> rfl

theorem entryNumber?_detailLines (color : Bool) (f : Failure) :
    ∀ line ∈ detailLines color f, entryNumber? line = none := by
  intro line hline
  rcases List.mem_append.mp hline with htest | hmessage
  · obtain ⟨test, -, rfl⟩ := List.mem_map.mp htest
    exact entryNumber?_of_space _
  · split at hmessage
    · cases hmessage
    · obtain rfl := List.mem_singleton.mp hmessage
      exact entryNumber?_of_space _

theorem filterMap_failureList (color : Bool) (number : Nat) (failures : List Failure) :
    (failureList color number failures).filterMap entryNumber? =
      List.range' number failures.length := by
  induction failures generalizing number with
  | nil => rfl
  | cons f failures ih =>
    have hdetails : (detailLines color f).filterMap entryNumber? = [] :=
      List.filterMap_eq_nil_iff.mpr (entryNumber?_detailLines color f)
    rw [failureList, failureLines_eq, List.filterMap_append, ih, List.filterMap_cons,
      entryNumber?_failureHead, hdetails]
    rfl

theorem takeWhile_failureList (color : Bool) (number : Nat) (failures : List Failure) :
    (failureList color number failures).takeWhile (fun l => (entryNumber? l).isNone) = [] := by
  cases failures with
  | nil => rfl
  | cons f failures =>
    rw [failureList, failureLines_eq, List.cons_append, List.takeWhile_cons,
      entryNumber?_failureHead]
    rfl

theorem entriesOf_failureList (color : Bool) (number : Nat) (failures : List Failure) :
    entriesOf (failureList color number failures) =
      (failures.zipIdx number).map fun p => failureHead color p.2 p.1 :: detailLines color p.1 := by
  induction failures generalizing number with
  | nil => rfl
  | cons f failures ih =>
    have hdetails : ∀ line ∈ detailLines color f, (entryNumber? line).isNone = true := by
      intro line hline
      rw [entryNumber?_detailLines color f line hline]
      rfl
    rw [failureList, failureLines_eq, List.cons_append, entriesOf, entryNumber?_failureHead,
      List.zipIdx_cons, List.map_cons, ← ih]
    show (_ :: (detailLines color f ++ _).takeWhile _) :: entriesOf _ = _
    rw [List.takeWhile_append_of_pos hdetails, takeWhile_failureList, List.append_nil,
      entriesOf_append (entryNumber?_detailLines color f)]

/-! ## Summaries -/

/-- No line of the table has a number. -/
theorem entryNumber?_tableLines (color : Bool) (s : Summary) :
    ∀ line ∈ tableLines color s, entryNumber? line = none := by
  intro line hline
  rcases List.mem_append.mp hline with hrows | hduration
  · rcases List.mem_cons.mp hrows with rfl | hrows
    · cases color with
      | true => exact entryNumber?_of_not_isDigit rfl
      | false => exact entryNumber?_of_space _
    · rcases List.mem_pair.mp hrows with rfl | rfl
      · exact entryNumber?_of_not_isDigit rfl
      · exact entryNumber?_of_not_isDigit rfl
  · cases hms : s.durationMs? with
    | none =>
      rw [hms] at hduration
      cases hduration
    | some ms =>
      rw [hms] at hduration
      obtain rfl := List.mem_singleton.mp hduration
      cases color <;> exact entryNumber?_of_not_isDigit rfl

/-- A summary is printed as lines without a number, followed by the failures under their numbers. -/
theorem exists_summaryLines (color : Bool) (s : Summary) :
    ∃ front, (∀ line ∈ front, entryNumber? line = none) ∧
      summaryLines color s = front ++ failureList color 1 s.failures := by
  have htable := entryNumber?_tableLines color s
  cases hfailures : s.failures with
  | nil =>
    refine ⟨tableLines color s, htable, ?_⟩
    rw [summaryLines, hfailures]
    rfl
  | cons f failures =>
    refine ⟨tableLines color s ++
      [[], paint color .bold "  #  failure            detail".toList], ?_, ?_⟩
    · intro line hline
      rcases List.mem_append.mp hline with hline | hline
      · exact htable line hline
      · rcases List.mem_pair.mp hline with rfl | rfl
        · exact entryNumber?_of_not_isDigit rfl
        · cases color <;> exact entryNumber?_of_not_isDigit rfl
    · rw [summaryLines, hfailures, List.append_assoc]
      rfl

theorem filterMap_summaryLines (color : Bool) (s : Summary) :
    (summaryLines color s).filterMap entryNumber? = List.range' 1 s.failures.length := by
  obtain ⟨front, hfront, hlines⟩ := exists_summaryLines color s
  rw [hlines, List.filterMap_append, List.filterMap_eq_nil_iff.mpr hfront, List.nil_append,
    filterMap_failureList]

theorem entriesOf_summaryLines (color : Bool) (s : Summary) :
    entriesOf (summaryLines color s) =
      (s.failures.zipIdx 1).map fun p => failureHead color p.2 p.1 :: detailLines color p.1 := by
  obtain ⟨front, hfront, hlines⟩ := exists_summaryLines color s
  rw [hlines, entriesOf_append hfront, entriesOf_failureList]

theorem getElem?_summaryLines (color : Bool) (s : Summary) :
    (summaryLines color s)[1]? = some (counterLine color "requests" s.stats.requests) ∧
      (summaryLines color s)[2]? = some (counterLine color "assertions" s.stats.assertions) :=
  ⟨rfl, rfl⟩

theorem message?_ofSummary (s : Summary) :
    (Outcome.ofSummary s).message? =
      if s.failures.length = 0 then none
      else some ("Failed with " ++ toString s.failures.length ++ " failing tests.") := by
  unfold Outcome.ofSummary Summary.failureCount
  split <;> rfl

/-- The lines with the mark are as many as the failures of a summary that accounts for the
executions. -/
theorem length_flatMap_failureLinesOf (color : Bool) {s : Summary} {es : List Execution}
    (h : s.Accounts es) : (es.flatMap (failureLinesOf color)).length = s.failures.length := by
  rw [h.failures, List.length_flatMap, List.length_flatMap]
  congr 1
  refine List.map_congr_left fun e _ => ?_
  rw [length_failureLinesOf, Execution.failures_eq_listed]

/-- Take any executions that are recorded into a new summary, ended or not, and let `n` be the
number of the failures that the summary lists. Below the requests of the executions there are `n`
lines with the mark of a failure; no other line of an execution has the mark, unless it is printed
without colours and its method looks like one. The last columns of the two rows of the table hold
the counts of what failed, and these add up to `n`. The lines of the summary that have a number are
numbered from 1 to `n`, and they start `n` entries, of which each shows the name and the source of
the failure at its place, then its test if it has one, and then its message unless that is empty.
The message at the end says `n`, and there is none for zero. -/
theorem failures_printed (color : Bool) (name : String) (now : Instant) (ended : Option Instant)
    (es : List Execution) :
    let s : Summary := { (Summary.start name now).recordAll es with completed := ended }
    let n := s.failures.length
    (es.flatMap (failureLinesOf color)).length = n ∧
      ((color = true ∨ ∀ e ∈ es, ¬ LooksMarked e.method) →
        (es.flatMap fun e => (executionLines color e).filter (isFailureLine color)).length = n) ∧
      (summaryLines color s)[1]? = some (counterLine color "requests" s.stats.requests) ∧
      (summaryLines color s)[2]? = some (counterLine color "assertions" s.stats.assertions) ∧
      (summaryLines color s)[1]?.bind (failedColumn? s.stats.requests.total) =
        some s.stats.requests.failed ∧
      (summaryLines color s)[2]?.bind (failedColumn? s.stats.assertions.total) =
        some s.stats.assertions.failed ∧
      s.stats.requests.failed + s.stats.assertions.failed = n ∧
      (summaryLines color s).filterMap entryNumber? = List.range' 1 n ∧
      (entriesOf (summaryLines color s)).length = n ∧
      (∀ i f, s.failures[i]? = some f →
        (entriesOf (summaryLines color s))[i]? = some
          ((padLeft 3 (natDigits (i + 1)) ++ '.' :: ' ' ::
              paintCell color .red (padRight 18) f.error.name.toList ++
                ' ' :: paint color .bold f.source.toList) ::
            (f.error.test.toList.map fun test => "     ".toList ++ test.toList) ++
            if f.error.message = "" then []
            else ["     ".toList ++ paint color .dimmed f.error.message.toList])) ∧
      (Outcome.ofSummary s).message? =
        if n = 0 then none else some ("Failed with " ++ toString n ++ " failing tests.") := by
  intro s n
  have hrecorded : ((Summary.start name now).recordAll es).Accounts es :=
    (Summary.Accounts.start name now).recordAll es
  -- from here on it matters only that the summary accounts for the executions
  have haccounts : s.Accounts es :=
    ⟨hrecorded.executions, hrecorded.requests, hrecorded.assertions, hrecorded.failures⟩
  clear_value s
  have hmarks : (es.flatMap (failureLinesOf color)).length = n :=
    length_flatMap_failureLinesOf color haccounts
  obtain ⟨hrequests, hassertions⟩ := getElem?_summaryLines color s
  have hentries := entriesOf_summaryLines color s
  refine ⟨hmarks, ?_, hrequests, hassertions, ?_, ?_, haccounts.failureCount_eq.symm,
    filterMap_summaryLines color s, ?_, ?_, message?_ofSummary s⟩
  · intro hmethods
    rw [← hmarks]
    congr 1
    refine List.flatMap_congr fun e he => filter_executionLines ?_
    exact hmethods.imp_right fun hplain => hplain e he
  · rw [hrequests, Option.bind_some]
    exact failedColumn?_counterLine color (by decide) s.stats.requests
  · rw [hassertions, Option.bind_some]
    exact failedColumn?_counterLine color (by decide) s.stats.assertions
  · rw [hentries, List.length_map, List.length_zipIdx]
  · intro i f hf
    rw [hentries, List.getElem?_map, List.getElem?_zipIdx, hf, Nat.add_comm 1 i]
    rfl

/-- A request with an error and an assertion that did not hold. -/
def brokenExecution : Execution :=
  ⟨"a", "GET", "http://h/a", none, .zero, none, [⟨"status", false, some "got none"⟩],
    some "refused"⟩

/-- A run of it. -/
def brokenSummary : Summary :=
  { (Summary.start "pkg" ⟨0⟩).recordAll [brokenExecution] with completed := none }

theorem failures_printed_brokenSummary :
    ¬ LooksMarked brokenExecution.method ∧
      brokenSummary.failures[1]? = some
        ⟨"a", "assertion:0 in test-script", ⟨"AssertionError", some "status", "got none"⟩⟩ ∧
      ([brokenExecution].flatMap fun e =>
        (executionLines false e).filter (isFailureLine false)).length = 2 ∧
      (summaryLines false brokenSummary)[1]?.bind (failedColumn? 1) = some 1 ∧
      (summaryLines false brokenSummary)[2]?.bind (failedColumn? 1) = some 1 ∧
      brokenSummary.stats.requests.failed + brokenSummary.stats.assertions.failed = 2 ∧
      (summaryLines false brokenSummary).filterMap entryNumber? = [1, 2] ∧
      (entriesOf (summaryLines false brokenSummary))[1]? = some
        ["  2. AssertionError     a".toList, "     status".toList, "     got none".toList] ∧
      (Outcome.ofSummary brokenSummary).message? = some "Failed with 2 failing tests." := by
  have hmethod : ¬ LooksMarked brokenExecution.method := by
    unfold LooksMarked
    decide
  have hfailure : brokenSummary.failures[1]? = some
      ⟨"a", "assertion:0 in test-script", ⟨"AssertionError", some "status", "got none"⟩⟩ := by
    decide
  obtain ⟨-, hmarks, -, -, hrequests, hassertions, hcounts, hnumbers, -, hentry, hmessage⟩ :=
    failures_printed false "pkg" ⟨0⟩ none [brokenExecution]
  refine ⟨hmethod, hfailure, hmarks (Or.inr ?_), hrequests, hassertions, hcounts, hnumbers, ?_,
    hmessage.trans ?_⟩
  · intro e he
    obtain rfl := List.mem_singleton.mp he
    exact hmethod
  · refine (hentry 1 _ hfailure).trans ?_
    decide
  · decide

end CollectionRunner.Console
