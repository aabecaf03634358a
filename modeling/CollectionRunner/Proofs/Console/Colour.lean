import CollectionRunner.Console.Lines
import CollectionRunner.Proofs.Json.Reread
import Mathlib.Algebra.GroupWithZero.Nat
import Mathlib.Data.List.Forall2

/-!
# Texts without their colours

Colour sequences are deleted from what is printed. Where no printed text has an escape character of
its own, the text that is left is the one printed without colours, the counts of what failed apart:
a count that is painted is brought to the width of its column with its colour sequences, which fill
the column alone, so that without them it stands close behind the total. Main statement:
`plainText_printed`.
-/

namespace CollectionRunner.Console

open Text Decimal Json

/-! ## Deleting colour sequences -/

/-- A character between the bracket of a colour sequence and its end. -/
def isParameter (c : Char) : Bool := c.isDigit || c == ';'

/-- The length of the colour sequence at the start of a text: an escape character and a bracket,
digits and semicolons, and an `m`. -/
def sequenceLength? : List Char → Option Nat
  | '\x1b' :: '[' :: s =>
    match s.dropWhile isParameter with
    | 'm' :: _ => some ((s.takeWhile isParameter).length + 3)
    | _ => none
  | _ => none

/-- The text without its colour sequences; `skip` characters belong to one. -/
def withoutColoursFrom : (skip : Nat) → List Char → List Char
  | _, [] => []
  | 0, c :: s =>
    match sequenceLength? (c :: s) with
    | some n => withoutColoursFrom (n - 1) s
    | none => c :: withoutColoursFrom 0 s
  | skip + 1, _ :: s => withoutColoursFrom skip s

/-- The text without its colour sequences. -/
def withoutColours (s : List Char) : List Char := withoutColoursFrom 0 s

/-- A printed text without its colour sequences. -/
def plainText (printed : String) : String := String.ofList (withoutColours printed.toList)

theorem withoutColours_nil : withoutColours [] = [] := rfl

theorem withoutColours_cons {c : Char} (h : c ≠ '\x1b') (s : List Char) :
    withoutColours (c :: s) = c :: withoutColours s := by
  have hnone : sequenceLength? (c :: s) = none := by
    unfold sequenceLength?
    split
    · rename_i heq
      exact absurd (List.cons.inj heq).1 h
    · rfl
  rw [withoutColours, withoutColoursFrom, hnone]
  rfl

theorem withoutColoursFrom_length (skipped s : List Char) :
    withoutColoursFrom skipped.length (skipped ++ s) = withoutColours s := by
  induction skipped with
  | nil => rfl
  | cons c skipped ih => exact ih

theorem withoutColours_sequence (parameters s : List Char)
    (h : ∀ c ∈ parameters, isParameter c = true) :
    withoutColours ('\x1b' :: '[' :: parameters ++ 'm' :: s) = withoutColours s := by
  have hstop : ¬ isParameter 'm' = true := by decide
  have htake : (parameters ++ 'm' :: s).takeWhile isParameter = parameters := by
    rw [List.takeWhile_append_of_pos h, List.takeWhile_cons_of_neg hstop, List.append_nil]
  have hdrop : (parameters ++ 'm' :: s).dropWhile isParameter = 'm' :: s := by
    rw [List.dropWhile_append_of_pos h, List.dropWhile_cons_of_neg hstop]
  have hlength : sequenceLength? ('\x1b' :: '[' :: parameters ++ 'm' :: s) =
      some (parameters.length + 3) := by
    show (match (parameters ++ 'm' :: s).dropWhile isParameter with
      | 'm' :: _ => some (((parameters ++ 'm' :: s).takeWhile isParameter).length + 3)
      | _ => none) = _
    rw [hdrop, htake]
    rfl
  -- the bracket, the parameters and the `m` are skipped behind the escape character
  rw [withoutColours, List.cons_append, withoutColoursFrom, ← List.cons_append, hlength]
  have hskipped := withoutColoursFrom_length ('[' :: parameters ++ ['m']) s
  simpa using hskipped

theorem isParameter_of_mem_code (style : Style) : ∀ c ∈ style.code, isParameter c = true := by
  apply List.all_eq_true.mp
  cases style <;> decide

theorem withoutColours_opening (style : Style) (s : List Char) :
    withoutColours (style.opening ++ s) = withoutColours s := by
  have hsequence := withoutColours_sequence style.code s (isParameter_of_mem_code style)
  simpa [Style.opening] using hsequence

theorem withoutColours_closing (s : List Char) :
    withoutColours (closing ++ s) = withoutColours s := by
  have hzero : ∀ c ∈ ['0'], isParameter c = true := List.all_eq_true.mp rfl
  have hsequence := withoutColours_sequence ['0'] s hzero
  simpa [closing] using hsequence

/-! ## Painted texts -/

/-- A text without an escape character. -/
def NoEscape (s : List Char) : Prop := '\x1b' ∉ s

instance (s : List Char) : Decidable (NoEscape s) := inferInstanceAs (Decidable (¬ _))

theorem NoEscape.nil : NoEscape [] := List.not_mem_nil

theorem NoEscape.append {s t : List Char} (hs : NoEscape s) (ht : NoEscape t) :
    NoEscape (s ++ t) := by
  intro hmem
  rcases List.mem_append.mp hmem with hmem | hmem
  · exact hs hmem
  · exact ht hmem

theorem NoEscape.fill (width : Nat) (s : List Char) : NoEscape (Text.fill width s) := by
  intro hmem
  have heq : '\x1b' = ' ' := List.eq_of_mem_replicate hmem
  exact absurd heq (by decide)

theorem NoEscape.natDigits (n : Nat) : NoEscape (natDigits n) := by
  intro hmem
  have hdigit := isDigit_of_mem_natDigits hmem
  exact absurd hdigit (by decide)

theorem reopenFrom_of_noEscape (style : Style) {s : List Char} (h : NoEscape s) :
    reopenFrom style 0 s = s := by
  induction s with
  | nil => rfl
  | cons c s ih =>
    have hc : c ≠ '\x1b' := fun heq => h (heq ▸ List.mem_cons_self)
    have hs : NoEscape s := fun hmem => h (List.mem_cons_of_mem _ hmem)
    have hclosing : closing.isPrefixOf (c :: s) = false := by
      have hne : ('\x1b' == c) = false := beq_eq_false_iff_ne.mpr (Ne.symm hc)
      simp [closing, List.isPrefixOf, hne]
    rw [reopenFrom, hclosing, ih hs]
    rfl

/-- A printed text reads as another one when its colours are deleted, whatever follows it. -/
def ReadsAs (printed plain : List Char) : Prop :=
  ∀ s, withoutColours (printed ++ s) = plain ++ withoutColours s

theorem ReadsAs.withoutColours_eq {printed plain : List Char} (h : ReadsAs printed plain) :
    withoutColours printed = plain := by
  have hempty := h []
  rwa [List.append_nil, withoutColours_nil, List.append_nil] at hempty

theorem ReadsAs.append {p q p' q' : List Char} (h : ReadsAs p q) (h' : ReadsAs p' q') :
    ReadsAs (p ++ p') (q ++ q') := by
  intro s
  rw [List.append_assoc, h, h', List.append_assoc]

theorem ReadsAs.of_noEscape {s : List Char} (h : NoEscape s) : ReadsAs s s := by
  intro t
  induction s with
  | nil => rfl
  | cons c s ih =>
    have hc : c ≠ '\x1b' := fun heq => h (heq ▸ List.mem_cons_self)
    rw [List.cons_append, withoutColours_cons hc, ih fun hmem => h (List.mem_cons_of_mem _ hmem)]
    rfl

theorem ReadsAs.cons {c : Char} (hc : c ≠ '\x1b') {p q : List Char} (h : ReadsAs p q) :
    ReadsAs (c :: p) (c :: q) := by
  intro s
  rw [List.cons_append, withoutColours_cons hc, h]
  rfl

/-- A painted cell reads as the cell. -/
theorem ReadsAs.paintCell (style : Style) {fit : List Char → List Char} {text : List Char}
    (htext : NoEscape text) (hfit : NoEscape (fit text)) :
    ReadsAs (paintCell true style fit text) (paintCell false style fit text) := by
  intro s
  have hcell : ReadsAs (fit text) (fit text) := .of_noEscape hfit
  show withoutColours ((style.opening ++ fit (reopenFrom style 0 text) ++ closing) ++ s) =
    fit text ++ withoutColours s
  rw [reopenFrom_of_noEscape style htext, List.append_assoc, List.append_assoc,
    withoutColours_opening, hcell, withoutColours_closing]

theorem ReadsAs.paint (style : Style) {text : List Char} (h : NoEscape text) :
    ReadsAs (paint true style text) (paint false style text) := .paintCell style h h

/-! ## Lines -/

theorem ReadsAs.marked (style : Style) {mark : Char} (hmark : mark ≠ '\x1b') {p q : List Char}
    (h : ReadsAs p q) : ReadsAs (marked true style mark p) (marked false style mark q) := by
  have hone : NoEscape [mark] := fun hmem => hmark (List.mem_singleton.mp hmem).symm
  refine .cons (by decide) (.cons (by decide) (.append (.paint style hone) ?_))
  exact .cons (by decide) h

/-- Lines read as other ones, one by one. -/
def LinesReadAs (printed plain : List (List Char)) : Prop := List.Forall₂ ReadsAs printed plain

theorem LinesReadAs.unlines {printed plain : List (List Char)} (h : LinesReadAs printed plain) :
    plainText (unlines printed) = unlines plain := by
  have hlines : ReadsAs (printed.flatMap fun line => line ++ ['\n'])
      (plain.flatMap fun line => line ++ ['\n']) := by
    induction h with
    | nil => exact .of_noEscape .nil
    | cons hline _ ih =>
      rw [List.flatMap_cons, List.flatMap_cons]
      exact .append (.append hline (.of_noEscape (by decide))) ih
  rw [plainText, Console.unlines, String.toList_ofList, hlines.withoutColours_eq]
  rfl

/-! ## The start of a run -/

theorem plainText_headerText {name : String} (h : NoEscape name.toList) :
    plainText (headerText true name) = headerText false name := by
  refine LinesReadAs.unlines (.cons ?_ (.cons ?_ (.cons ?_ .nil)))
  · exact .paint .bold (by decide)
  · exact .of_noEscape .nil
  · exact .paint .bold h

/-! ## Executions -/

/-- What is printed of an execution has no escape character. -/
structure ExecutionPlain (e : Execution) : Prop where
  item : NoEscape e.item.toList
  method : NoEscape e.method.toList
  url : NoEscape e.url.toList
  error : ∀ message ∈ e.error, NoEscape message.toList
  assertions : ∀ a ∈ e.assertions, NoEscape a.name.toList

theorem readsAs_assertionLine {a : AssertionResult} (h : NoEscape a.name.toList) :
    ReadsAs (assertionLine true a) (assertionLine false a) := by
  unfold assertionLine
  split
  · exact .marked .green (by decide) (.paint .dimmed h)
  · exact .marked .red (by decide) (.paint .red h)

theorem NoEscape.milliseconds (x : Binary64) : NoEscape (milliseconds x) := by
  unfold Console.milliseconds
  refine .append (.append ?_ (.natDigits _)) (by decide)
  split
  · decide
  · decide

theorem readsAs_requestLine {e : Execution} (h : ExecutionPlain e) :
    ReadsAs (requestLine true e) (requestLine false e) := by
  have hhead : ReadsAs
      (' ' :: ' ' :: paint true .bold e.method.toList ++ ' ' :: paint true .cyan e.url.toList)
      (' ' :: ' ' :: paint false .bold e.method.toList ++
        ' ' :: paint false .cyan e.url.toList) := by
    refine .append (.cons (by decide) (.cons (by decide) (.paint .bold h.method))) ?_
    exact .cons (by decide) (.paint .cyan h.url)
  unfold requestLine
  cases e.status with
  | none => exact hhead
  | some status =>
    refine .append (.append (.append hhead ?_) ?_) (.of_noEscape (by decide))
    · exact .cons (by decide) (.cons (by decide) (.paint _ (.natDigits status)))
    · exact .cons (by decide) (.paint .dimmed (.milliseconds _))

theorem readsAs_executionLines {e : Execution} (h : ExecutionPlain e) :
    LinesReadAs (executionLines true e) (executionLines false e) := by
  have herror : LinesReadAs (errorLines true e) (errorLines false e) := by
    unfold errorLines
    cases herr : e.error with
    | none => exact .nil
    | some message =>
      exact .cons (.marked .red (by decide) (.paint .red (h.error message herr))) .nil
  have hassertions : LinesReadAs (e.assertions.map (assertionLine true))
      (e.assertions.map (assertionLine false)) := by
    refine List.forall₂_map_left_iff.mpr (List.forall₂_map_right_iff.mpr ?_)
    refine List.forall₂_same.mpr ?_
    intro a ha
    exact readsAs_assertionLine (h.assertions a ha)
  refine .cons ?_ (.cons (readsAs_requestLine h) (List.rel_append herror hassertions))
  refine .append (.paint .dimmed (by decide)) (.cons (by decide) (.paint .bold h.item))

theorem plainText_executionText {e : Execution} (h : ExecutionPlain e) :
    plainText (executionText true e) = executionText false e :=
  LinesReadAs.unlines (.cons (.of_noEscape .nil) (readsAs_executionLines h))

/-! ## Summaries -/

/-- What is printed of a summary has no escape character. -/
structure SummaryPlain (s : Summary) : Prop where
  name : ∀ f ∈ s.failures, NoEscape f.error.name.toList
  source : ∀ f ∈ s.failures, NoEscape f.source.toList
  test : ∀ f ∈ s.failures, ∀ test ∈ f.error.test, NoEscape test.toList
  message : ∀ f ∈ s.failures, NoEscape f.error.message.toList

/-- A row of the table whose count of what failed, unless it is zero, is not brought to the width of
its column. -/
def squeezedLine (name : String) (c : Counter) : List Char :=
  padRight 14 name.toList ++ padLeft 10 (natDigits c.total) ++
    if 0 < c.failed then natDigits c.failed else padLeft 10 (natDigits c.failed)

/-- The lines of a summary with these rows. -/
def squeezedLines (s : Summary) : List (List Char) :=
  ((summaryLines false s).set 1 (squeezedLine "requests" s.stats.requests)).set 2
    (squeezedLine "assertions" s.stats.assertions)

theorem NoEscape.padLeft (width : Nat) {s : List Char} (h : NoEscape s) :
    NoEscape (padLeft width s) := .append (.fill width s) h

theorem NoEscape.padRight (width : Nat) {s : List Char} (h : NoEscape s) :
    NoEscape (padRight width s) := .append h (.fill width s)

theorem padLeft_of_le {width : Nat} {s : List Char} (h : width ≤ s.length) :
    padLeft width s = s := by
  rw [Text.padLeft, Text.fill, Nat.sub_eq_zero_of_le h]
  rfl

theorem length_natDigits_pos (n : Nat) : 0 < (natDigits n).length := by
  obtain ⟨c, s, hdigits, -⟩ := exists_of_natDigits n
  rw [hdigits]
  exact Nat.succ_pos _

/-- The colour sequences around a count are nine characters long, so that they and one digit fill
the column. -/
theorem padLeft_paint_natDigits (n : Nat) :
    padLeft 10 (paint true .red (natDigits n)) = paint true .red (natDigits n) := by
  apply padLeft_of_le
  have hpos := length_natDigits_pos n
  show 10 ≤ (Style.red.opening ++ reopenFrom .red 0 (natDigits n) ++ closing).length
  rw [reopenFrom_of_noEscape .red (.natDigits n), List.length_append, List.length_append]
  show 10 ≤ 5 + (natDigits n).length + 4
  omega

theorem readsAs_counterLine {name : String} (h : NoEscape name.toList) (c : Counter) :
    ReadsAs (counterLine true name c) (squeezedLine name c) := by
  refine .append (.of_noEscape (.append (.padRight 14 h) (.padLeft 10 (.natDigits _)))) ?_
  unfold failedCount
  by_cases hfailed : 0 < c.failed
  · rw [if_pos hfailed, if_pos hfailed, padLeft_paint_natDigits]
    exact .paint .red (.natDigits _)
  · rw [if_neg hfailed, if_neg hfailed]
    exact .of_noEscape (.padLeft 10 (.natDigits _))

theorem NoEscape.intDigits (n : Int) : NoEscape (intDigits n) := by
  unfold Console.intDigits
  have hsign : NoEscape ['-'] := by decide
  split
  · exact hsign.append (.natDigits _)
  · exact .natDigits _

theorem readsAs_failureLines (number : Nat) {s : Summary} (h : SummaryPlain s) {f : Failure}
    (hf : f ∈ s.failures) :
    LinesReadAs (failureLines true number f) (failureLines false number f) := by
  have hindent : NoEscape "     ".toList := by decide
  refine .cons ?_ (List.rel_append ?_ ?_)
  · have hname := h.name f hf
    refine .append (.append (.of_noEscape (.padLeft 3 (.natDigits _))) ?_) ?_
    · exact .cons (by decide) (.cons (by decide) (.paintCell .red hname (.padRight 18 hname)))
    · exact .cons (by decide) (.paint .bold (h.source f hf))
  · cases htest : f.error.test with
    | none => exact .nil
    | some test => exact .cons (.of_noEscape (.append hindent (h.test f hf test htest))) .nil
  · split
    · exact .nil
    · exact .cons (.append (.of_noEscape hindent) (.paint .dimmed (h.message f hf))) .nil

theorem readsAs_failureList {s : Summary} (h : SummaryPlain s) (number : Nat)
    {failures : List Failure} (hfailures : ∀ f ∈ failures, f ∈ s.failures) :
    LinesReadAs (failureList true number failures) (failureList false number failures) := by
  induction failures generalizing number with
  | nil => exact .nil
  | cons f failures ih =>
    obtain ⟨hf, hrest⟩ := List.forall_mem_cons.mp hfailures
    exact List.rel_append (readsAs_failureLines number h hf) (ih (number + 1) hrest)

theorem readsAs_summaryLines {s : Summary} (h : SummaryPlain s) :
    LinesReadAs (summaryLines true s) (squeezedLines s) := by
  refine .cons ?_ (.cons ?_ (.cons ?_ (List.rel_append ?_ ?_)))
  · refine .append (.append (.paintCell .bold .nil ?_) (.paintCell .bold ?_ ?_))
      (.paintCell .bold ?_ ?_)
    all_goals decide
  · exact readsAs_counterLine (by decide) _
  · exact readsAs_counterLine (by decide) _
  · cases s.durationMs? with
    | none => exact .nil
    | some ms =>
      refine .cons (.paint .dimmed ?_) .nil
      exact .append (.append (by decide) (.intDigits ms)) (by decide)
  · cases hfailures : s.failures with
    | nil => exact .nil
    | cons f failures =>
      refine .cons (.of_noEscape .nil) (.cons (.paint .bold (by decide)) ?_)
      exact readsAs_failureList h 1 (by rw [hfailures]; exact fun f hf => hf)

theorem plainText_summaryText {s : Summary} (h : SummaryPlain s) :
    plainText (summaryText true s) = unlines ([] :: squeezedLines s) :=
  LinesReadAs.unlines (.cons (.of_noEscape .nil) (readsAs_summaryLines h))

/-- The spaces that a squeezed row lacks. -/
def squeeze (c : Counter) : Nat := if 0 < c.failed then 10 - (natDigits c.failed).length else 0

theorem squeeze_eq_zero {c : Counter} :
    squeeze c = 0 ↔ c.failed = 0 ∨ 10 ≤ (natDigits c.failed).length := by
  unfold squeeze
  split <;> omega

theorem length_counterLine (name : String) (c : Counter) :
    (counterLine false name c).length = (squeezedLine name c).length + squeeze c := by
  unfold counterLine squeezedLine squeeze failedCount
  by_cases h : 0 < c.failed
  · simp only [if_pos h, paint_plain, List.length_append, length_padLeft]
    omega
  · simp only [if_neg h, List.length_append, Nat.add_zero]

theorem squeezedLine_eq (name : String) {c : Counter} (h : squeeze c = 0) :
    squeezedLine name c = counterLine false name c := by
  unfold counterLine squeezedLine failedCount
  by_cases hfailed : 0 < c.failed
  · have hwide : 10 ≤ (natDigits c.failed).length := by
      rcases squeeze_eq_zero.mp h with hzero | hwide
      · omega
      · exact hwide
    rw [if_pos hfailed, if_pos hfailed, paint_plain, padLeft_of_le hwide]
  · rw [if_neg hfailed, if_neg hfailed]

theorem length_unlines (lines : List (List Char)) :
    (unlines lines).length = (lines.map fun line => line.length + 1).sum := by
  rw [unlines, String.length_ofList, List.length_flatMap]
  simp

theorem length_summaryText (s : Summary) :
    (summaryText false s).length = (unlines ([] :: squeezedLines s)).length +
      (squeeze s.stats.requests + squeeze s.stats.assertions) := by
  obtain ⟨title, lower, hlines, hsqueezed⟩ : ∃ title lower,
      summaryLines false s = title :: counterLine false "requests" s.stats.requests ::
        counterLine false "assertions" s.stats.assertions :: lower ∧
      squeezedLines s = title :: squeezedLine "requests" s.stats.requests ::
        squeezedLine "assertions" s.stats.assertions :: lower := ⟨_, _, rfl, rfl⟩
  rw [summaryText, length_unlines, length_unlines, hlines, hsqueezed]
  simp only [List.map_cons, List.sum_cons, length_counterLine]
  omega

/-- The text of squeezed lines is that of the lines just when nothing is squeezed. -/
theorem unlines_squeezedLines_eq_iff (s : Summary) :
    unlines ([] :: squeezedLines s) = summaryText false s ↔
      squeeze s.stats.requests = 0 ∧ squeeze s.stats.assertions = 0 := by
  constructor
  · intro h
    have hlength := length_summaryText s
    rw [h] at hlength
    omega
  · rintro ⟨hrequests, hassertions⟩
    rw [squeezedLines, squeezedLine_eq _ hrequests, squeezedLine_eq _ hassertions]
    rfl

/-- Take a name, executions and a summary whose printed texts have no escape character. Without its
colour sequences, what is printed in colours at the start of a run and of an execution is what is
printed without colours. So is what is printed of the summary, but that in the two rows of the table
a count of what failed, unless it is zero, is not brought to the width of its column. The summary
comes out the same just when each of the counts is zero or fills its column. -/
theorem plainText_printed {name : String} {es : List Execution} {s : Summary}
    (hname : NoEscape name.toList) (hes : ∀ e ∈ es, ExecutionPlain e) (hs : SummaryPlain s) :
    plainText (headerText true name) = headerText false name ∧
      (∀ e ∈ es, plainText (executionText true e) = executionText false e) ∧
      plainText (summaryText true s) = unlines ([] :: squeezedLines s) ∧
      (plainText (summaryText true s) = summaryText false s ↔
        ∀ c ∈ [s.stats.requests, s.stats.assertions],
          c.failed = 0 ∨ 10 ≤ (natDigits c.failed).length) := by
  refine ⟨plainText_headerText hname, fun e he => plainText_executionText (hes e he),
    plainText_summaryText hs, ?_⟩
  -- what is left of the summary differs by the blanks that the two rows lack
  rw [plainText_summaryText hs, unlines_squeezedLines_eq_iff, squeeze_eq_zero, squeeze_eq_zero]
  constructor
  · rintro ⟨hrequests, hassertions⟩ c hc
    rcases List.mem_pair.mp hc with rfl | rfl
    · exact hrequests
    · exact hassertions
  · intro h
    exact ⟨h _ List.mem_cons_self, h _ (List.mem_cons_of_mem _ List.mem_cons_self)⟩

/-- A request that could not be sent. -/
def refusedExecution : Execution :=
  ⟨"a", "GET", "http://h/a", none, .zero, none, [], some "refused"⟩

/-- A run of it. -/
def refusedSummary : Summary := (Summary.start "pkg" ⟨0⟩).record refusedExecution

theorem executionPlain_refusedExecution : ExecutionPlain refusedExecution where
  item := by decide
  method := by decide
  url := by decide
  error := by
    intro message hmessage
    obtain rfl : "refused" = message := Option.some.inj hmessage
    decide
  assertions := by
    intro a ha
    cases ha

theorem summaryPlain_refusedSummary : SummaryPlain refusedSummary := by
  have hfailures : ∀ f ∈ refusedSummary.failures,
      f = ⟨"a", "request", ⟨"Error", none, "refused"⟩⟩ :=
    fun f hf => List.mem_singleton.mp hf
  refine ⟨fun f hf => ?_, fun f hf => ?_, fun f hf => ?_, fun f hf => ?_⟩
  · rw [hfailures f hf]
    decide
  · rw [hfailures f hf]
    decide
  · rw [hfailures f hf]
    intro test htest
    cases htest
  · rw [hfailures f hf]
    decide

theorem plainText_printed_refusedSummary :
    NoEscape "pkg".toList ∧ ExecutionPlain refusedExecution ∧ SummaryPlain refusedSummary ∧
      plainText (headerText true "pkg") = headerText false "pkg" ∧
      plainText (executionText true refusedExecution) = executionText false refusedExecution ∧
      squeezedLine "requests" refusedSummary.stats.requests = "requests               11".toList ∧
      counterLine false "requests" refusedSummary.stats.requests =
        "requests               1         1".toList ∧
      plainText (summaryText true refusedSummary) ≠ summaryText false refusedSummary := by
  have hname : NoEscape "pkg".toList := by decide
  have hes : ∀ e ∈ [refusedExecution], ExecutionPlain e := by
    intro e he
    obtain rfl := List.mem_singleton.mp he
    exact executionPlain_refusedExecution
  obtain ⟨hheader, hexecutions, -, hsummary⟩ :=
    plainText_printed hname hes summaryPlain_refusedSummary
  refine ⟨hname, executionPlain_refusedExecution, summaryPlain_refusedSummary, hheader,
    hexecutions _ List.mem_cons_self, by decide, by decide, fun heq => ?_⟩
  have hcount := hsummary.mp heq refusedSummary.stats.requests List.mem_cons_self
  revert hcount
  decide

/-- The table loses the width of a column with the colours. -/
theorem plainText_ne_refusedSummary :
    ¬ ∀ (name : String) (es : List Execution) (s : Summary),
      NoEscape name.toList → (∀ e ∈ es, ExecutionPlain e) → SummaryPlain s →
      plainText (headerText true name) = headerText false name ∧
        (∀ e ∈ es, plainText (executionText true e) = executionText false e) ∧
        plainText (summaryText true s) = summaryText false s := by
  intro h
  have hnone : ∀ e ∈ ([] : List Execution), ExecutionPlain e := fun e he => nomatch he
  obtain ⟨-, -, hsame⟩ := h "pkg" [] refusedSummary (by decide) hnone summaryPlain_refusedSummary
  rw [plainText_summaryText summaryPlain_refusedSummary, unlines_squeezedLines_eq_iff] at hsame
  revert hsame
  decide

end CollectionRunner.Console
