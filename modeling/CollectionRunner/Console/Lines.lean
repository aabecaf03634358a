import CollectionRunner.Console.Paint
import CollectionRunner.Decimal.Shortest
import CollectionRunner.Run.Summary

/-!
What is printed of a run: its name, a block for each execution, and a table at the end with a list
of the failures.
-/

namespace CollectionRunner.Console

open Text Decimal

/-- The text of lines, each with its line feed. -/
def unlines (lines : List (List Char)) : String :=
  String.ofList (lines.flatMap fun line => line ++ ['\n'])

/-- What is printed at the start of a run. -/
def headerText (color : Bool) (collection : String) : String :=
  unlines [paint color .bold "colrun".toList, [], paint color .bold collection.toList]

/-- The style of a response status. -/
def statusStyle (status : Nat) : Style :=
  if 400 ≤ status then .red else if 300 ≤ status then .yellow else .green

/-- A duration in whole milliseconds. -/
def milliseconds (x : Binary64) : List Char :=
  (if x.negative then ['-'] else []) ++ natDigits x.roundNat ++ ['m', 's']

/-- A mark in front of a text, indented. -/
def marked (color : Bool) (style : Style) (mark : Char) (text : List Char) : List Char :=
  ' ' :: ' ' :: paint color style [mark] ++ ' ' :: text

/-- The line of an assertion. -/
def assertionLine (color : Bool) (a : AssertionResult) : List Char :=
  if a.passed then marked color .green '✓' (paint color .dimmed a.name.toList)
  else marked color .red '✗' (paint color .red a.name.toList)

/-- The line with the method and the address of a request, and what came back. -/
def requestLine (color : Bool) (e : Execution) : List Char :=
  let head := ' ' :: ' ' :: paint color .bold e.method.toList ++
    ' ' :: paint color .cyan e.url.toList
  match e.status with
  | some status =>
    head ++ ' ' :: '[' :: paint color (statusStyle status) (natDigits status) ++
      ' ' :: paint color .dimmed (milliseconds e.durationMs) ++ [']']
  | none => head

/-- The line of the error of a request. -/
def errorLines (color : Bool) (e : Execution) : List (List Char) :=
  match e.error with
  | some error => [marked color .red '✗' (paint color .red error.toList)]
  | none => []

/-- The lines of an execution. -/
def executionLines (color : Bool) (e : Execution) : List (List Char) :=
  (paint color .dimmed ['→'] ++ ' ' :: paint color .bold e.item.toList) ::
    requestLine color e :: errorLines color e ++ e.assertions.map (assertionLine color)

/-- What is printed of an execution. -/
def executionText (color : Bool) (e : Execution) : String :=
  unlines ([] :: executionLines color e)

/-- The count of what failed, painted unless it is zero. -/
def failedCount (color : Bool) (n : Nat) : List Char :=
  if 0 < n then paint color .red (natDigits n) else natDigits n

/-- A row of the table. -/
def counterLine (color : Bool) (name : String) (c : Counter) : List Char :=
  padRight 14 name.toList ++ padLeft 10 (natDigits c.total) ++
    padLeft 10 (failedCount color c.failed)

/-- The whole number with its sign. -/
def intDigits (n : Int) : List Char :=
  if n < 0 then '-' :: natDigits n.natAbs else natDigits n.natAbs

/-- The lines of the table. -/
def tableLines (color : Bool) (s : Summary) : List (List Char) :=
  [paintCell color .bold (padRight 14) [] ++ paintCell color .bold (padLeft 10) "executed".toList ++
      paintCell color .bold (padLeft 10) "failed".toList,
    counterLine color "requests" s.stats.requests,
    counterLine color "assertions" s.stats.assertions] ++
    match s.durationMs? with
    | some ms =>
      [paint color .dimmed ("total run duration: ".toList ++ intDigits ms ++ ['m', 's'])]
    | none => []

/-- The line that a failure starts with. -/
def failureHead (color : Bool) (number : Nat) (f : Failure) : List Char :=
  padLeft 3 (natDigits number) ++ '.' :: ' ' ::
    paintCell color .red (padRight 18) f.error.name.toList ++
      ' ' :: paint color .bold f.source.toList

/-- The lines of a failure. -/
def failureLines (color : Bool) (number : Nat) (f : Failure) : List (List Char) :=
  failureHead color number f ::
    ((match f.error.test with
      | some test => ["     ".toList ++ test.toList]
      | none => []) ++
      if f.error.message = "" then []
      else ["     ".toList ++ paint color .dimmed f.error.message.toList])

/-- The lines of failures, numbered from `number` on. -/
def failureList (color : Bool) : (number : Nat) → List Failure → List (List Char)
  | _, [] => []
  | number, f :: fs => failureLines color number f ++ failureList color (number + 1) fs

/-- The lines of a summary. -/
def summaryLines (color : Bool) (s : Summary) : List (List Char) :=
  tableLines color s ++
    match s.failures with
    | [] => []
    | failures =>
      [] :: paint color .bold "  #  failure            detail".toList ::
        failureList color 1 failures

/-- What is printed of a summary. -/
def summaryText (color : Bool) (s : Summary) : String := unlines ([] :: summaryLines color s)

/-- What is printed of a whole run. -/
def runText (color : Bool) (s : Summary) : String :=
  headerText color s.collection ++ String.join (s.executions.map (executionText color)) ++
    summaryText color s

end CollectionRunner.Console
