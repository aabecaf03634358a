import CollectionRunner.Script.Pattern

/-!
The checks that a test script holds.

A script is cut into pieces, one for the text in front of the first test call and one from each test
call up to the next one. In a piece the entries of the old form are looked for first and blanked,
then the status checks in what is left, which are blanked too. Whatever still looks like an
assertion makes the piece hold a check that cannot be evaluated.
-/

namespace CollectionRunner.Script

open Text

/-- What a response status has to be. -/
inductive StatusCheck
  | exact (status : Nat)
  /-- Any status of a hundred. -/
  | hundred (first : Nat)
  deriving DecidableEq, Repr

namespace StatusCheck

/-- Whether a status is as expected. -/
def holds : StatusCheck → Nat → Bool
  | exact expected, status => status == expected
  | hundred first, status => status / 100 == first

/-- What is expected. -/
def describe : StatusCheck → String
  | exact expected => "Status code is " ++ toString expected
  | hundred first => "Status code is " ++ toString first ++ "xx"

/-- What is said of a status that is not as expected. -/
def failureMessage : StatusCheck → Nat → String
  | exact expected, actual =>
    "expected response to have status code " ++ toString expected ++ " but got " ++ toString actual
  | hundred first, actual =>
    "expected response to have a " ++ toString first ++ "xx status code but got " ++ toString actual

/-- The properties of a response that stand for a status. -/
def named : List (List Char × StatusCheck) :=
  [("ok".toList, exact 200), ("success".toList, hundred 2), ("created".toList, exact 201),
    ("accepted".toList, exact 202), ("noContent".toList, exact 204),
    ("badRequest".toList, exact 400), ("unauthorized".toList, exact 401),
    ("forbidden".toList, exact 403), ("notFound".toList, exact 404),
    ("clientError".toList, hundred 4), ("serverError".toList, hundred 5)]

end StatusCheck

/-- A check of a test script. -/
inductive Check
  | status (check : StatusCheck)
  /-- An assertion of the named test that cannot be evaluated. -/
  | unsupported (name : List Char)
  deriving DecidableEq, Repr

/-- The status check of a check that can be evaluated. -/
def Check.status? : Check → Option StatusCheck
  | .status check => some check
  | .unsupported _ => none

/-- The spans of a form that captures the digits of a status. -/
def exactSpans (m : Matcher (List Char)) (s : List Char) : List (Span StatusCheck) :=
  (m.anywhere.spans s).filterMap fun span =>
    (number? span.found).map fun n => ⟨span.start, span.stop, .exact n⟩

/-- The status checks in a text, in order; one that starts inside an earlier one is part of it. -/
def statusSpans (s : List Char) : List (Span StatusCheck) :=
  Span.dropCovered 0 (Span.sort
    (exactSpans haveStatus s ++ exactSpans expectCode s ++ exactSpans compareCode s ++
      (shorthand StatusCheck.named).anywhere.spans s))

/-- The checks of an entry of the old form: its status checks, or the entry as one that cannot be
evaluated. -/
def Entry.checks (e : Entry) : List Check :=
  match statusSpans e.condition with
  | [] => [.unsupported e.label]
  | spans => spans.map fun span => .status span.found

/-- The text with the given spans blanked. -/
def blankSpans (spans : List (Span α)) (s : List Char) : List Char :=
  spans.foldl (fun s span => blank span.start span.stop s) s

/-- A part of a script, with the title of its test. -/
structure Piece where
  title : List Char
  text : List Char
  deriving DecidableEq, Repr

namespace Piece

/-- The entries of the old form. -/
def entries (p : Piece) : List (Span Entry) := testsEntry.anywhere.spans p.text

/-- The text without the entries of the old form. -/
def withoutEntries (p : Piece) : List Char := blankSpans p.entries p.text

/-- The status checks outside the entries of the old form. -/
def statuses (p : Piece) : List (Span StatusCheck) := statusSpans p.withoutEntries

/-- What is left without the entries and the status checks. -/
def leftover (p : Piece) : List Char := blankSpans p.statuses p.withoutEntries

/-- Whether an assertion is left. -/
def hasLeftover (p : Piece) : Bool := !(assertionMark.spans p.leftover).isEmpty

/-- The checks of a piece in order of their places; an assertion that is left stands at the end. -/
def checks (p : Piece) : List Check :=
  let entryChecks := p.entries.flatMap fun span =>
    span.found.checks.map fun check => (⟨span.start, span.stop, check⟩ : Span Check)
  let statusChecks := p.statuses.map fun span =>
    (⟨span.start, span.stop, .status span.found⟩ : Span Check)
  let size := byteLength p.text
  let leftoverChecks : List (Span Check) :=
    if p.hasLeftover then [⟨size, size, .unsupported p.title⟩] else []
  (Span.sort (entryChecks ++ statusChecks ++ leftoverChecks)).map Span.found

end Piece

/-- The title of what stands in front of the first test call. -/
def untitled : List Char := "test script".toList

/-- Cuts a script at the starts of its test calls; `start` and `title` belong to the piece that is
cut next. -/
def piecesFrom (script : List Char) (start : Nat) (title : List Char) :
    List (Span (List Char)) → List Piece
  | [] => [⟨title, cut start (byteLength script) script⟩]
  | span :: spans =>
    ⟨title, cut start span.start script⟩ :: piecesFrom script span.start span.found spans

/-- The pieces of a script, in order. -/
def pieces (script : List Char) : List Piece :=
  piecesFrom script 0 untitled (testCall.anywhere.spans script)

/-- The checks of a script, in order. -/
def checks (script : String) : List Check := (pieces script.toList).flatMap Piece.checks

/-- The status checks of a script. -/
def statusChecks (script : String) : List StatusCheck := (checks script).filterMap Check.status?

end CollectionRunner.Script
