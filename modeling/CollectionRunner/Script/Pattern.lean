import CollectionRunner.Script.Span
import CollectionRunner.Text.Blank
import CollectionRunner.Text.Letter

/-!
The forms of test scripts that are recognised without running them.

A form is written as a matcher, which yields what it captures and the text behind it. Every form
starts with a fixed word, so it covers at least one character.
-/

namespace CollectionRunner.Script

open Text

/-- A form at the start of a text: what it captures, and the text behind it. -/
abbrev Matcher (α : Type) := List Char → Option (α × List Char)

/-- The pattern of a form that may stand anywhere. -/
def Matcher.anywhere (m : Matcher α) : Pattern α := fun _ s =>
  (m s).map fun (a, rest) => (a, s.length - rest.length)

/-- The pattern of a form that may not stand behind a character of a word. -/
def Matcher.atWord (m : Matcher α) : Pattern α := fun before s =>
  if before.any isWord then none else (m s).map fun (a, rest) => (a, s.length - rest.length)

/-- The text behind a fixed word. -/
def behind? : (word s : List Char) → Option (List Char)
  | [], s => some s
  | _ :: _, [] => none
  | w :: word, c :: s => if w = c then behind? word s else none

/-- The text behind the first of some words that it starts with. -/
def behindAny? (words : List (List Char)) (s : List Char) : Option (List Char) :=
  words.findSome? (behind? · s)

/-- The text behind one character of a class. -/
def behindChar? (p : Char → Bool) : List Char → Option (List Char)
  | [] => none
  | c :: s => if p c then some s else none

/-- The text when no character of a word stands at its start. -/
def wordEnd? : List Char → Option (List Char)
  | [] => some []
  | c :: s => if isWord c then none else some (c :: s)

/-- Single quote, double quote or backtick. -/
def isQuote (c : Char) : Bool := c == '\"' || c == '\x27' || c == '\x60'

/-- Single or double quote. -/
def isPlainQuote (c : Char) : Bool := c == '\"' || c == '\x27'

/-- A call `pm.test("title"`: the title, which holds no quote of any kind. -/
def testCall : Matcher (List Char) := fun s => do
  let s ← behind? "pm.test(".toList s
  let s ← behindChar? isQuote (trimStart s)
  let rest ← behindChar? isQuote (s.dropWhile fun c => !isQuote c)
  pure (s.takeWhile (fun c => !isQuote c), rest)

/-- The right-hand side of an entry, behind the equals sign: blanks in front of it are dropped as
far as something is left; it ends before a semicolon or the end of the line. -/
def rightHandSide : Matcher (List Char) := fun s =>
  let inLine := fun c => c != ';' && c != '\n'
  match trimStart s with
  | c :: rest =>
    if c = ';' then blankSide s (c :: rest)
    else some (c :: rest.takeWhile inLine, rest.dropWhile inLine)
  | [] => blankSide s []
where
  /-- Only blanks: the last one that ends no line. -/
  blankSide (s rest : List Char) : Option (List Char × List Char) :=
    let blanks := (s.take (s.length - rest.length)).reverse
    match blanks.dropWhile (· == '\n') with
    | [] => none
    | c :: _ => some ([c], (blanks.takeWhile (· == '\n')).reverse ++ rest)

/-- A label and a right-hand side. -/
structure Entry where
  label : List Char
  condition : List Char
  deriving DecidableEq, Repr

/-- An entry `tests["label"] = condition`; the label holds no quote and no closing bracket. -/
def testsEntry : Matcher Entry := fun s => do
  let inLabel := fun c => !isPlainQuote c && c != ']'
  let s ← behind? "tests[".toList s
  let s ← behindChar? isPlainQuote (trimStart s)
  let rest ← behindChar? isPlainQuote (s.dropWhile inLabel)
  let rest ← behindChar? (· == ']') (trimStart rest)
  let rest ← behindChar? (· == '=') (trimStart rest)
  let (condition, rest) ← rightHandSide rest
  pure (⟨s.takeWhile inLabel, condition⟩, rest)

/-- Three decimal digits of any script. -/
def threeDigits : Matcher (List Char)
  | a :: b :: c :: rest =>
    if isDecimalDigit a && isDecimalDigit b && isDecimalDigit c then some ([a, b, c], rest)
    else none
  | _ => none

/-- The number that three digits spell, if they are ASCII digits. -/
def number? (ds : List Char) : Option Nat :=
  if ds.all Char.isDigit then some (ds.foldl (fun n c => n * 10 + (c.toNat - 0x30)) 0) else none

/-- Three digits in parentheses. -/
def parenthesised : Matcher (List Char) := fun s => do
  let s ← behind? ['('] s
  let (ds, s) ← threeDigits (trimStart s)
  let s ← behind? [')'] (trimStart s)
  pure (ds, s)

/-- The call `pm.response.to.have.status(200)`: the digits. -/
def haveStatus : Matcher (List Char) := fun s => do
  let s ← behind? "pm.response.to.have.status".toList s
  parenthesised s

/-- The two ways to name the status code of the response. -/
def codeNames : List (List Char) := ["pm.response.code".toList, "responseCode.code".toList]

/-- The names of the comparison in an expectation. -/
def equalNames : List (List Char) :=
  ["eql".toList, "equal".toList, "eq".toList, "be.equal".toList]

/-- The call `pm.expect(pm.response.code).to.eql(200)`: the digits. -/
def expectCode : Matcher (List Char) := fun s => do
  let s ← behind? "pm.expect(".toList s
  let s ← behindAny? codeNames (trimStart s)
  let s ← behind? [')'] (trimStart s)
  let s ← behind? ".to.".toList (trimStart s)
  equalNames.findSome? fun name => (behind? name s).bind parenthesised

/-- The comparison `responseCode.code === 200`: the digits. -/
def compareCode : Matcher (List Char) := fun s => do
  let s ← behindAny? codeNames s
  let s ← behindAny? ["===".toList, "==".toList] (trimStart s)
  threeDigits (trimStart s)

/-- The property `pm.response.to.be.ok` with one of the given names. -/
def shorthand (names : List (List Char × α)) : Matcher α := fun s => do
  let s ← behind? "pm.response.to.be.".toList s
  names.findSome? fun (name, a) => do
    let s ← behind? name s
    let s ← wordEnd? s
    pure (a, s)

/-- A call of `expect` or of a function whose name starts with `assert`. -/
def assertingCall : Matcher Unit := fun s =>
  match behind? "expect(".toList s with
  | some rest => some ((), rest)
  | none => do
    let s ← behind? "assert".toList s
    let rest ← behind? ['('] (s.dropWhile isWord)
    pure ((), rest)

/-- A property of an assertion chain: `.to.` or `.should`. -/
def chainWord : Matcher Unit := fun s =>
  match behind? ".to.".toList s with
  | some rest => some ((), rest)
  | none => do
    let s ← behind? ".should".toList s
    let rest ← wordEnd? s
    pure ((), rest)

/-- Anything that looks like an assertion. -/
def assertionMark : Pattern Unit := fun before s =>
  (Matcher.atWord assertingCall before s).or (Matcher.anywhere chainWord before s)

end CollectionRunner.Script
