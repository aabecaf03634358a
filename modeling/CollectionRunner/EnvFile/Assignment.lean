import CollectionRunner.EnvFile.Line
import CollectionRunner.Text.Letter
import CollectionRunner.Variables

/-!
The assignments of an env file, `key=value` a line.

A value may be quoted in parts: single quotes keep everything as it is, double quotes keep blanks.
Outside single quotes `$name` stands for the value that `name` was given earlier in the file, and so
does the form with the name in braces.
-/

namespace CollectionRunner.EnvFile

open Text

/-! ### Values -/

/-- What the next character of a value belongs to. -/
inductive Mode
  | plain
  | escape
  | strong
  /-- A name behind a dollar sign; its characters stand in reverse. -/
  | name (done : List Char)
  /-- A name in braces; its characters stand in reverse. -/
  | braced (done : List Char)
  /-- Behind a blank only blanks and a comment may follow. -/
  | behind
  | comment
  deriving DecidableEq, Repr

/-- A reader of a value: its mode, whether a double quote is open, and in reverse what the value
holds so far. -/
structure Reader where
  mode : Mode
  weak : Bool
  output : List Char
  deriving DecidableEq, Repr

namespace Reader

/-- Appends a character. -/
def push (r : Reader) (c : Char) : Reader := { r with output := c :: r.output }

/-- Goes on in another mode. -/
def goto (r : Reader) (mode : Mode) : Reader := { r with mode := mode }

/-- Appends the value of the name whose characters stand in reverse. -/
def substitute (vars : Variables) (r : Reader) (done : List Char) : Reader :=
  let value := (vars.get? (String.ofList done.reverse)).getD ""
  { r with output := value.toList.reverse ++ r.output }

/-- The reader behind a character; none when the character may not stand there. -/
def step (vars : Variables) (r : Reader) (c : Char) : Option Reader :=
  match r.mode with
  | .comment => some r
  | .behind =>
    if c = ' ' ∨ c = '\t' then some r else if c = '#' then some (r.goto .comment) else none
  | .escape =>
    if c = '\\' ∨ c = '\x27' ∨ c = '\"' ∨ c = '$' ∨ c = ' ' then some ((r.push c).goto .plain)
    else if c = 'n' then some ((r.push '\n').goto .plain)
    else none
  | .strong => some (if c = '\x27' then r.goto .plain else r.push c)
  | .name done =>
    if isAlphanumeric c then some (r.goto (.name (c :: done)))
    else if c = '\x7b' ∧ done = [] then some (r.goto (.braced []))
    else
      let r := r.substitute vars done
      some (if c = '$' then r.goto (.name []) else (r.push c).goto .plain)
  | .braced done =>
    some (if c = '\x7d' then (r.substitute vars done).goto .plain else r.goto (.braced (c :: done)))
  | .plain =>
    some
      (if c = '$' then r.goto (.name [])
       else if r.weak then
         if c = '\"' then { r with weak := false }
         else if c = '\\' then r.goto .escape
         else r.push c
       else if c = '\x27' then r.goto .strong
       else if c = '\"' then { r with weak := true }
       else if c = '\\' then r.goto .escape
       else if c = ' ' ∨ c = '\t' then r.goto .behind
       else r.push c)

/-- The value when the text ends here; none when a quote or brace is open. -/
def finish? (vars : Variables) (r : Reader) : Option String :=
  if r.weak then none
  else
    match r.mode with
    | .strong => none
    | .braced _ => none
    | .name done => some (String.ofList (r.substitute vars done).output.reverse)
    | _ => some (String.ofList r.output.reverse)

end Reader

/-- Reads on in a value, of which `seen` characters are read; `value` is the whole of it. -/
def readValue (vars : Variables) (value : List Char) (r : Reader) (seen : Nat) :
    List Char → Except Fault String
  | [] =>
    match r.finish? vars with
    | some text => .ok text
    | none => .error ⟨value, byteLength value - 1⟩
  | c :: s =>
    match r.step vars c with
    | some r => readValue vars value r (seen + 1) s
    | none => .error ⟨value, seen⟩

/-! ### Lines -/

/-- A character that a key may start with. -/
def startsKey (c : Char) : Bool := c.isAlpha || c == '_'

/-- A character of a key. -/
def inKey (c : Char) : Bool := c.isAlphanum || c == '_' || c == '.'

/-- The key at the start of a text, and the rest. -/
def key? (s : List Char) : Option (List Char × List Char) :=
  match s with
  | c :: _ => if startsKey c then some (s.takeWhile inKey, s.dropWhile inKey) else none
  | [] => none

/-- The word that may stand in front of a key. -/
def exportWord : List Char := "export".toList

/-- The key of an assignment and the text behind its equals sign, or the text that is left where the
line cannot be read. -/
def readKey (s : List Char) : Except (List Char) (List Char × List Char) := do
  let (first, rest) ← orFailAt s (key? s)
  match trimStart rest with
  | '=' :: rest => pure (first, rest)
  | rest =>
    if first = exportWord then do
      let (second, rest) ← orFailAt rest (key? rest)
      match trimStart rest with
      | '=' :: rest => pure (second, rest)
      | rest => .error rest
    else .error rest
where
  /-- The result, or the text where it is missing. -/
  orFailAt (s : List Char) : Option (List Char × List Char) →
      Except (List Char) (List Char × List Char)
    | some r => .ok r
    | none => .error s

/-- The assignment of a line, if it holds one. -/
def readLine (vars : Variables) (line : List Char) :
    Except Fault (Option (String × String)) := do
  let text := trimEnd line
  let s := trimStart text
  if s.isEmpty ∨ s.head? = some '#' then pure none
  else
    match readKey s with
    | .error rest => .error ⟨line, byteLength text - byteLength rest⟩
    | .ok (key, rest) => do
      let value := trimStart rest
      if value.isEmpty ∨ value.head? = some '#' then pure (some (String.ofList key, ""))
      else do
        let text ← readValue vars value ⟨.plain, false, []⟩ 0 value
        pure (some (String.ofList key, text))

/-- Reads lines; `done` holds the assignments so far. -/
def readLines (done : Variables) : List (Except Fault (List Char)) → Except Fault Variables
  | [] => .ok done
  | line :: lines => do
    match ← readLine done (← line) with
    | some assignment => readLines (done ++ [assignment]) lines
    | none => readLines done lines

/-- The assignments of a file in order. -/
def read (content : String) : Except Fault Variables := readLines [] (lines content.toList)

end CollectionRunner.EnvFile
