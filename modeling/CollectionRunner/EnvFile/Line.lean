import CollectionRunner.Text.Blank
import CollectionRunner.Text.Utf8

/-!
The lines of an env file.

A line goes on behind its end while a quote is open, and behind an escape or blanks at its end. A
comment starts with `#` at the start of a line or behind a blank.
-/

namespace CollectionRunner.EnvFile

open Text

/-- A line that cannot be read, and the place in it where that is noticed. -/
structure Fault where
  line : List Char
  index : Nat
  deriving DecidableEq, Repr

/-- Where a reader of a line stands. -/
inductive Place
  | plain
  | escape
  | strong
  | strongEscape
  | weak
  | weakEscape
  | blank
  deriving DecidableEq, Repr

/-- The place behind a character that is neither in quotes nor escaped. -/
def Place.open : Char → Place
  | '\\' => .escape
  | '\"' => .weak
  | '\x27' => .strong
  | _ => .plain

/-- The place behind a character; none at the start of a comment. -/
def Place.step : Place → Char → Option Place
  | .blank, c => if c = '#' then none else some (.open c)
  | .escape, _ => some .plain
  | .plain, c =>
    if isBlank c && c != '\n' && c != '\r' then some .blank else some (.open c)
  | .weak, c => some (if c = '\\' then .weakEscape else if c = '\"' then .plain else .weak)
  | .weakEscape, _ => some .weak
  | .strong, c => some (if c = '\\' then .strongEscape else if c = '\x27' then .plain else .strong)
  | .strongEscape, _ => some .strong

/-- The place at the end of a text, or the number of characters in front of a comment. -/
def Place.walk (place : Place) (seen : Nat) : List Char → Place ⊕ Nat
  | [] => .inl place
  | c :: s =>
    match place.step c with
    | some place => place.walk (seen + 1) s
    | none => .inr seen

/-- A text cut behind every line feed; `line` holds, in reverse, what belongs to the first part. -/
def cutLines (line : List Char) : List Char → List (List Char)
  | [] => if line.isEmpty then [] else [line.reverse]
  | c :: s => if c = '\n' then (c :: line).reverse :: cutLines [] s else cutLines (c :: line) s

/-- The line without the line feed at its end, and without a carriage return in front of that. -/
def chomp (line : List Char) : List Char :=
  match line.reverse with
  | '\n' :: '\r' :: rest => rest.reverse
  | '\n' :: rest => rest.reverse
  | _ => line

/-- Puts the parts of a file together to lines; `done` is what belongs to the next one so far. A
comment makes an empty line. The file may not end while a line goes on. -/
def joinLines (place : Place) (done : List Char) :
    List (List Char) → List (Except Fault (List Char))
  | [] => if place = .plain then [] else [.error ⟨done, byteLength done⟩]
  | part :: parts =>
    let line := done ++ part
    if (trimStart line).head? = some '#' then .ok [] :: joinLines .plain [] parts
    else
      match place.walk 0 part with
      | .inr seen => .ok (done ++ part.take seen) :: joinLines .plain [] parts
      | .inl .plain => .ok (chomp line) :: joinLines .plain [] parts
      | .inl place => joinLines place line parts

/-- The lines of a file. -/
def lines (content : List Char) : List (Except Fault (List Char)) :=
  joinLines .plain [] (cutLines [] content)

end CollectionRunner.EnvFile
