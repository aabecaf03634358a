import CollectionRunner.Text.Blank
import CollectionRunner.Variables

/-!
Placeholders `{{name}}` in a text.

A placeholder is two opening braces, one or more characters other than braces, and two closing
braces. Two placeholders never overlap, so a text is a sequence of pieces, each one a placeholder or
a single character. Resolving replaces every placeholder whose name has a value and copies all else.
-/

namespace CollectionRunner.Placeholder

open Text

/-- Any character that may stand inside a placeholder. -/
def isInner (c : Char) : Bool := c != '\x7b' && c != '\x7d'

/-- The characters between the braces of a placeholder at the start of the text. -/
def inner? : List Char → Option (List Char)
  | '\x7b' :: '\x7b' :: s =>
    match s.takeWhile isInner, s.dropWhile isInner with
    | c :: cs, '\x7d' :: '\x7d' :: _ => some (c :: cs)
    | _, _ => none
  | _ => none

/-- A part of a text. -/
inductive Piece
  | char (c : Char)
  | hole (inner : List Char)
  deriving DecidableEq, Repr

namespace Piece

/-- The part as it is written. -/
def source : Piece → List Char
  | .char c => [c]
  | .hole inner => '\x7b' :: '\x7b' :: inner ++ ['\x7d', '\x7d']

/-- The name between the braces, without the blanks around it. -/
def nameOf (inner : List Char) : String := String.ofList (trim inner)

/-- The part with its variable replaced; a name without a value stays as it is written. -/
def resolve (vars : Variables) : Piece → List Char
  | .char c => [c]
  | .hole inner =>
    match vars.get? (nameOf inner) with
    | some text => text.toList
    | none => (Piece.hole inner).source

/-- The name of a placeholder that has no value. -/
def unresolved? (vars : Variables) : Piece → Option String
  | .char _ => none
  | .hole inner =>
    if (vars.get? (nameOf inner)).isSome then none else some (nameOf inner)

end Piece

/-- The pieces of a text behind its first `skip` characters. -/
def piecesFrom : (skip : Nat) → List Char → List Piece
  | _, [] => []
  | skip + 1, _ :: s => piecesFrom skip s
  | 0, c :: s =>
    match inner? (c :: s) with
    | some inner => .hole inner :: piecesFrom (inner.length + 3) s
    | none => .char c :: piecesFrom 0 s

/-- The pieces of a text. -/
def pieces (s : List Char) : List Piece := piecesFrom 0 s

theorem piecesFrom_drop (skip : Nat) (s : List Char) :
    piecesFrom skip s = piecesFrom 0 (s.drop skip) := by
  induction s generalizing skip with
  | nil => cases skip <;> rfl
  | cons c s ih =>
    cases skip with
    | zero => rfl
    | succ n => simpa [piecesFrom] using ih n

/-- A placeholder at the start of a text stands there as it is written. -/
theorem inner?_eq_some {s inner : List Char} (h : inner? s = some inner) :
    ∃ rest, s = (Piece.hole inner).source ++ rest := by
  unfold inner? at h
  split at h
  · next s =>
    split at h
    · next c cs rest hc hr =>
      refine ⟨rest, ?_⟩
      have := List.takeWhile_append_dropWhile (p := isInner) (l := s)
      rw [hc, hr] at this
      simp only [Option.some.injEq] at h
      subst h
      simp [Piece.source, ← this]
    · simp at h
  · simp at h

/-- The text with its placeholders replaced. -/
def resolve (vars : Variables) (s : String) : String :=
  String.ofList ((pieces s.toList).flatMap (Piece.resolve vars))

/-- The names of the placeholders that stay, in order and with repeats. -/
def unresolved (vars : Variables) (s : String) : List String :=
  (pieces s.toList).filterMap (Piece.unresolved? vars)

end CollectionRunner.Placeholder
