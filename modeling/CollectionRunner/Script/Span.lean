import CollectionRunner.Text.Utf8

/-!
Spans of a text, with what was found there.

A span is a pair of byte offsets. Spans that a pattern finds start and end where one character ends
and the next one starts, so text can be cut and blanked there.
-/

namespace CollectionRunner.Script

open Text

/-- What was found from the byte offset `start` up to `stop`. -/
structure Span (α : Type) where
  start : Nat
  stop : Nat
  found : α
  deriving DecidableEq, Repr

/-- A pattern looks at the text from a place on, and at the character before it. It yields what it
captures and the number of characters that it covers. -/
abbrev Pattern (α : Type) := (before : Option Char) → List Char → Option (α × Nat)

/-- The spans of a pattern behind the first `skip` characters, from left to right and without an
overlap; `offset` is the byte offset of the text. -/
def Pattern.spansFrom (p : Pattern α) :
    (before : Option Char) → (offset skip : Nat) → List Char → List (Span α)
  | _, _, _, [] => []
  | _, offset, skip + 1, c :: s => spansFrom p (some c) (offset + c.utf8Size) skip s
  | before, offset, 0, c :: s =>
    match p before (c :: s) with
    | some (a, n + 1) =>
      ⟨offset, offset + byteLength ((c :: s).take (n + 1)), a⟩ ::
        spansFrom p (some c) (offset + c.utf8Size) n s
    | _ => spansFrom p (some c) (offset + c.utf8Size) 0 s

/-- The spans of a pattern in a text. -/
def Pattern.spans (p : Pattern α) (s : List Char) : List (Span α) := spansFrom p none 0 0 s

/-- Puts a span in front of the first one that does not start before it. -/
def Span.insert (x : Span α) : List (Span α) → List (Span α)
  | [] => [x]
  | y :: ys => if x.start ≤ y.start then x :: y :: ys else y :: Span.insert x ys

/-- Spans in order of their starts; those with one start keep their order. -/
def Span.sort : List (Span α) → List (Span α)
  | [] => []
  | x :: xs => x.insert (Span.sort xs)

/-- Drops the spans that start before the end of an earlier one that is kept. -/
def Span.dropCovered (covered : Nat) : List (Span α) → List (Span α)
  | [] => []
  | x :: xs =>
    if x.start < covered then dropCovered covered xs else x :: dropCovered x.stop xs

/-- The characters of a text at byte offsets from `start` on and below `stop`; the text starts at
`offset`. -/
def cutFrom (start stop : Nat) : (offset : Nat) → List Char → List Char
  | _, [] => []
  | offset, c :: s =>
    if start ≤ offset ∧ offset < stop then c :: cutFrom start stop (offset + c.utf8Size) s
    else cutFrom start stop (offset + c.utf8Size) s

/-- The part of a text between two byte offsets. -/
def cut (start stop : Nat) (s : List Char) : List Char := cutFrom start stop 0 s

/-- Writes spaces over the characters between two byte offsets, one for a byte. -/
def blankFrom (start stop : Nat) : (offset : Nat) → List Char → List Char
  | _, [] => []
  | offset, c :: s =>
    if start ≤ offset ∧ offset < stop then
      List.replicate c.utf8Size ' ' ++ blankFrom start stop (offset + c.utf8Size) s
    else c :: blankFrom start stop (offset + c.utf8Size) s

/-- The text with spaces between two byte offsets. -/
def blank (start stop : Nat) (s : List Char) : List Char := blankFrom start stop 0 s

theorem byteLength_replicate_space (n : Nat) : byteLength (List.replicate n ' ') = n := by
  induction n with
  | zero => rfl
  | succ n ih =>
    rw [List.replicate_succ, byteLength_cons, ih, show (' ' : Char).utf8Size = 1 from by decide]
    omega

theorem byteLength_blankFrom (start stop offset : Nat) (s : List Char) :
    byteLength (blankFrom start stop offset s) = byteLength s := by
  induction s generalizing offset with
  | nil => rfl
  | cons c s ih =>
    simp only [blankFrom]
    split
    · rw [byteLength_append, byteLength_replicate_space, ih, byteLength_cons]
    · rw [byteLength_cons, ih, byteLength_cons]

/-- Blanking keeps the length in bytes. -/
theorem byteLength_blank (start stop : Nat) (s : List Char) :
    byteLength (blank start stop s) = byteLength s :=
  byteLength_blankFrom start stop 0 s

end CollectionRunner.Script
