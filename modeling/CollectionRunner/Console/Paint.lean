import CollectionRunner.Text.Column

/-!
Painted texts: a control sequence in front of a text, and the one that ends it behind it. Without
colours a painted text is the text alone.
-/

namespace CollectionRunner.Console

open Text

/-- How a text is painted. -/
inductive Style
  | bold
  | dimmed
  | red
  | green
  | yellow
  | cyan
  deriving DecidableEq, Repr

/-- The number of a style in a control sequence. -/
def Style.code : Style → List Char
  | bold => ['1']
  | dimmed => ['2']
  | red => ['3', '1']
  | green => ['3', '2']
  | yellow => ['3', '3']
  | cyan => ['3', '6']

/-- The sequence that starts a style. -/
def Style.opening (s : Style) : List Char := '\x1b' :: '[' :: s.code ++ ['m']

/-- The sequence that ends all styles. -/
def closing : List Char := ['\x1b', '[', '0', 'm']

/-- The text with a style started anew behind every sequence that ends it; `skip` characters belong
to such a sequence. -/
def reopenFrom (s : Style) : (skip : Nat) → List Char → List Char
  | _, [] => []
  | 0, c :: cs =>
    if closing.isPrefixOf (c :: cs) then c :: reopenFrom s 3 cs else c :: reopenFrom s 0 cs
  | 1, c :: cs => c :: s.opening ++ reopenFrom s 0 cs
  | skip + 2, c :: cs => c :: reopenFrom s (skip + 1) cs

/-- A cell whose text is painted; `fit` brings the text to the width of its column. -/
def paintCell (color : Bool) (s : Style) (fit : List Char → List Char) (text : List Char) :
    List Char :=
  if color then s.opening ++ fit (reopenFrom s 0 text) ++ closing else fit text

/-- A painted text. -/
def paint (color : Bool) (s : Style) (text : List Char) : List Char := paintCell color s id text

theorem paint_plain (s : Style) (text : List Char) : paint false s text = text := rfl

end CollectionRunner.Console
