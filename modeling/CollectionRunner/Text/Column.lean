/-!
Columns of a table: a cell is filled with spaces up to the width of its column, counted in
characters. A cell that is wider stays as it is.
-/

namespace CollectionRunner.Text

/-- The spaces that a cell lacks to be `width` characters wide. -/
def fill (width : Nat) (cell : List Char) : List Char :=
  List.replicate (width - cell.length) ' '

/-- The cell at the left end of its column. -/
def padRight (width : Nat) (cell : List Char) : List Char := cell ++ fill width cell

/-- The cell at the right end of its column. -/
def padLeft (width : Nat) (cell : List Char) : List Char := fill width cell ++ cell

theorem length_padLeft (width : Nat) (cell : List Char) :
    (padLeft width cell).length = max width cell.length := by
  simp only [padLeft, fill, List.length_append, List.length_replicate]
  omega

theorem length_padRight (width : Nat) (cell : List Char) :
    (padRight width cell).length = max width cell.length := by
  simp only [padRight, fill, List.length_append, List.length_replicate]
  omega

end CollectionRunner.Text
