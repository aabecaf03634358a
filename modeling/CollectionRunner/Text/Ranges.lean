/-!
Sorted tables of inclusive ranges, searched by halving.
-/

namespace CollectionRunner.Text

/-- Looks for `n` in `table` between the positions `lo` (inclusive) and `hi` (exclusive), with at
most `steps` halvings. -/
def inRangesFrom (table : Array (Nat × Nat)) (n : Nat) : (steps lo hi : Nat) → Bool
  | 0, _, _ => false
  | steps + 1, lo, hi =>
    if lo < hi then
      let mid := (lo + hi) / 2
      match table[mid]? with
      | none => false
      | some (first, last) =>
        if n < first then inRangesFrom table n steps lo mid
        else if last < n then inRangesFrom table n steps (mid + 1) hi
        else true
    else false

/-- Whether a range of the sorted `table` holds `n`. -/
def inRanges (table : Array (Nat × Nat)) (n : Nat) : Bool :=
  inRangesFrom table n (table.size + 1) 0 table.size

end CollectionRunner.Text
