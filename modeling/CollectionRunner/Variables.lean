/-!
Variables of a run: names with their texts, in the order in which they were set. A name may be set
again; the last text counts.
-/

namespace CollectionRunner

/-- Names and texts, the later ones in front of the earlier ones in weight. -/
abbrev Variables := List (String × String)

namespace Variables

/-- The text that `name` was set to last. -/
def get? : Variables → String → Option String
  | [], _ => none
  | (k, v) :: vars, name =>
    match get? vars name with
    | some text => some text
    | none => if k = name then some v else none

/-- Whether a name with its text does not stand behind another one: names count first, and texts
where the names are the same. -/
def isOrdered (v w : String × String) : Bool :=
  decide (v.1 < w.1) || v.1 == w.1 && decide (v.2 ≤ w.2)

/-- Variables in that order. -/
def sorted (vars : Variables) : Variables := vars.mergeSort isOrdered

@[simp] theorem get?_nil (name : String) : get? [] name = none := rfl

/-- What is appended counts more than what was there. -/
theorem get?_append (vars more : Variables) (name : String) :
    get? (vars ++ more) name = (get? more name).or (get? vars name) := by
  induction vars with
  | nil => cases h : get? more name <;> simp [h]
  | cons v vars ih =>
    obtain ⟨k, t⟩ := v
    simp only [List.cons_append, get?, ih]
    cases get? more name <;> cases get? vars name <;> rfl

end Variables

end CollectionRunner
