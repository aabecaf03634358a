import CollectionRunner.Proofs.Json.Canonical

/-!
# The normal form of a collection document

What writing a collection makes of the document that it was read from, said of the document alone:
which members are added where they are absent, and which ones are left out because they say nothing.
Members without a rule, and their values at any depth, are no part of it and stay as they are.
-/

namespace CollectionRunner.NormalForm

open Json Keyed

/-! ## The rules -/

/-- The kinds of record in a collection document. -/
inductive Record
  | collection
  | info
  | item
  | request
  | url
  | header
  | body
  | param
  | file
  | event
  | script
  | var
  deriving DecidableEq, Repr

/-- What is known of the form of a value. A record that is written in another way than as an object
is like a value of which nothing is known. -/
inductive Shape
  | plain
  | record (r : Record)
  | records (r : Record)
  deriving DecidableEq, Repr

/-- The values that say no more than an absent member. -/
inductive Blank
  | null
  | off
  | emptyList
  | emptyObject
  deriving DecidableEq, Repr

/-- Whether a value is the blank one. -/
def Blank.holds : Blank → Value → Bool
  | .null, .null => true
  | .off, .bool false => true
  | .emptyList, .array [] => true
  | .emptyObject, .object [] => true
  | _, _ => false

/-- What becomes of a member. -/
inductive Rule
  /-- It is added with the given value where it is absent. -/
  | added (shape : Shape) (value : Value)
  /-- It is left out if its normal form is blank. -/
  | removed (shape : Shape) (blank : Blank)
  deriving Repr

/-- The form of the value of a member. -/
def Rule.shape : Rule → Shape
  | added shape _ => shape
  | removed shape _ => shape

/-- Whether a member with this value in normal form is left out. -/
def Rule.leavesOut : Rule → Value → Bool
  | added _ _, _ => false
  | removed _ blank, v => blank.holds v

/-- The member that is added where there is none. -/
def Rule.added? : Rule → Option Value
  | added _ value => some value
  | removed _ _ => none

namespace Record

/-- The members of a record that have a rule. -/
def rules : Record → List (String × Rule)
  | collection =>
    [("info", .removed (.record info) .emptyObject), ("item", .added (.records item) (.array [])),
      ("variable", .removed (.records var) .emptyList),
      ("event", .removed (.records event) .emptyList)]
  | info => [("name", .removed .plain .null)]
  | item =>
    [("name", .removed .plain .null), ("item", .removed (.records item) .null),
      ("request", .removed (.record request) .null),
      ("event", .removed (.records event) .emptyList)]
  | request =>
    [("method", .added .plain (.string "GET")), ("url", .added (.record url) (.string "")),
      ("header", .removed (.records header) .emptyList), ("body", .removed (.record body) .null)]
  | url => [("raw", .removed .plain .null)]
  | header =>
    [("key", .added .plain (.string "")), ("value", .removed .plain .null),
      ("disabled", .removed .plain .off)]
  | body =>
    [("mode", .removed .plain .null), ("raw", .removed .plain .null),
      ("urlencoded", .removed (.records param) .null),
      ("formdata", .removed (.records param) .null), ("file", .removed (.record file) .null),
      ("options", .removed .plain .null)]
  | param =>
    [("key", .added .plain (.string "")), ("type", .removed .plain .null),
      ("value", .removed .plain .null), ("src", .removed .plain .null),
      ("disabled", .removed .plain .off)]
  | file => [("src", .removed .plain .null)]
  | event =>
    [("listen", .added .plain (.string "")), ("script", .removed (.record script) .null)]
  | script => [("exec", .removed .plain .null)]
  | var => [("key", .added .plain (.string "")), ("disabled", .removed .plain .off)]

/-- The rule of a member, if it has one. -/
def rule? (r : Record) (key : String) : Option Rule := r.rules.lookup key

/-- The form of the value of a member; nothing is known of one without a rule. -/
def shapeOf (r : Record) (key : String) : Shape := ((r.rule? key).map Rule.shape).getD .plain

/-- Whether a member with this value in normal form is left out. -/
def leavesOut (r : Record) (key : String) (v : Value) : Bool :=
  (r.rule? key).any fun rule => rule.leavesOut v

/-- The members that are added where they are absent. -/
def additions (r : Record) : List (String × Value) :=
  r.rules.filterMap fun rule => rule.2.added?.map fun v => (rule.1, v)

end Record

/-- Adds the members that are absent. -/
def addMissing : (additions : List (String × Value)) → Members → Members
  | [], ms => ms
  | (key, v) :: additions, ms =>
    addMissing additions (if (ms.get? key).isSome then ms else ms.put key v)

mutual
/-- A value in the normal form of its shape. -/
def normal : Shape → Value → Value
  | .record r, .object ms => .object (addMissing r.additions (normalMembers r ms))
  | .records r, .array items => .array (normalItems r items)
  | _, v => v

/-- The items of a list of records. -/
def normalItems (r : Record) : List Value → List Value
  | [] => []
  | v :: vs => normal (.record r) v :: normalItems r vs

/-- The members of a record that are not left out. -/
def normalMembers (r : Record) : List (String × Value) → List (String × Value)
  | [] => []
  | (key, v) :: ms =>
    if r.leavesOut key (normal (r.shapeOf key) v) then normalMembers r ms
    else (key, normal (r.shapeOf key) v) :: normalMembers r ms
end

/-! ## What is found in a record in normal form -/

namespace Record

/-- What becomes of a member that is there. -/
def keep? (r : Record) (key : String) (v : Value) : Option Value :=
  if r.leavesOut key (normal (r.shapeOf key) v) then none else some (normal (r.shapeOf key) v)

/-- What a record in normal form has for a member, given what the record has for it. -/
def member (r : Record) (key : String) (v : Option Value) : Option Value :=
  (v.bind (r.keep? key)).or (get? r.additions key)

end Record

theorem get?_addMissing (additions : List (String × Value)) (ms : Members) (key : String) :
    (addMissing additions ms).get? key = (ms.get? key).or (get? additions key) := by
  induction additions generalizing ms with
  | nil => exact Option.or_none.symm
  | cons addition additions ih =>
    obtain ⟨k, v⟩ := addition
    rw [addMissing, ih, get?_cons]
    by_cases hkey : key = k
    · rw [if_pos hkey, hkey]
      -- what is there stays, and what is added for the key first stays as well
      cases hget : ms.get? k with
      | none => rw [Option.isSome_none, if_neg Bool.false_ne_true, get?_put_self]; rfl
      | some w => rw [Option.isSome_some, if_pos rfl, hget]; rfl
    · rw [if_neg hkey]
      split
      · rfl
      · rw [get?_put_ne ms hkey]

theorem sorted_addMissing (additions : List (String × Value)) {ms : Members} (h : ms.Sorted) :
    (addMissing additions ms).Sorted := by
  induction additions generalizing ms with
  | nil => exact h
  | cons addition additions ih =>
    rw [addMissing]
    split
    · exact ih h
    · exact ih (h.put _ _)

theorem mem_normalMembers {r : Record} {ms : List (String × Value)} {m : String × Value}
    (h : m ∈ normalMembers r ms) : ∃ e ∈ ms, e.1 = m.1 := by
  induction ms with
  | nil => cases h
  | cons e ms ih =>
    obtain ⟨key, v⟩ := e
    have hlater : m ∈ normalMembers r ms → ∃ e ∈ (key, v) :: ms, e.1 = m.1 := by
      intro hm
      obtain ⟨e, he, hkey⟩ := ih hm
      exact ⟨e, List.mem_cons_of_mem _ he, hkey⟩
    rw [normalMembers] at h
    split at h
    · exact hlater h
    · rcases List.mem_cons.mp h with rfl | h
      · exact ⟨_, List.mem_cons_self, rfl⟩
      · exact hlater h

theorem sorted_normalMembers (r : Record) {ms : Members} (h : ms.Sorted) :
    Sorted (normalMembers r ms) := by
  induction ms with
  | nil => exact sorted_nil
  | cons e ms ih =>
    obtain ⟨hhead, htail⟩ := List.pairwise_cons.mp h
    rw [normalMembers]
    split
    · exact ih htail
    · refine List.pairwise_cons.mpr ⟨fun m hm => ?_, ih htail⟩
      obtain ⟨e, he, hkey⟩ := mem_normalMembers hm
      exact hkey ▸ hhead e he

theorem get?_normalMembers (r : Record) {ms : Members} (h : ms.Sorted) (key : String) :
    get? (normalMembers r ms) key = (ms.get? key).bind (r.keep? key) := by
  induction ms with
  | nil => rfl
  | cons e ms ih =>
    obtain ⟨k, v⟩ := e
    have hms := ih (List.pairwise_cons.mp h).2
    rw [normalMembers, get?_cons]
    by_cases hkey : key = k
    · subst hkey
      rw [if_pos rfl, Option.bind_some, Record.keep?]
      split
      · -- a member that is left out does not come again behind itself
        rw [hms, h.get?_tail]
        rfl
      · rw [get?_cons, if_pos rfl]
    · rw [if_neg hkey]
      split
      · exact hms
      · rw [get?_cons, if_neg hkey, hms]

/-- The normal form of a record, member by member. -/
theorem normal_record (r : Record) {ms : Members} (h : ms.Sorted) :
    ∃ ns : Members, normal (.record r) (.object ms) = .object ns ∧ ns.Sorted ∧
      ∀ key, ns.get? key = r.member key (ms.get? key) := by
  refine ⟨addMissing r.additions (normalMembers r ms), by rw [normal],
    sorted_addMissing _ (sorted_normalMembers r h), fun key => ?_⟩
  rw [get?_addMissing, get?_normalMembers r h]
  rfl

theorem normal_plain (v : Value) : normal .plain v = v := by
  cases v <;> rw [normal] <;> intros <;> contradiction

theorem normalItems_eq_map (r : Record) (vs : List Value) :
    normalItems r vs = vs.map (normal (.record r)) := by
  induction vs with
  | nil => rw [normalItems, List.map_nil]
  | cons v vs ih => rw [normalItems, ih, List.map_cons]

/-- Only null has null for its normal form. -/
theorem holds_null_normal {v : Value} (h : v ≠ .null) (shape : Shape) :
    Blank.null.holds (normal shape v) = false := by
  cases v with
  | null => exact absurd rfl h
  | array items => cases shape <;> rfl
  | object ms => cases shape <;> rfl
  | _ => cases shape <;> rfl

/-! ## One member -/

namespace Record

theorem nodup_rules (r : Record) : (r.rules.map Prod.fst).Nodup := by
  cases r <;> decide

theorem member_none (r : Record) (key : String) :
    r.member key none = (r.rule? key).bind Rule.added? := by
  rw [member, Option.bind_none, Option.none_or]
  exact get?_filterMap r.nodup_rules Rule.added? key

theorem member_some (r : Record) (key : String) (v : Value) :
    r.member key (some v) = (r.keep? key v).or ((r.rule? key).bind Rule.added?) := by
  rw [← member_none]
  rfl

/-- Nothing becomes of a member without a rule. -/
theorem member_of_rule_none {r : Record} {key : String} (h : r.rule? key = none)
    (v : Option Value) : r.member key v = v := by
  cases v with
  | none => rw [member_none, h, Option.bind_none]
  | some v =>
    rw [member_some, keep?, leavesOut, shapeOf, h, Option.bind_none, Option.or_none]
    exact congrArg some (normal_plain v)

theorem member_of_added {r : Record} {key : String} {shape : Shape} {value : Value}
    (h : r.rule? key = some (.added shape value)) (v : Value) :
    r.member key (some v) = some (normal shape v) := by
  rw [member_some, keep?, leavesOut, shapeOf, h]
  rfl

theorem member_of_removed {r : Record} {key : String} {shape : Shape} {blank : Blank}
    (h : r.rule? key = some (.removed shape blank)) (v : Value) :
    r.member key (some v) =
      if blank.holds (normal shape v) then none else some (normal shape v) := by
  rw [member_some, keep?, leavesOut, shapeOf, h]
  exact Option.or_none

end Record

end CollectionRunner.NormalForm
