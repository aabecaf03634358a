import CollectionRunner.Collection.Basic
import CollectionRunner.Json.Printer
import CollectionRunner.Variables

/-!
The requests of a collection in the order in which they are sent: depth first, in the order of the
document. An item that lists further items is never a request itself.
-/

namespace CollectionRunner

/-- A request with the item that holds it and the names of the folders around it, the outermost one
first. -/
structure Leaf where
  folders : List String
  content : ItemContent
  request : Request
  deriving Repr

/-- The names that lead to a request. -/
def Leaf.displayPath (l : Leaf) : String :=
  " / ".intercalate (l.folders ++ [l.content.displayName])

mutual
/-- The number of items in an item, itself included. -/
def Item.size : Item → Nat
  | .leaf _ => 1
  | .folder _ children => 1 + Item.listSize children

/-- The number of items in a list, at any depth. -/
def Item.listSize : List Item → Nat
  | [] => 0
  | i :: is => i.size + Item.listSize is
end

/-- An item with the names of the folders around it. -/
abbrev Visit := List String × Item

/-- The items of a folder, with the names that lead to it. -/
def visits (folders : List String) (is : List Item) : List Visit := is.map (Prod.mk folders)

/-- The number of items on a stack, at any depth. -/
def stackSize : List Visit → Nat
  | [] => 0
  | (_, i) :: stack => i.size + stackSize stack

theorem stackSize_visits (folders : List String) (is : List Item) (stack : List Visit) :
    stackSize (visits folders is ++ stack) = Item.listSize is + stackSize stack := by
  induction is with
  | nil => rw [visits, List.map_nil, List.nil_append, Item.listSize, Nat.zero_add]
  | cons i is ih =>
    rw [visits, List.map_cons, List.cons_append, stackSize, ← visits, ih, Item.listSize,
      Nat.add_assoc]

/-- The requests of the items on a stack, the top one in front. A folder is replaced by its
items. -/
def Item.gather : List Visit → List Leaf
  | [] => []
  | (folders, .leaf c) :: stack =>
    match c.request with
    | some r => ⟨folders, c, r⟩ :: gather stack
    | none => gather stack
  | (folders, .folder c children) :: stack =>
    gather (visits (folders ++ [c.displayName]) children ++ stack)
termination_by stack => stackSize stack
decreasing_by
  · rw [stackSize, Item.size]
    omega
  · rw [stackSize, Item.size]
    omega
  · rw [stackSize, stackSize_visits, Item.size]
    omega

mutual
/-- The requests of an item that stands in the given folders. -/
def Item.leaves (folders : List String) : Item → List Leaf
  | .leaf c =>
    match c.request with
    | some r => [⟨folders, c, r⟩]
    | none => []
  | .folder c children => Item.listLeaves (folders ++ [c.displayName]) children

/-- The requests of a list of items. -/
def Item.listLeaves (folders : List String) : List Item → List Leaf
  | [] => []
  | i :: is => i.leaves folders ++ Item.listLeaves folders is
end

namespace Collection

/-- The requests of a collection. -/
def leaves (c : Collection) : List Leaf := Item.gather (visits [] c.item)

/-- The variables of a collection that are switched on and have a value, in order. -/
def activeVariables (c : Collection) : Variables :=
  (c.vars.filter fun v => !v.disabled).filterMap fun v =>
    (v.text? Json.Value.text).map fun text => (v.key, text)

end Collection

mutual
/-- The requests of the top item of a stack come in front of those below it. -/
theorem Item.gather_cons (folders : List String) (stack : List Visit) :
    ∀ i : Item, gather ((folders, i) :: stack) = i.leaves folders ++ gather stack
  | .leaf c => by
    rw [gather, leaves]
    cases c.request <;> rfl
  | .folder c children => by rw [gather, leaves, gather_visits _ stack children]

theorem Item.gather_visits (folders : List String) (stack : List Visit) :
    ∀ is : List Item, gather (visits folders is ++ stack) = listLeaves folders is ++ gather stack
  | [] => by rw [visits, List.map_nil, listLeaves, List.nil_append, List.nil_append]
  | i :: is => by
    rw [visits, List.map_cons, List.cons_append, gather_cons folders _ i, ← visits,
      gather_visits folders stack is, listLeaves, List.append_assoc]
end

/-- The stack is emptied in the order of the tree. -/
theorem Collection.leaves_eq (c : Collection) : c.leaves = Item.listLeaves [] c.item := by
  rw [leaves, ← List.append_nil (visits _ _), Item.gather_visits, Item.gather, List.append_nil]

theorem Item.listLeaves_append (folders : List String) (is js : List Item) :
    Item.listLeaves folders (is ++ js) =
      Item.listLeaves folders is ++ Item.listLeaves folders js := by
  induction is with
  | nil => simp [Item.listLeaves]
  | cons i is ih => simp [Item.listLeaves, ih, List.append_assoc]

end CollectionRunner
