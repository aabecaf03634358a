import CollectionRunner.Collection.Leaves
import Mathlib.Data.List.Basic
import Mathlib.Data.List.Forall2

/-!
# The listing of the requests of a collection

The requests are gathered by a loop over a stack of items. Main statement: the loop ends, with the
listing of the tree by recursion. The requests in it are those of the items that hold a request and
list no further items, each such item once, in the order of the document, with the names of the
folders that lead to it.

The loop carries one invariant, that what was found so far and what the stack still holds are the
whole listing, and one measure, the number of items on the stack at any depth.
-/

namespace CollectionRunner

/-! ## Places in the tree -/

/-- A path leads from an item to an item in it, through folders with the given names: each number is
a place among the items of a folder. -/
inductive Item.Reaches : Item → (path : List Nat) → (folders : List String) → Item → Prop
  | self (i : Item) : Reaches i [] [] i
  | inside {content : ItemContent} {children : List Item} {n : Nat} {i j : Item}
      {path : List Nat} {folders : List String} (hplace : children[n]? = some i)
      (hreach : Reaches i path folders j) :
      Reaches (.folder content children) (n :: path) (content.name.getD "<unnamed>" :: folders) j

/-- A path leads from the top of a collection to an item, through folders with the given names. -/
def Collection.Reaches (c : Collection) (path : List Nat) (folders : List String) (j : Item) :
    Prop :=
  ∃ n rest i, path = n :: rest ∧ c.item[n]? = some i ∧ i.Reaches rest folders j

mutual
/-- The paths to the requests of an item, in the order of the document. -/
def Item.leafPaths : Item → List (List Nat)
  | .leaf c => if c.request.isSome then [[]] else []
  | .folder _ children => Item.listLeafPaths 0 children

/-- The paths to the requests of a list of items, of which the first one stands at place `n`. -/
def Item.listLeafPaths (n : Nat) : List Item → List (List Nat)
  | [] => []
  | i :: is => i.leafPaths.map (List.cons n) ++ Item.listLeafPaths (n + 1) is
end

/-- The paths to the requests of a collection, in the order of the document. -/
def Collection.leafPaths (c : Collection) : List (List Nat) := Item.listLeafPaths 0 c.item

/-! ## Order -/

theorem exists_of_mem_map_cons {n : Nat} {path : List Nat} {paths : List (List Nat)}
    (h : path ∈ paths.map (List.cons n)) : ∃ rest, path = n :: rest := by
  obtain ⟨rest, -, rfl⟩ := List.mem_map.mp h
  exact ⟨rest, rfl⟩

/-- The paths to the items of a list start with the places of the items. -/
theorem Item.exists_of_mem_listLeafPaths {is : List Item} {n : Nat} {path : List Nat}
    (h : path ∈ listLeafPaths n is) : ∃ m rest, path = m :: rest ∧ n ≤ m := by
  induction is generalizing n with
  | nil => cases h
  | cons i is ih =>
    rw [listLeafPaths] at h
    rcases List.mem_append.mp h with h | h
    · obtain ⟨rest, rfl⟩ := exists_of_mem_map_cons h
      exact ⟨n, rest, rfl, Nat.le_refl n⟩
    · obtain ⟨m, rest, rfl, hm⟩ := ih h
      exact ⟨m, rest, rfl, by omega⟩

mutual
theorem Item.pairwise_leafPaths : ∀ i : Item, i.leafPaths.Pairwise (· < ·)
  | .leaf c => by
    rw [leafPaths]
    split
    · exact List.pairwise_singleton _ _
    · exact .nil
  | .folder _ children => by
    rw [leafPaths]
    exact pairwise_listLeafPaths 0 children

theorem Item.pairwise_listLeafPaths (n : Nat) :
    ∀ is : List Item, (listLeafPaths n is).Pairwise (· < ·)
  | [] => by
    rw [listLeafPaths]
    exact .nil
  | i :: is => by
    rw [listLeafPaths]
    refine List.pairwise_append.mpr ⟨?_, pairwise_listLeafPaths (n + 1) is, ?_⟩
    · rw [List.pairwise_map]
      exact (pairwise_leafPaths i).imp fun h => List.cons_lt_cons_self.mpr h
    · intro path hpath other hother
      obtain ⟨rest, rfl⟩ := exists_of_mem_map_cons hpath
      obtain ⟨m, rest', rfl, hm⟩ := exists_of_mem_listLeafPaths hother
      exact List.Lex.rel (by omega)
end

/-! ## What stands at the paths -/

/-- A request of the listing stands at a path, and its folders are `outer` and those that the path
leads through. -/
def Item.Lists (i : Item) (outer : List String) (path : List Nat) (l : Leaf) : Prop :=
  ∃ inner, l.folders = outer ++ inner ∧ i.Reaches path inner (.leaf l.content) ∧
    l.content.request = some l.request

/-- The same in a list of items of which the first one stands at place `n`. -/
def Item.ListsAmong (is : List Item) (n : Nat) (outer : List String) (path : List Nat) (l : Leaf) :
    Prop :=
  ∃ m rest i, path = (n + m) :: rest ∧ is[m]? = some i ∧ i.Lists outer rest l

theorem Item.Lists.inside {content : ItemContent} {children : List Item} {outer : List String}
    {path : List Nat} {l : Leaf}
    (h : ListsAmong children 0 (outer ++ [content.displayName]) path l) :
    (Item.folder content children).Lists outer path l := by
  obtain ⟨m, rest, i, rfl, hplace, inner, hfolders, hreach, hrequest⟩ := h
  rw [List.append_assoc, List.singleton_append] at hfolders
  rw [Nat.zero_add]
  exact ⟨_, hfolders, .inside hplace hreach, hrequest⟩

theorem Item.ListsAmong.succ {i : Item} {is : List Item} {n : Nat} {outer : List String}
    {path : List Nat} {l : Leaf} (h : ListsAmong is (n + 1) outer path l) :
    ListsAmong (i :: is) n outer path l := by
  obtain ⟨m, rest, j, rfl, hplace, hlists⟩ := h
  exact ⟨m + 1, rest, j, by rw [Nat.add_right_comm, Nat.add_assoc], hplace, hlists⟩

mutual
/-- The paths and the requests of an item belong together, one by one. -/
theorem Item.forall₂_leaves (outer : List String) :
    ∀ i : Item, List.Forall₂ (i.Lists outer) i.leafPaths (i.leaves outer)
  | .leaf c => by
    rw [leafPaths, leaves]
    cases hrequest : c.request with
    | none => exact .nil
    | some r =>
      have hlists : (Item.leaf c).Lists outer [] ⟨outer, c, r⟩ :=
        ⟨[], (List.append_nil outer).symm, .self _, hrequest⟩
      exact .cons hlists .nil
  | .folder c children => by
    rw [leafPaths, leaves]
    exact (forall₂_listLeaves (outer ++ [c.displayName]) 0 children).imp fun _ _ => .inside

theorem Item.forall₂_listLeaves (outer : List String) (n : Nat) :
    ∀ is : List Item, List.Forall₂ (ListsAmong is n outer) (listLeafPaths n is)
      (listLeaves outer is)
  | [] => by
    rw [listLeafPaths, listLeaves]
    exact .nil
  | i :: is => by
    rw [listLeafPaths, listLeaves]
    refine List.rel_append ?_ ((forall₂_listLeaves outer (n + 1) is).imp fun _ _ => .succ)
    rw [List.forall₂_map_left_iff]
    refine (forall₂_leaves outer i).imp fun path l hlists => ?_
    exact ⟨0, path, i, rfl, rfl, hlists⟩
end

theorem Item.mem_listLeafPaths {is : List Item} {m : Nat} {i : Item} {path : List Nat}
    (hplace : is[m]? = some i) (hpath : path ∈ i.leafPaths) (n : Nat) :
    (n + m) :: path ∈ listLeafPaths n is := by
  induction is generalizing n m with
  | nil => cases hplace
  | cons j is ih =>
    rw [listLeafPaths]
    cases m with
    | zero =>
      obtain rfl : j = i := Option.some.inj hplace
      exact List.mem_append_left _ (List.mem_map_of_mem hpath)
    | succ m =>
      have hrest := ih hplace (n + 1)
      rw [Nat.add_right_comm, Nat.add_assoc] at hrest
      exact List.mem_append_right _ hrest

theorem exists_of_mem_left {R : α → β → Prop} {as : List α} {bs : List β} {a : α}
    (h : List.Forall₂ R as bs) (ha : a ∈ as) : ∃ b ∈ bs, R a b := by
  induction h with
  | nil => cases ha
  | cons hab _ ih =>
    rcases List.mem_cons.mp ha with rfl | ha
    · exact ⟨_, List.mem_cons_self, hab⟩
    · obtain ⟨b, hb, hrest⟩ := ih ha
      exact ⟨b, List.mem_cons_of_mem _ hb, hrest⟩

/-- Every request that can be reached stands at one of the paths. -/
theorem Item.Reaches.mem_leafPaths {i : Item} {path : List Nat} {folders : List String}
    {c : ItemContent} (h : i.Reaches path folders (.leaf c)) (hrequest : c.request.isSome) :
    path ∈ i.leafPaths := by
  -- the induction is on the way to the leaf, so that the leaf must not be part of its index
  generalize hj : Item.leaf c = j at h
  induction h with
  | self i =>
    subst hj
    rw [leafPaths, if_pos hrequest]
    exact List.mem_singleton.mpr rfl
  | @inside content children n i j path folders hplace _ ih =>
    have hmem := mem_listLeafPaths hplace (ih hj) 0
    rw [Nat.zero_add] at hmem
    rwa [leafPaths]

/-! ## The loop -/

/-- The loop at one moment: the items still to visit, the next one in front, and the requests found
so far. -/
structure Gathering where
  stack : List Visit
  found : List Leaf

namespace Gathering

/-- Takes the item on top of the stack. -/
def step (g : Gathering) : Gathering :=
  match g.stack with
  | [] => g
  | (folders, .leaf c) :: stack =>
    match c.request with
    | some r => ⟨stack, g.found ++ [⟨folders, c, r⟩]⟩
    | none => ⟨stack, g.found⟩
  | (folders, .folder c children) :: stack =>
    ⟨visits (folders ++ [c.displayName]) children ++ stack, g.found⟩

/-- The loop after a number of steps; it does not change once the stack is empty. -/
def run : Nat → Gathering → Gathering
  | 0, g => g
  | n + 1, g => run n g.step

/-- The loop as it starts: the top items are on the stack. -/
def start (c : Collection) : Gathering := ⟨visits [] c.item, []⟩

/-- The listing that the loop works towards: what was found and what the stack still holds. -/
def listing (g : Gathering) : List Leaf := g.found ++ Item.gather g.stack

/-- The invariant of the loop. -/
theorem listing_step (g : Gathering) : g.step.listing = g.listing := by
  obtain ⟨stack, found⟩ := g
  match stack with
  | [] => rfl
  | (folders, .leaf c) :: stack =>
    cases hrequest : c.request with
    | none => simp only [listing, step, Item.gather, hrequest]
    | some r => simp only [listing, step, Item.gather, hrequest, List.append_assoc,
        List.singleton_append]
  | (folders, .folder c children) :: stack => simp only [listing, step, Item.gather]

/-- The measure of the loop. -/
theorem stackSize_step {g : Gathering} {v : Visit} {stack : List Visit}
    (hstack : g.stack = v :: stack) : stackSize g.step.stack + 1 = stackSize g.stack := by
  obtain ⟨folders, i⟩ := v
  cases i with
  | leaf c =>
    simp only [step, hstack]
    rw [stackSize, Item.size, Nat.add_comm]
    cases c.request <;> rfl
  | folder c children =>
    simp only [step, hstack]
    rw [stackSize_visits, stackSize, Item.size]
    omega

theorem size_pos (i : Item) : 0 < i.size := by
  cases i <;> rw [Item.size] <;> omega

/-- The loop ends: each step takes one item off those that are left. -/
theorem run_stackSize (n : Nat) (g : Gathering) (hsize : stackSize g.stack = n) :
    g.run n = ⟨[], g.listing⟩ := by
  induction n generalizing g with
  | zero =>
    obtain ⟨stack, found⟩ := g
    cases stack with
    | nil => rw [run, listing, Item.gather, List.append_nil]
    | cons v stack =>
      have hpos := size_pos v.2
      have hzero : v.2.size + stackSize stack = 0 := hsize
      omega
  | succ n ih =>
    obtain ⟨stack, found⟩ := g
    cases stack with
    | nil => cases hsize
    | cons v stack =>
      have hstep := stackSize_step (g := ⟨v :: stack, found⟩) rfl
      -- the measure goes down by one and the invariant holds for what the step leaves
      rw [run, ih _ (by omega), listing_step]

end Gathering

namespace Collection

/-- The loop ends after one step for each item of the collection, with an empty stack and the
listing of the tree by recursion. The listing has one entry for each path that leads to an item with
a request and no list of items, and for no other path; the entries stand in the order of these
paths, which is that of the document. Each entry has the request that stands at its path, and the
names of the folders that the path leads through, the outermost one first. -/
theorem leaves_listing (c : Collection) :
    (Gathering.start c).run (Item.listSize c.item) = ⟨[], c.leaves⟩ ∧
      c.leaves = Item.listLeaves [] c.item ∧
      c.leafPaths.Pairwise (· < ·) ∧
      (∀ path, path ∈ c.leafPaths ↔ ∃ folders content,
        c.Reaches path folders (.leaf content) ∧ content.request.isSome) ∧
      List.Forall₂ (fun path l =>
          c.Reaches path l.folders (.leaf l.content) ∧ l.content.request = some l.request)
        c.leafPaths c.leaves := by
  have hentries : List.Forall₂ (fun path l =>
      c.Reaches path l.folders (.leaf l.content) ∧ l.content.request = some l.request)
      c.leafPaths c.leaves := by
    rw [leaves_eq]
    refine (Item.forall₂_listLeaves [] 0 c.item).imp ?_
    rintro _ l ⟨m, rest, i, rfl, hplace, inner, hfolders, hreach, hrequest⟩
    rw [List.nil_append] at hfolders
    rw [Nat.zero_add, hfolders]
    exact ⟨⟨m, rest, i, rfl, hplace, hreach⟩, hrequest⟩
  refine ⟨?_, c.leaves_eq, Item.pairwise_listLeafPaths 0 c.item, fun path => ⟨?_, ?_⟩, hentries⟩
  · have hsize : stackSize (Gathering.start c).stack = Item.listSize c.item := by
      have h := stackSize_visits [] c.item []
      rwa [List.append_nil] at h
    rw [Gathering.run_stackSize _ _ hsize]
    rfl
  · intro hpath
    obtain ⟨l, -, hreach, hrequest⟩ := exists_of_mem_left hentries hpath
    exact ⟨l.folders, l.content, hreach, by rw [hrequest]; rfl⟩
  · rintro ⟨folders, content, ⟨n, rest, i, rfl, hplace, hreach⟩, hrequest⟩
    have hmem := Item.mem_listLeafPaths hplace (hreach.mem_leafPaths hrequest) 0
    rwa [Nat.zero_add] at hmem

end Collection

end CollectionRunner
