import CollectionRunner.Proofs.Collection.Uploads

/-!
# The walk over a collection that points its uploads at a fixture

The walk keeps a stack of places in the tree and changes the tree in place: it takes the top place,
puts the places of its items on the stack when it is a folder, and otherwise rewrites its request
where it stands. Main statement: the walk ends, and it ends with the structural recursion
`Collection.inject` and its counts.

A place on the stack stays valid because the walk changes nothing at it before it is taken. The run
lemmas carry this as a hypothesis: `listAt?` of the list that is being walked gives the items that
are done and those still to do.
-/

namespace CollectionRunner

/-! ## Places in a tree of items -/

/-- Where an item stands: the places of the folders around it, the outermost one first, and its own
place among the items of the innermost one. -/
structure Address where
  folders : List Nat
  place : Nat
  deriving DecidableEq, Repr

/-- The items of the folder at the end of a path. -/
def listAt? : (path : List Nat) → List Item → Option (List Item)
  | [], is => some is
  | n :: path, is =>
    match is[n]? with
    | some (.folder _ children) => listAt? path children
    | _ => none

/-- The folder with other items in it. -/
def Item.updateChildren (f : List Item → List Item) : Item → Item
  | .leaf c => .leaf c
  | .folder c children => .folder c (f children)

/-- Changes the items of the folder at the end of a path. -/
def updateList (f : List Item → List Item) : (path : List Nat) → List Item → List Item
  | [], is => f is
  | n :: path, is => is.modify n (Item.updateChildren (updateList f path))

/-- The item at an address. -/
def itemAt? (a : Address) (is : List Item) : Option Item :=
  (listAt? a.folders is).bind fun siblings => siblings[a.place]?

/-- Puts an item at an address. -/
def putItem (i : Item) (a : Address) (is : List Item) : List Item :=
  updateList (fun siblings => siblings.set a.place i) a.folders is

/-- The addresses of items with one path, from a place on. -/
def addresses (path : List Nat) (start count : Nat) : List Address :=
  (List.range' start count).map (Address.mk path)

theorem addresses_succ (path : List Nat) (start count : Nat) :
    addresses path start (count + 1) = ⟨path, start⟩ :: addresses path (start + 1) count := by
  simp [addresses, List.range'_succ]

theorem listAt?_concat {path : List Nat} {items : List Item} {done todo : List Item}
    {c : ItemContent} {children : List Item}
    (h : listAt? path items = some (done ++ .folder c children :: todo)) :
    listAt? (path ++ [done.length]) items = some children := by
  induction path generalizing items with
  | nil =>
    cases h
    simp [listAt?]
  | cons n path ih =>
    rw [List.cons_append]
    unfold listAt? at h ⊢
    split at h
    · exact ih h
    · cases h

/-- What is put into the folder at a path is found there. -/
theorem listAt?_updateList {path : List Nat} {items is : List Item}
    (h : listAt? path items = some is) (f : List Item → List Item) :
    listAt? path (updateList f path items) = some (f is) := by
  induction path generalizing items with
  | nil =>
    cases h
    rfl
  | cons n path ih =>
    unfold listAt? at h
    split at h
    · rename_i c children hn
      have hchild := ih h
      rw [updateList, listAt?, List.getElem?_modify_eq, hn]
      exact hchild
    · cases h

/-- Only the items that stand in the folder matter for a change of them. -/
theorem updateList_congr {path : List Nat} {items is : List Item}
    (h : listAt? path items = some is) {f g : List Item → List Item} (hfg : f is = g is) :
    updateList f path items = updateList g path items := by
  induction path generalizing items with
  | nil =>
    cases h
    exact hfg
  | cons n path ih =>
    unfold listAt? at h
    split at h
    · rename_i c children hn
      have hchild := ih h
      rw [updateList, updateList]
      refine List.ext_getElem? fun m => ?_
      rw [List.getElem?_modify, List.getElem?_modify]
      by_cases hm : n = m
      · subst hm
        simp [hn, Item.updateChildren, hchild]
      · simp [hm]
    · cases h

theorem updateList_id (path : List Nat) (items : List Item) :
    updateList id path items = items := by
  induction path generalizing items with
  | nil => rfl
  | cons n path ih =>
    have hid : Item.updateChildren (updateList id path) = id := by
      funext i
      cases i <;> simp [Item.updateChildren, ih]
    rw [updateList, hid, List.modify_id]

theorem updateList_updateList (f g : List Item → List Item) (path : List Nat)
    (items : List Item) :
    updateList g path (updateList f path items) = updateList (g ∘ f) path items := by
  induction path generalizing items with
  | nil => rfl
  | cons n path ih =>
    have hcomp : Item.updateChildren (updateList g path) ∘ Item.updateChildren (updateList f path) =
        Item.updateChildren (updateList (g ∘ f) path) := by
      funext i
      cases i <;> simp [Item.updateChildren, ih]
    rw [updateList, updateList, updateList, List.modify_modify_eq, hcomp]

theorem updateList_concat (f : List Item → List Item) (path : List Nat) (n : Nat)
    (items : List Item) :
    updateList f (path ++ [n]) items =
      updateList (fun is => is.modify n (Item.updateChildren f)) path items := by
  induction path generalizing items with
  | nil => rfl
  | cons m path ih =>
    rw [List.cons_append, updateList, updateList]
    congr 1
    funext i
    cases i <;> simp [Item.updateChildren, ih]

/-! ## The walk -/

/-- The walk at one moment: the items as they are by now, the places still to take with the next one
in front, and what was counted so far. -/
structure Walk where
  items : List Item
  stack : List Address
  report : InjectionReport

namespace Walk

/-- Takes the place on top of the stack. -/
def step (fixture : String) (s : Walk) : Walk :=
  match s.stack with
  | [] => s
  | a :: stack =>
    match itemAt? a s.items with
    | none => { s with stack }
    | some (.folder _ children) =>
      { s with stack := addresses (a.folders ++ [a.place]) 0 children.length ++ stack }
    | some (.leaf c) =>
      match c.request with
      | none => { s with stack }
      | some r =>
        { items := putItem (.leaf { c with request := some (r.inject fixture) }) a s.items
          stack
          report := s.report.add r.injection }

/-- The walk after a number of steps; it does not change once the stack is empty. -/
def run (fixture : String) : Nat → Walk → Walk
  | 0, s => s
  | n + 1, s => run fixture n (s.step fixture)

/-- The walk as it starts: the places of the top items are on the stack. -/
def start (c : Collection) : Walk := ⟨c.item, addresses [] 0 c.item.length, {}⟩

theorem run_add (fixture : String) (m n : Nat) (s : Walk) :
    s.run fixture (m + n) = (s.run fixture m).run fixture n := by
  induction m generalizing s with
  | zero => rw [Nat.zero_add]; rfl
  | succ m ih => rw [Nat.succ_add, run, run, ih]

end Walk

/-- A report with the counts of further leaves. -/
def InjectionReport.addLeaves (report : InjectionReport) (ls : List Leaf) : InjectionReport :=
  (ls.map fun l => l.request.injection).foldl .add report

theorem InjectionReport.addLeaves_append (report : InjectionReport) (ls more : List Leaf) :
    report.addLeaves (ls ++ more) = (report.addLeaves ls).addLeaves more := by
  simp [addLeaves]

/-! ## One step -/

theorem itemAt?_of_listAt? {path : List Nat} {items done todo : List Item} {i : Item}
    (h : listAt? path items = some (done ++ i :: todo)) :
    itemAt? ⟨path, done.length⟩ items = some i := by
  simp [itemAt?, h]

theorem updateList_of_listAt? {path : List Nat} {items is : List Item}
    (h : listAt? path items = some is) : updateList (fun _ => is) path items = items := by
  have hid : updateList (fun _ => is) path items = updateList id path items :=
    updateList_congr h rfl
  rw [hid, updateList_id]

theorem putItem_of_listAt? {path : List Nat} {items done todo : List Item} {i : Item}
    (h : listAt? path items = some (done ++ i :: todo)) (i' : Item) :
    putItem i' ⟨path, done.length⟩ items = updateList (fun _ => done ++ i' :: todo) path items :=
  updateList_congr h (by simp)

theorem modify_length_append (f : Item → Item) (done : List Item) (i : Item) (todo : List Item) :
    (done ++ i :: todo).modify done.length f = done ++ f i :: todo := by
  induction done with
  | nil => rfl
  | cons d done ih => rw [List.cons_append, List.length_cons, List.modify_succ_cons, ih]; rfl

/-- The items of a folder are written through to the folder itself. -/
theorem updateList_concat_of_listAt? {path : List Nat} {items done todo : List Item}
    {c : ItemContent} {children : List Item}
    (h : listAt? path items = some (done ++ .folder c children :: todo)) (is : List Item) :
    updateList (fun _ => is) (path ++ [done.length]) items =
      updateList (fun _ => done ++ .folder c is :: todo) path items := by
  rw [updateList_concat]
  exact updateList_congr h (modify_length_append _ _ _ _)

/-- A leaf on top of the stack is rewritten where it stands, and counted. -/
theorem Walk.step_leaf (fixture : String) (folders : List String) {path : List Nat}
    {items done todo : List Item} {c : ItemContent} (stack : List Address)
    (report : InjectionReport) (h : listAt? path items = some (done ++ .leaf c :: todo)) :
    (Walk.mk items (⟨path, done.length⟩ :: stack) report).step fixture =
      ⟨updateList (fun _ => done ++ (Item.leaf c).inject fixture :: todo) path items, stack,
        report.addLeaves ((Item.leaf c).leaves folders)⟩ := by
  have hitem := itemAt?_of_listAt? h
  cases hr : c.request with
  | none =>
    have hself : (Item.leaf c).inject fixture = .leaf c := by
      rw [Item.inject, hr, Option.map_none, ← hr]
    have hnone : (Item.leaf c).leaves folders = [] := by
      simp only [Item.leaves, hr]
    rw [hself, hnone, updateList_of_listAt? h]
    simp only [step, hitem, hr]
    rfl
  | some r =>
    have hone : (Item.leaf c).leaves folders = [⟨folders, c, r⟩] := by
      simp only [Item.leaves, hr]
    rw [hone, ← putItem_of_listAt? h]
    simp only [step, hitem, hr, Item.inject, Option.map_some]
    rfl

/-- A folder on top of the stack makes place for its items. -/
theorem Walk.step_folder (fixture : String) {path : List Nat} {items done todo : List Item}
    {c : ItemContent} {children : List Item} (stack : List Address) (report : InjectionReport)
    (h : listAt? path items = some (done ++ .folder c children :: todo)) :
    (Walk.mk items (⟨path, done.length⟩ :: stack) report).step fixture =
      ⟨items, addresses (path ++ [done.length]) 0 children.length ++ stack, report⟩ := by
  simp only [step, itemAt?_of_listAt? h]

/-! ## The run -/

mutual
/-- From the moment at which an item is on top of the stack, the walk takes one step for each item
in it, and then the item is rewritten and nothing else has changed. -/
theorem Walk.run_item (fixture : String) (folders : List String) :
    ∀ (i : Item) {path : List Nat} {items done todo : List Item} (stack : List Address)
      (report : InjectionReport), listAt? path items = some (done ++ i :: todo) →
      (Walk.mk items (⟨path, done.length⟩ :: stack) report).run fixture i.size =
        ⟨updateList (fun _ => done ++ i.inject fixture :: todo) path items, stack,
          report.addLeaves (i.leaves folders)⟩
  | .leaf c, path, items, done, todo, stack, report, h => by
    rw [Item.size, run, step_leaf fixture folders stack report h]
    rfl
  | .folder c children, path, items, done, todo, stack, report, h => by
    have hlist : listAt? (path ++ [done.length]) items = some ([] ++ children) := listAt?_concat h
    rw [Item.size, Nat.add_comm, run, step_folder fixture stack report h]
    have hrun := Walk.run_list fixture (folders ++ [c.displayName]) children stack report hlist
    rw [List.length_nil, List.nil_append] at hrun
    rw [hrun, updateList_concat_of_listAt? h, Item.inject, Item.leaves]

/-- The same for the items of a list that are still to do. -/
theorem Walk.run_list (fixture : String) (folders : List String) :
    ∀ (todo : List Item) {path : List Nat} {items done : List Item} (stack : List Address)
      (report : InjectionReport), listAt? path items = some (done ++ todo) →
      (Walk.mk items (addresses path done.length todo.length ++ stack) report).run fixture
          (Item.listSize todo) =
        ⟨updateList (fun _ => done ++ Item.injectList fixture todo) path items, stack,
          report.addLeaves (Item.listLeaves folders todo)⟩
  | [], path, items, done, stack, report, h => by
    rw [Item.injectList, updateList_of_listAt? h]
    rfl
  | i :: todo, path, items, done, stack, report, h => by
    rw [List.length_cons, addresses_succ, List.cons_append, Item.listSize, run_add,
      Walk.run_item fixture folders i _ report h]
    -- the item is done; the rest stands behind one more finished item
    have hnext : listAt? path (updateList (fun _ => done ++ i.inject fixture :: todo) path items) =
        some ((done ++ [i.inject fixture]) ++ todo) := by
      rw [listAt?_updateList h, List.append_assoc, List.singleton_append]
    have hrun :=
      Walk.run_list fixture folders todo stack (report.addLeaves (i.leaves folders)) hnext
    rw [List.length_append, List.length_singleton] at hrun
    rw [hrun, updateList_updateList, Item.injectList, Item.listLeaves,
      InjectionReport.addLeaves_append, List.append_assoc, List.singleton_append]
    rfl
end

/-! ## The whole collection -/

namespace Collection

/-- The walk over a collection, with one step for each of its items. -/
def uploadWalk (fixture : String) (c : Collection) : Walk :=
  (Walk.start c).run fixture (Item.listSize c.item)

theorem uploadWalk_eq (fixture : String) (c : Collection) :
    c.uploadWalk fixture = ⟨(c.inject fixture).item, [], c.injection⟩ := by
  have htop : listAt? [] c.item = some ([] ++ c.item) := rfl
  have h := Walk.run_list fixture [] c.item [] {} htop
  rw [List.append_nil] at h
  rw [injection, leaves_eq]
  exact h

/-- The walk ends with an empty stack. It leaves the collection of the structural recursion, in
which every request is rewritten by the rules for uploads, and it counts one visit for each leaf,
each parameter of the package in a posted form, and each body that is a file. What the uploads were
pointed at before has no influence on the collection or on the counts. -/
theorem uploadWalk_inject (fixture : String) (c : Collection) :
    (c.uploadWalk fixture).stack = [] ∧
      { c with item := (c.uploadWalk fixture).items } = c.inject fixture ∧
      (∀ r r' : Request, r.Pointed fixture r' ↔ r' = r.inject fixture) ∧
      (c.inject fixture).leaves = c.leaves.map (Leaf.inject fixture) ∧
      (c.uploadWalk fixture).report =
        ⟨c.leaves.length, (c.leaves.map fun l => l.request.packageParams.length).sum,
          c.leaves.countP fun l => l.request.hasFileBody⟩ ∧
      (∀ first, (c.inject first).inject fixture = c.inject fixture) ∧
      (∀ first, ((c.inject first).uploadWalk fixture).report = (c.uploadWalk fixture).report) := by
  rw [uploadWalk_eq]
  refine ⟨rfl, rfl, Request.pointed_iff fixture, c.leaves_inject fixture, c.injection_eq, ?_, ?_⟩
  · intro first
    exact c.inject_inject first fixture
  · intro first
    rw [uploadWalk_eq]
    exact c.injection_inject first

end Collection

end CollectionRunner
