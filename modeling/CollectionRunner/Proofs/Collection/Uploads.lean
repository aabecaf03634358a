import CollectionRunner.Collection.Fixture
import Mathlib.Algebra.GroupWithZero.Nat
import Mathlib.Data.List.Basic

/-!
# Pointing uploads at a fixture

Laws of the structural recursion `Item.inject`. What it does to one request is stated as a relation
with a rule for each kind of upload (`Request.Pointed`). The leaves of the tree are rewritten one by
one and stay where they are, the counts are those of the leaves, and a second fixture makes the
first one forgotten.
-/

namespace CollectionRunner

/-! ## One request -/

/-- A form parameter after pointing it at a fixture: a file parameter of the package has the fixture
as its only path. -/
def FormParam.pointed (fixture : String) (p : FormParam) : FormParam :=
  if p.key = "package" ∧ p.kind = some "file" then { p with src := some (.single fixture) } else p

/-- The request posts a form. The method may be written in letters of any case. -/
def Request.PostsForm (r : Request) (b : Body) : Prop :=
  r.method.toList.map Char.toUpper = "POST".toList ∧ b.mode = some "formdata"

instance (r : Request) (b : Body) : Decidable (r.PostsForm b) :=
  inferInstanceAs (Decidable (_ ∧ _))

/-- What becomes of a request when its uploads are pointed at a fixture. -/
inductive Request.Pointed (fixture : String) (r : Request) : Request → Prop
  | form {b : Body} (hbody : r.body = some b) (hform : r.PostsForm b) :
      Pointed fixture r
        { r with body := some { b with
            formdata := b.formdata.map fun ps => ps.map (FormParam.pointed fixture) } }
  | file {b : Body} (hbody : r.body = some b) (hfile : b.mode = some "file") :
      Pointed fixture r
        { r with body := some { b with
            file := some ⟨some fixture, (b.file.map FileRef.extras).getD []⟩ } }
  /-- Any other request stays as it is. -/
  | other (hother : ∀ b, r.body = some b → ¬ r.PostsForm b ∧ b.mode ≠ some "file") :
      Pointed fixture r r

/-- The parameters of a request that carry the package in a posted form. -/
def Request.packageParams (r : Request) : List FormParam :=
  match r.body with
  | some b =>
    if r.PostsForm b then
      (b.formdata.getD []).filter fun p => p.key = "package" ∧ p.kind = some "file"
    else []
  | none => []

/-- Whether the body of a request is a file. -/
def Request.hasFileBody (r : Request) : Bool := r.body.any fun b => b.mode = some "file"

theorem FormParam.isPackage_iff (p : FormParam) :
    p.isPackage = true ↔ p.key = "package" ∧ p.kind = some "file" := by
  simp [isPackage, isFile, packageField]

theorem FormParam.inject_eq_pointed (fixture : String) : inject fixture = pointed fixture := by
  funext p
  unfold inject pointed
  by_cases h : p.isPackage = true
  · rw [if_pos h, if_pos (p.isPackage_iff.mp h)]
  · rw [if_neg h, if_neg (fun h' => h (p.isPackage_iff.mpr h'))]

/-- The modes of a body that matter here are told by their names. -/
theorem Body.mode?_cases (b : Body) :
    (b.mode? = some .formdata ↔ b.mode = some "formdata") ∧
      (b.mode? = some .file ↔ b.mode = some "file") := by
  cases hm : b.mode with
  | none => simp [mode?, hm]
  | some name =>
    simp only [mode?, hm, Option.map_some, Option.some.injEq, modeOf]
    constructor <;> constructor <;> intro h
    · split_ifs at h with _ _ h3
      exact h3
    · subst h
      rfl
    · split_ifs at h with _ _ _ h4
      exact h4
    · subst h
      rfl

theorem Request.injectionKind_form {r : Request} {b : Body} (h : r.PostsForm b) :
    r.injectionKind b = .form := by
  obtain ⟨hpost, hmode⟩ := h
  have hm := b.mode?_cases.1.mpr hmode
  have hp : r.isPost = true := by simpa [isPost] using hpost
  simp [injectionKind, hm, hp]

theorem Request.injectionKind_file {r : Request} {b : Body} (h : b.mode = some "file") :
    r.injectionKind b = .file := by
  simp [injectionKind, b.mode?_cases.2.mpr h]

theorem Request.injectionKind_none {r : Request} {b : Body}
    (hform : ¬ r.PostsForm b) (hfile : b.mode ≠ some "file") : r.injectionKind b = .none := by
  unfold injectionKind
  split
  · rename_i hm
    have hmode := b.mode?_cases.1.mp hm
    rw [if_neg]
    intro hp
    exact hform ⟨by simpa [isPost] using hp, hmode⟩
  · rename_i hm
    exact absurd (b.mode?_cases.2.mp hm) hfile
  · rfl

theorem Request.inject_form {r : Request} {b : Body} (hbody : r.body = some b)
    (hform : r.PostsForm b) (fixture : String) :
    r.inject fixture = { r with body := some { b with
      formdata := b.formdata.map fun ps => ps.map (FormParam.pointed fixture) } } := by
  simp [inject, hbody, injectBody, injectionKind_form hform, FormParam.inject_eq_pointed]

theorem Request.inject_file {r : Request} {b : Body} (hbody : r.body = some b)
    (hfile : b.mode = some "file") (fixture : String) :
    r.inject fixture = { r with body := some { b with
      file := some ⟨some fixture, (b.file.map FileRef.extras).getD []⟩ } } := by
  have hextras : (b.file.getD {}).extras = (b.file.map FileRef.extras).getD [] := by
    cases b.file <;> rfl
  simp [inject, hbody, injectBody, injectionKind_file hfile, hextras]

theorem Request.inject_other {r : Request}
    (hother : ∀ b, r.body = some b → ¬ r.PostsForm b ∧ b.mode ≠ some "file") (fixture : String) :
    r.inject fixture = r := by
  obtain ⟨method, url, header, body, extras⟩ := r
  cases body with
  | none => rfl
  | some b =>
    obtain ⟨hform, hfile⟩ := hother b rfl
    simp only [inject, Option.map_some, injectBody, injectionKind_none hform hfile]

/-- The rules give one result for every request, and it is that of the recursion. -/
theorem Request.pointed_iff (fixture : String) (r r' : Request) :
    r.Pointed fixture r' ↔ r' = r.inject fixture := by
  constructor
  · rintro (⟨hbody, hform⟩ | ⟨hbody, hfile⟩ | hother)
    · rw [inject_form hbody hform]
    · rw [inject_file hbody hfile]
    · rw [inject_other hother]
  · rintro rfl
    by_cases hform : ∃ b, r.body = some b ∧ r.PostsForm b
    · obtain ⟨b, hbody, hform⟩ := hform
      rw [inject_form hbody hform]
      exact .form hbody hform
    · by_cases hfile : ∃ b, r.body = some b ∧ b.mode = some "file"
      · obtain ⟨b, hbody, hfile⟩ := hfile
        rw [inject_file hbody hfile]
        exact .file hbody hfile
      · have hother : ∀ b, r.body = some b → ¬ r.PostsForm b ∧ b.mode ≠ some "file" :=
          fun b hbody => ⟨fun h => hform ⟨b, hbody, h⟩, fun h => hfile ⟨b, hbody, h⟩⟩
        rw [inject_other hother]
        exact .other hother

theorem Request.injection_of_body {r : Request} {b : Body} (hbody : r.body = some b) :
    r.injection = match r.injectionKind b with
      | .form => ⟨1, (b.formdata.getD []).countP FormParam.isPackage, 0⟩
      | .file => ⟨1, 0, 1⟩
      | .none => ⟨1, 0, 0⟩ := by
  cases hkind : r.injectionKind b <;> simp only [injection, hbody, hkind]

theorem FormParam.countP_isPackage (ps : List FormParam) :
    ps.countP FormParam.isPackage =
      (ps.filter fun p => p.key = "package" ∧ p.kind = some "file").length := by
  rw [List.countP_eq_length_filter]
  congr 1
  refine List.filter_congr fun p _ => ?_
  rw [Bool.eq_iff_iff, FormParam.isPackage_iff, decide_eq_true_iff]

/-- What is counted for a request: one visit, its parameters of the package, its file. -/
theorem Request.injection_eq (r : Request) :
    r.injection = ⟨1, r.packageParams.length, if r.hasFileBody then 1 else 0⟩ := by
  cases hbody : r.body with
  | none => simp [injection, packageParams, hasFileBody, hbody]
  | some b =>
    rw [injection_of_body hbody]
    simp only [packageParams, hasFileBody, hbody, Option.any_some]
    by_cases hform : r.PostsForm b
    · have hfile : b.mode ≠ some "file" := by
        rw [hform.2]
        decide
      rw [injectionKind_form hform, if_pos hform, decide_eq_false hfile,
        FormParam.countP_isPackage]
      rfl
    · rw [if_neg hform]
      by_cases hfile : b.mode = some "file"
      · rw [injectionKind_file hfile, decide_eq_true hfile]
        rfl
      · rw [injectionKind_none hform hfile, decide_eq_false hfile]
        rfl

theorem FormParam.inject_inject (first fixture : String) (p : FormParam) :
    (p.inject first).inject fixture = p.inject fixture := by
  unfold inject
  by_cases h : p.isPackage = true
  · have h' : FormParam.isPackage { p with src := some (.single first) } = true := h
    rw [if_pos h, if_pos h', if_pos h]
  · rw [if_neg h, if_neg h]

theorem FormParam.isPackage_inject (fixture : String) (p : FormParam) :
    (p.inject fixture).isPackage = p.isPackage := by
  unfold inject
  split <;> rfl

/-- Pointing a body at a fixture changes neither its mode nor what is to be done with it. -/
theorem Request.injectionKind_injectBody (r : Request) (fixture : String) (b : Body) :
    r.injectionKind (r.injectBody fixture b) = r.injectionKind b := by
  have hmode : (r.injectBody fixture b).mode = b.mode := by
    unfold injectBody
    split <;> rfl
  unfold injectionKind Body.mode?
  rw [hmode]

theorem Request.injectBody_injectBody (r : Request) (first fixture : String) (b : Body) :
    r.injectBody fixture (r.injectBody first b) = r.injectBody fixture b := by
  have hkind := r.injectionKind_injectBody first b
  cases hk : r.injectionKind b with
  | form =>
    rw [hk] at hkind
    simp only [injectBody, hk] at hkind ⊢
    simp only [hkind, Option.map_map, Body.mk.injEq, true_and, and_true]
    congr 1
    funext ps
    simp [FormParam.inject_inject]
  | file =>
    rw [hk] at hkind
    simp only [injectBody, hk] at hkind ⊢
    simp only [hkind, Option.getD_some]
  | none =>
    rw [hk] at hkind
    simp only [injectBody, hk]

theorem Request.inject_inject (first fixture : String) (r : Request) :
    (r.inject first).inject fixture = r.inject fixture := by
  obtain ⟨method, url, header, body, extras⟩ := r
  cases body with
  | none => rfl
  | some b =>
    have h := injectBody_injectBody ⟨method, url, header, some b, extras⟩ first fixture b
    simp only [inject, Option.map_some, mk.injEq, Option.some.injEq, true_and, and_true]
    exact h

theorem Request.countP_injectBody {r : Request} {b : Body} (hk : r.injectionKind b = .form)
    (fixture : String) :
    ((r.injectBody fixture b).formdata.getD []).countP FormParam.isPackage =
      (b.formdata.getD []).countP FormParam.isPackage := by
  simp only [injectBody, hk]
  cases b.formdata with
  | none => rfl
  | some ps =>
    simp only [Option.map_some, Option.getD_some, List.countP_map]
    congr 1
    funext p
    exact p.isPackage_inject fixture

theorem Request.injection_inject (fixture : String) (r : Request) :
    (r.inject fixture).injection = r.injection := by
  cases hbody : r.body with
  | none => rw [inject, injection, injection, hbody]; rfl
  | some b =>
    have hbody' : (r.inject fixture).body = some (r.injectBody fixture b) := by
      rw [inject, hbody]
      rfl
    have hkind : (r.inject fixture).injectionKind (r.injectBody fixture b) = r.injectionKind b :=
      r.injectionKind_injectBody fixture b
    rw [injection_of_body hbody', injection_of_body hbody, hkind]
    cases hk : r.injectionKind b with
    | form => rw [countP_injectBody hk]
    | file => rfl
    | none => rfl

/-! ## The tree -/

/-- The leaf with the uploads of its request pointed at a fixture. -/
def Leaf.inject (fixture : String) (l : Leaf) : Leaf :=
  { l with
    content := { l.content with request := l.content.request.map (Request.inject fixture) }
    request := l.request.inject fixture }

mutual
/-- Leaves keep their number, their order and their folders, and change one by one. -/
theorem Item.leaves_inject (fixture : String) (folders : List String) :
    ∀ i : Item, (i.inject fixture).leaves folders = (i.leaves folders).map (Leaf.inject fixture)
  | .leaf c => by
    cases hr : c.request <;> simp [Item.inject, Item.leaves, Leaf.inject, hr]
  | .folder c children => by
    simpa [Item.inject, Item.leaves] using
      Item.listLeaves_injectList fixture (folders ++ [c.displayName]) children

theorem Item.listLeaves_injectList (fixture : String) (folders : List String) :
    ∀ is : List Item, Item.listLeaves folders (Item.injectList fixture is) =
      (Item.listLeaves folders is).map (Leaf.inject fixture)
  | [] => rfl
  | i :: is => by
    simp [Item.injectList, Item.listLeaves, Item.leaves_inject fixture folders i,
      Item.listLeaves_injectList fixture folders is]
end

mutual
theorem Item.inject_inject (first fixture : String) :
    ∀ i : Item, (i.inject first).inject fixture = i.inject fixture
  | .leaf c => by
    cases hr : c.request <;> simp [Item.inject, hr, Request.inject_inject]
  | .folder c children => by
    simp [Item.inject, Item.injectList_injectList first fixture children]

theorem Item.injectList_injectList (first fixture : String) :
    ∀ is : List Item, Item.injectList fixture (Item.injectList first is) =
      Item.injectList fixture is
  | [] => rfl
  | i :: is => by
    simp [Item.injectList, Item.inject_inject first fixture i,
      Item.injectList_injectList first fixture is]
end

namespace Collection

theorem leaves_inject (fixture : String) (c : Collection) :
    (c.inject fixture).leaves = c.leaves.map (Leaf.inject fixture) := by
  rw [leaves_eq, leaves_eq]
  exact Item.listLeaves_injectList fixture [] c.item

/-- A second fixture makes the first one forgotten. -/
theorem inject_inject (first fixture : String) (c : Collection) :
    (c.inject first).inject fixture = c.inject fixture := by
  simp [inject, Item.injectList_injectList]

/-- What is counted does not depend on what the uploads were pointed at before. -/
theorem injection_inject (fixture : String) (c : Collection) :
    (c.inject fixture).injection = c.injection := by
  have hleaf : (fun l : Leaf => l.request.injection) ∘ Leaf.inject fixture =
      fun l => l.request.injection := by
    funext l
    exact l.request.injection_inject fixture
  rw [injection, injection, leaves_inject, List.map_map, hleaf]

end Collection

/-! ## The counts -/

/-- The report of some leaves in front of which `report` was counted. -/
theorem foldl_add_injection (report : InjectionReport) (ls : List Leaf) :
    (ls.map fun l => l.request.injection).foldl .add report =
      ⟨report.visited + ls.length,
        report.formFields + (ls.map fun l => l.request.packageParams.length).sum,
        report.fileBodies + ls.countP fun l => l.request.hasFileBody⟩ := by
  induction ls generalizing report with
  | nil => rfl
  | cons l ls ih =>
    rw [List.map_cons, List.foldl_cons, ih, l.request.injection_eq]
    simp only [InjectionReport.add, List.length_cons, List.map_cons, List.sum_cons,
      List.countP_cons, InjectionReport.mk.injEq]
    omega

/-- The counts of a collection are those of its leaves. -/
theorem Collection.injection_eq (c : Collection) :
    c.injection =
      ⟨c.leaves.length, (c.leaves.map fun l => l.request.packageParams.length).sum,
        c.leaves.countP fun l => l.request.hasFileBody⟩ := by
  rw [injection, foldl_add_injection]
  simp

end CollectionRunner
