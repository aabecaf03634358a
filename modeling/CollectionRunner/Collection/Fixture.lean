import CollectionRunner.Collection.Leaves

/-!
Pointing the uploads of a collection at one file, the fixture.

In a request that posts a form, the file parameters of the uploaded package get the fixture as their
only file. In any request whose body is a file, the fixture becomes that file.
-/

namespace CollectionRunner

/-- The form parameter that carries the uploaded package. -/
def packageField : String := "package"

/-- How many requests were visited and how many uploads were changed. -/
structure InjectionReport where
  visited : Nat := 0
  formFields : Nat := 0
  fileBodies : Nat := 0
  deriving DecidableEq, Repr

namespace InjectionReport

/-- All uploads that were changed. -/
def rewritten (r : InjectionReport) : Nat := r.formFields + r.fileBodies

/-- Both reports together. -/
def add (a b : InjectionReport) : InjectionReport :=
  ⟨a.visited + b.visited, a.formFields + b.formFields, a.fileBodies + b.fileBodies⟩

end InjectionReport

/-- Whether the parameter carries the package. -/
def FormParam.isPackage (p : FormParam) : Bool := p.key == packageField && p.isFile

/-- The parameter with the fixture as its only file, if it carries the package. -/
def FormParam.inject (fixture : String) (p : FormParam) : FormParam :=
  if p.isPackage then { p with src := some (.single fixture) } else p

/-- Which uploads of a body are pointed at the fixture. -/
inductive InjectionKind
  | form
  | file
  | none
  deriving DecidableEq, Repr

namespace Request

/-- Whether the method is that of an upload, in letters of any case. -/
def isPost (r : Request) : Bool :=
  r.method.toList.map Char.toUpper == ['P', 'O', 'S', 'T']

/-- Which uploads of a body are pointed at the fixture in a request of its kind. -/
def injectionKind (r : Request) (b : Body) : InjectionKind :=
  match b.mode? with
  | some .formdata => if r.isPost then .form else .none
  | some .file => .file
  | _ => .none

/-- The body with its uploads pointed at the fixture. -/
def injectBody (r : Request) (fixture : String) (b : Body) : Body :=
  match r.injectionKind b with
  | .form => { b with formdata := b.formdata.map fun ps => ps.map (FormParam.inject fixture) }
  | .file => { b with file := some { b.file.getD {} with src := some fixture } }
  | .none => b

/-- The request with its uploads pointed at the fixture. -/
def inject (fixture : String) (r : Request) : Request :=
  { r with body := r.body.map (r.injectBody fixture) }

/-- What pointing the uploads of a request at a fixture changes. -/
def injection (r : Request) : InjectionReport :=
  match r.body with
  | none => ⟨1, 0, 0⟩
  | some b =>
    match r.injectionKind b with
    | .form => ⟨1, (b.formdata.getD []).countP FormParam.isPackage, 0⟩
    | .file => ⟨1, 0, 1⟩
    | .none => ⟨1, 0, 0⟩

end Request

mutual
/-- The item with the uploads of its requests pointed at the fixture. -/
def Item.inject (fixture : String) : Item → Item
  | .leaf c => .leaf { c with request := c.request.map (Request.inject fixture) }
  | .folder c children => .folder c (Item.injectList fixture children)

/-- The items of a list with the uploads of their requests pointed at the fixture. -/
def Item.injectList (fixture : String) : List Item → List Item
  | [] => []
  | i :: is => i.inject fixture :: Item.injectList fixture is
end

namespace Collection

/-- The collection with all uploads pointed at the fixture. -/
def inject (fixture : String) (c : Collection) : Collection :=
  { c with item := Item.injectList fixture c.item }

/-- What pointing the uploads at a fixture changes. -/
def injection (c : Collection) : InjectionReport :=
  (c.leaves.map fun l => l.request.injection).foldl .add {}

end Collection

end CollectionRunner
