import CollectionRunner.Collection.RequestUrl

/-!
Collections: trees of requests with their test scripts.

Members of the document that mean nothing to a run are kept beside those that do, so that a
collection can be written again without a loss.
-/

namespace CollectionRunner

open Json

/-- A header of a request. -/
structure Header where
  key : String := ""
  value : Option String := none
  disabled : Bool := false
  extras : Members := []
  deriving Repr

/-- The files of a form parameter. -/
inductive FileSource
  | single (path : String)
  | several (ps : List String)
  deriving DecidableEq, Repr

/-- The paths of the files. -/
def FileSource.paths : FileSource → List String
  | .single path => [path]
  | .several ps => ps

/-- A parameter of a form. -/
structure FormParam where
  key : String := ""
  kind : Option String := none
  value : Option String := none
  src : Option FileSource := none
  disabled : Bool := false
  extras : Members := []
  deriving Repr

/-- Whether the parameter stands for files. -/
def FormParam.isFile (p : FormParam) : Bool := p.kind == some "file"

/-- The file of a body. -/
structure FileRef where
  src : Option String := none
  extras : Members := []
  deriving Repr

/-- What a body consists of. -/
inductive BodyMode
  | raw
  | urlencoded
  | formdata
  | file
  | other
  deriving DecidableEq, Repr

/-- The body of a request. -/
structure Body where
  mode : Option String := none
  raw : Option String := none
  urlencoded : Option (List FormParam) := none
  formdata : Option (List FormParam) := none
  file : Option FileRef := none
  options : Option Value := none
  extras : Members := []
  deriving Repr

namespace Body

/-- The mode of a body by its name. -/
def modeOf (name : String) : BodyMode :=
  if name = "raw" then .raw
  else if name = "urlencoded" then .urlencoded
  else if name = "formdata" then .formdata
  else if name = "file" then .file
  else .other

/-- The mode of a body. -/
def mode? (b : Body) : Option BodyMode := b.mode.map modeOf

/-- The language that a raw body declares. -/
def rawLanguage? (b : Body) : Option String := do
  let options ← b.options
  let raw ← options.member? "raw"
  let language ← raw.member? "language"
  language.string?

end Body

/-- A request of a collection. -/
structure Request where
  method : String := "GET"
  url : RequestUrl := .text ""
  header : List Header := []
  body : Option Body := none
  extras : Members := []
  deriving Repr

/-- The text of a script, whole or in lines. -/
inductive ScriptSource
  | lines (ls : List String)
  | text (s : String)
  deriving DecidableEq, Repr

/-- The text of a script. -/
def ScriptSource.source : ScriptSource → String
  | .lines ls => "\n".intercalate ls
  | .text s => s

/-- A script that belongs to an event. -/
structure EventScript where
  exec : Option ScriptSource := none
  extras : Members := []
  deriving Repr

/-- The text of the script; a script without one is empty. -/
def EventScript.source (s : EventScript) : String := (s.exec.map ScriptSource.source).getD ""

/-- An event of a run and what is done when it occurs. -/
structure Event where
  listen : String := ""
  script : Option EventScript := none
  extras : Members := []
  deriving Repr

/-- What an item of a collection holds beside other items. -/
structure ItemContent where
  name : Option String := none
  request : Option Request := none
  event : List Event := []
  extras : Members := []
  deriving Repr

namespace ItemContent

/-- The name of an item. -/
def displayName (c : ItemContent) : String := c.name.getD "<unnamed>"

/-- The texts of the test scripts of an item, with line feeds between them. -/
def testScript (c : ItemContent) : String :=
  "\n".intercalate
    ((c.event.filter fun e => e.listen == "test").filterMap fun e =>
      e.script.map EventScript.source)

end ItemContent

/-- An item of a collection. It is a folder when it lists further items, also when it has a request
beside them. -/
inductive Item
  | leaf (content : ItemContent)
  | folder (content : ItemContent) (children : List Item)
  deriving Repr

instance : Inhabited Item := ⟨.leaf {}⟩

/-- The head of a collection. -/
structure CollectionInfo where
  name : Option String := none
  extras : Members := []
  deriving Repr

/-- Whether the head says nothing. -/
def CollectionInfo.isEmpty (i : CollectionInfo) : Bool := i.name.isNone && i.extras.isEmpty

/-- A variable of a collection. An explicit null is told from a missing value. -/
structure CollectionVariable where
  key : String := ""
  value : Option Value := none
  disabled : Bool := false
  extras : Members := []
  deriving Repr

/-- The text of a value: that of a string, or the JSON text of any other value but null. -/
def CollectionVariable.text? (textOf : Value → String) (v : CollectionVariable) : Option String :=
  match v.value with
  | none => none
  | some .null => none
  | some (.string s) => some s
  | some other => some (textOf other)

/-- A collection. -/
structure Collection where
  info : CollectionInfo := {}
  item : List Item := []
  vars : List CollectionVariable := []
  event : List Event := []
  extras : Members := []
  deriving Repr

/-- The name of a collection. -/
def Collection.displayName (c : Collection) : String := c.info.name.getD "collection"

end CollectionRunner
