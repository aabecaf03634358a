import CollectionRunner.Collection.Basic

/-!
A collection as a JSON value.

Members that are absent, empty lists of events, headers and variables, a switch that is off and an
empty head are left out; all else is written, the unknown members behind the known ones.
-/

namespace CollectionRunner

open Json

/-- A member that is written when it is there. -/
def memberOf (key : String) (write : α → Value) : Option α → List (String × Value)
  | some a => [(key, write a)]
  | none => []

/-- A list that is written when it is not empty. -/
def memberList (key : String) (write : α → Value) : List α → List (String × Value)
  | [] => []
  | a :: as => [(key, .array ((a :: as).map write))]

/-- A switch that is written when it is on. -/
def memberSwitch (key : String) (on : Bool) : List (String × Value) :=
  if on then [(key, .bool true)] else []

/-- A header as an object. -/
def Header.toValue (h : Header) : Value :=
  .object (("key", .string h.key) :: memberOf "value" .string h.value ++
    memberSwitch "disabled" h.disabled ++ h.extras)

/-- The files as one path or as a list. -/
def FileSource.toValue : FileSource → Value
  | .single path => .string path
  | .several ps => .array (ps.map .string)

/-- A form parameter as an object. -/
def FormParam.toValue (p : FormParam) : Value :=
  .object (("key", .string p.key) :: memberOf "type" .string p.kind ++
    memberOf "value" .string p.value ++ memberOf "src" FileSource.toValue p.src ++
    memberSwitch "disabled" p.disabled ++ p.extras)

/-- The file of a body as an object. -/
def FileRef.toValue (f : FileRef) : Value := .object (memberOf "src" .string f.src ++ f.extras)

/-- Form parameters as a list. -/
def FormParam.listValue (ps : List FormParam) : Value := .array (ps.map FormParam.toValue)

/-- A body as an object. -/
def Body.toValue (b : Body) : Value :=
  .object (memberOf "mode" .string b.mode ++ memberOf "raw" .string b.raw ++
    memberOf "urlencoded" FormParam.listValue b.urlencoded ++
    memberOf "formdata" FormParam.listValue b.formdata ++ memberOf "file" FileRef.toValue b.file ++
    memberOf "options" id b.options ++ b.extras)

/-- A request as an object. -/
def Request.toValue (r : Request) : Value :=
  .object (("method", .string r.method) :: ("url", r.url.toValue) ::
    memberList "header" Header.toValue r.header ++ memberOf "body" Body.toValue r.body ++ r.extras)

/-- A script as one text or as a list of lines. -/
def ScriptSource.toValue : ScriptSource → Value
  | .lines ls => .array (ls.map .string)
  | .text s => .string s

/-- The script of an event as an object. -/
def EventScript.toValue (s : EventScript) : Value :=
  .object (memberOf "exec" ScriptSource.toValue s.exec ++ s.extras)

/-- An event as an object. -/
def Event.toValue (e : Event) : Value :=
  .object (("listen", .string e.listen) :: memberOf "script" EventScript.toValue e.script ++
    e.extras)

/-- The members of an item in front of the items that it lists. -/
def ItemContent.headMembers (c : ItemContent) : List (String × Value) :=
  memberOf "name" .string c.name

/-- The members of an item behind the items that it lists. -/
def ItemContent.tailMembers (c : ItemContent) : List (String × Value) :=
  memberOf "request" Request.toValue c.request ++ memberList "event" Event.toValue c.event ++
    c.extras

mutual
/-- An item as an object. -/
def Item.toValue : Item → Value
  | .leaf c => .object (c.headMembers ++ c.tailMembers)
  | .folder c children =>
    .object (c.headMembers ++ ("item", .array (Item.listValues children)) :: c.tailMembers)

/-- The items of a list as objects. -/
def Item.listValues : List Item → List Value
  | [] => []
  | i :: is => i.toValue :: Item.listValues is
end

/-- The head of a collection as an object. -/
def CollectionInfo.toValue (i : CollectionInfo) : Value :=
  .object (memberOf "name" .string i.name ++ i.extras)

/-- A variable as an object. -/
def CollectionVariable.toValue (v : CollectionVariable) : Value :=
  .object (("key", .string v.key) :: memberOf "value" id v.value ++
    memberSwitch "disabled" v.disabled ++ v.extras)

/-- A collection as an object. -/
def Collection.toValue (c : Collection) : Value :=
  .object ((if c.info.isEmpty then [] else [("info", c.info.toValue)]) ++
    ("item", .array (Item.listValues c.item)) ::
    memberList "variable" CollectionVariable.toValue c.vars ++
    memberList "event" Event.toValue c.event ++ c.extras)

end CollectionRunner
