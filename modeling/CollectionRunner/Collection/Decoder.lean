import CollectionRunner.Collection.Basic

/-!
Reading a collection from a JSON document.

Every record keeps the members it does not know. A missing member has its default; null stands for
nothing where a member may be absent, and for itself as the value of a variable.
-/

namespace CollectionRunner

open Json Decoder

/-- A list of strings, if a value is one. -/
def strings? (v : Value) : Option (List String) := do
  let items ← v.array?
  items.mapM Value.string?

/-- The members of a header. -/
def Header.fields : List (Slot Header) :=
  [.of "key" Decoder.string (fun s h => { h with key := s }),
    .of "value" (optional Decoder.string) (fun s h => { h with value := s }),
    .of "disabled" Decoder.bool (fun b h => { h with disabled := b })]

/-- Reads a header. -/
def Header.decode : Decoder Header :=
  openRecord {} fields fun k v h => { h with extras := h.extras.put k v }

/-- The files that a value names. -/
def FileSource.ofValue? (v : Value) : Option FileSource :=
  match v with
  | .string s => some (.single s)
  | v => (strings? v).map .several

/-- The members of a form parameter. -/
def FormParam.fields : List (Slot FormParam) :=
  [.of "key" Decoder.string (fun s p => { p with key := s }),
    .of "type" (optional Decoder.string) (fun s p => { p with kind := s }),
    .of "value" (optional Decoder.string) (fun s p => { p with value := s }),
    .of "src" (optional (untagged FileSource.ofValue?)) (fun s p => { p with src := s }),
    .of "disabled" Decoder.bool (fun b p => { p with disabled := b })]

/-- Reads a form parameter. -/
def FormParam.decode : Decoder FormParam :=
  openRecord {} fields fun k v p => { p with extras := p.extras.put k v }

/-- The members of the file of a body. -/
def FileRef.fields : List (Slot FileRef) :=
  [.of "src" (optional Decoder.string) (fun s f => { f with src := s })]

/-- Reads the file of a body. -/
def FileRef.decode : Decoder FileRef :=
  openRecord {} fields fun k v f => { f with extras := f.extras.put k v }

/-- The members of a body. -/
def Body.fields : List (Slot Body) :=
  [.of "mode" (optional Decoder.string) (fun s b => { b with mode := s }),
    .of "raw" (optional Decoder.string) (fun s b => { b with raw := s }),
    .of "urlencoded" (optional (array FormParam.decode)) (fun ps b => { b with urlencoded := ps }),
    .of "formdata" (optional (array FormParam.decode)) (fun ps b => { b with formdata := ps }),
    .of "file" (optional FileRef.decode) (fun f b => { b with file := f }),
    .of "options" (optional Decoder.value) (fun v b => { b with options := v })]

/-- Reads a body. -/
def Body.decode : Decoder Body :=
  openRecord {} fields fun k v b => { b with extras := b.extras.put k v }

/-- The members of a request. -/
def Request.fields : List (Slot Request) :=
  [.of "method" Decoder.string (fun s r => { r with method := s }),
    .of "url" RequestUrl.decode (fun u r => { r with url := u }),
    .of "header" (array Header.decode) (fun hs r => { r with header := hs }),
    .of "body" (optional Body.decode) (fun b r => { r with body := b })]

/-- Reads a request. -/
def Request.decode : Decoder Request :=
  openRecord {} fields fun k v r => { r with extras := r.extras.put k v }

/-- The script that a value holds. -/
def ScriptSource.ofValue? (v : Value) : Option ScriptSource :=
  match v with
  | .string s => some (.text s)
  | v => (strings? v).map .lines

/-- The members of a script. -/
def EventScript.fields : List (Slot EventScript) :=
  [.of "exec" (optional (untagged ScriptSource.ofValue?)) (fun e s => { s with exec := e })]

/-- Reads a script. -/
def EventScript.decode : Decoder EventScript :=
  openRecord {} fields fun k v s => { s with extras := s.extras.put k v }

/-- The members of an event. -/
def Event.fields : List (Slot Event) :=
  [.of "listen" Decoder.string (fun s e => { e with listen := s }),
    .of "script" (optional EventScript.decode) (fun s e => { e with script := s })]

/-- Reads an event. -/
def Event.decode : Decoder Event :=
  openRecord {} fields fun k v e => { e with extras := e.extras.put k v }

/-- The members of an item: its content and the items it lists, if it does. -/
structure ItemParts where
  content : ItemContent := {}
  children : Option (List Item) := none

/-- The item of the given members. -/
def ItemParts.toItem (p : ItemParts) : Item :=
  match p.children with
  | none => .leaf p.content
  | some children => .folder p.content children

/-- The members of an item, of which `child` reads the items that it lists. -/
def ItemParts.fields (child : Document → Except Fault Item) : List (Slot ItemParts) :=
  [.of "name" (optional Decoder.string)
      (fun s p => { p with content := { p.content with name := s } }),
    .of "item" (optional (array fun _ d => child d)) (fun cs p => { p with children := cs }),
    .of "request" (optional Request.decode)
      (fun r p => { p with content := { p.content with request := r } }),
    .of "event" (array Event.decode)
      (fun es p => { p with content := { p.content with event := es } })]

/-- Reads the members of an item. -/
def ItemParts.decode (child : Document → Except Fault Item) : Decoder ItemParts :=
  openRecord {} (fields child) fun k v p =>
    { p with content := { p.content with extras := p.content.extras.put k v } }

/-- Reads an item. The items that it lists stand two containers deeper. -/
def Item.decode : Decoder Item
  | 0, d => (ItemParts.decode (fun _ => .error .malformed) 0 d).map ItemParts.toItem
  | 1, d => (ItemParts.decode (fun _ => .error .malformed) 1 d).map ItemParts.toItem
  | budget + 2, d =>
    (ItemParts.decode (fun d => Item.decode budget d) (budget + 2) d).map ItemParts.toItem

/-- The members of the head of a collection. -/
def CollectionInfo.fields : List (Slot CollectionInfo) :=
  [.of "name" (optional Decoder.string) (fun s i => { i with name := s })]

/-- Reads the head of a collection. -/
def CollectionInfo.decode : Decoder CollectionInfo :=
  openRecord {} fields fun k v i => { i with extras := i.extras.put k v }

/-- The members of a variable. -/
def CollectionVariable.fields : List (Slot CollectionVariable) :=
  [.of "key" Decoder.string (fun s v => { v with key := s }),
    .of "value" Decoder.value (fun x v => { v with value := some x }),
    .of "disabled" Decoder.bool (fun b v => { v with disabled := b })]

/-- Reads a variable. -/
def CollectionVariable.decode : Decoder CollectionVariable :=
  openRecord {} fields fun k x v => { v with extras := v.extras.put k x }

/-- The members of a collection. -/
def Collection.fields : List (Slot Collection) :=
  [.of "info" CollectionInfo.decode (fun i c => { c with info := i }),
    .of "item" (array Item.decode) (fun is c => { c with item := is }),
    .of "variable" (array CollectionVariable.decode) (fun vs c => { c with vars := vs }),
    .of "event" (array Event.decode) (fun es c => { c with event := es })]

/-- Reads a collection. -/
def Collection.decode : Decoder Collection :=
  openRecord {} fields fun k v c => { c with extras := c.extras.put k v }

end CollectionRunner
