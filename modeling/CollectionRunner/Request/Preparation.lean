import CollectionRunner.Collection.Basic
import CollectionRunner.Placeholder
import CollectionRunner.Problem
import CollectionRunner.Request.Message
import CollectionRunner.Url.Parser
import CollectionRunner.Warning

/-!
Making a draft of a request of a collection.

The variables are resolved in the address, the headers that are switched on and the content. Files
are read while the draft is made; a file that cannot be read ends the preparation.
-/

namespace CollectionRunner

open Placeholder

/-- A text with `://` in it. -/
def hasSchemeSign : List Char → Bool
  | [] => false
  | c :: s => ['/', '/'].isPrefixOf s && c == ':' || hasSchemeSign s

/-- The text of an address, with a scheme in front of it unless it has one. -/
def withScheme (s : String) : String := if hasSchemeSign s.toList then s else "http://" ++ s

/-- The address that a text with placeholders stands for. Placeholders that stay are worth a
warning. -/
def resolveUrl (vars : Variables) (raw : String) : Logged (Except Problem Url) := do
  let resolved := resolve vars raw
  let missing := unresolved vars resolved
  if !missing.isEmpty then Logged.warn (.unresolved raw missing)
  let absolute := withScheme resolved
  pure (orProblem ("invalid URL " ++ absolute) .url (Url.parse absolute))

/-- The headers of a request that are switched on. -/
def Request.activeHeaders (vars : Variables) (r : Request) : List (String × String) :=
  (r.header.filter fun h => !h.disabled).map fun h =>
    (resolve vars h.key, resolve vars (h.value.getD ""))

/-- Whether one of the headers tells the kind of the content. -/
def declaresContentType (headers : List (String × String)) : Bool :=
  headers.any fun h => smallLetters h.1 == contentType

/-- The parameters that are switched on. -/
def activeParams (ps : Option (List FormParam)) : List FormParam :=
  (ps.getD []).filter fun p => !p.disabled

/-- A parameter as a pair of texts. -/
def FormParam.pair (vars : Variables) (p : FormParam) : String × String :=
  (resolve vars p.key, resolve vars (p.value.getD ""))

/-- The part that a file makes. -/
def filePart (fs : FileSystem) (name : String) (path : Path) : Except Problem Part := do
  let bytes ← orProblem ("reading upload file " ++ path) .file (fs.read path)
  pure ⟨name, some ((Path.fileName? path).getD "upload"), bytes⟩

/-- The parts that files make, in order. -/
def fileParts (fs : FileSystem) (name : String) : List Path → Except Problem (List Part)
  | [] => .ok []
  | path :: paths => do
    let part ← filePart fs name path
    let parts ← fileParts fs name paths
    pure (part :: parts)

/-- The parts of a parameter: a text, or its files. -/
def FormParam.parts (fs : FileSystem) (vars : Variables) (p : FormParam) :
    Logged (Except Problem (List Part)) :=
  let name := resolve vars p.key
  if !p.isFile then pure (.ok [⟨name, none, toBytes (resolve vars (p.value.getD ""))⟩])
  else
    match p.src with
    | some src => pure (fileParts fs name src.paths)
    | none => do
      Logged.warn (.noFile name)
      pure (.ok [])

/-- The parts of parameters, in order. -/
def formParts (fs : FileSystem) (vars : Variables) :
    List FormParam → Logged (Except Problem (List Part))
  | [] => pure (.ok [])
  | p :: ps => do
    match ← p.parts fs vars with
    | .error problem => pure (.error problem)
    | .ok parts =>
      let more ← formParts fs vars ps
      pure (more.map fun more => parts ++ more)

/-- The content of a request with the given body. `typed` says that a header tells its kind. -/
def Body.content (fs : FileSystem) (vars : Variables) (typed : Bool) (b : Body) :
    Logged (Except Problem Content) :=
  match b.mode? with
  | some .raw =>
    pure (.ok (.text (resolve vars (b.raw.getD "")) (!typed && b.rawLanguage? == some "json")))
  | some .urlencoded =>
    pure (.ok (.pairs ((activeParams b.urlencoded).map (FormParam.pair vars))))
  | some .formdata => do
    let parts ← formParts fs vars (activeParams b.formdata)
    pure (parts.map Content.parts)
  | some .file =>
    match b.file.bind FileRef.src with
    | some src =>
      pure ((orProblem ("reading request body file " ++ src) .file (fs.read src)).map .bytes)
    | none => pure (.ok .none)
  | some .other => pure (.ok .none)
  | none => pure (.ok .none)

/-- The draft of a request. -/
def Request.prepare (fs : FileSystem) (vars : Variables) (r : Request) :
    Logged (Except Problem Draft) := do
  let method := capitalLetters r.method
  if !isTokenText method then
    pure (.error ⟨["invalid HTTP method " ++ r.method], .other "invalid HTTP method"⟩)
  else
    match ← resolveUrl vars r.url.raw with
    | .error problem => pure (.error problem)
    | .ok url =>
      let headers := r.activeHeaders vars
      let content ←
        match r.body with
        | none => pure (.ok .none)
        | some b => b.content fs vars (declaresContentType headers)
      pure (content.map fun content => ⟨method, url, headers, content⟩)

end CollectionRunner
