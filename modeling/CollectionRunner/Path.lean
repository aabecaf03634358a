/-!
Paths as they are written.

A path is a text; it is joined to another one and taken apart, but never brought into another form.
Its parts lie between slashes. An empty part stands for nothing, and so does a dot, unless it starts
a relative path.
-/

namespace CollectionRunner

/-- A path as it is written. -/
abbrev Path := String

namespace Path

/-- A path that starts at the root. -/
def isAbsolute (p : Path) : Bool := p.toList.head? == some '/'

/-- A path that is read against `base` unless it is absolute. -/
def join (base p : Path) : Path :=
  if isAbsolute p ∨ base = "" then p
  else if base.toList.getLast? = some '/' then base ++ p
  else base ++ "/" ++ p

/-- The parts of a text between slashes; `part` holds, in reverse, the start of the first one. -/
def splitSlash (part : List Char) : List Char → List (List Char)
  | [] => [part.reverse]
  | c :: s => if c = '/' then part.reverse :: splitSlash [] s else splitSlash (c :: part) s

/-- Parts with slashes between them. -/
def joinSlash : List (List Char) → List Char
  | [] => []
  | [part] => part
  | part :: other :: parts => part ++ '/' :: joinSlash (other :: parts)

/-- The parts of a path behind its root. -/
def parts (p : Path) : List (List Char) :=
  match p.toList with
  | '/' :: s => splitSlash [] s
  | s => splitSlash [] s

/-- A part that stands for nothing. -/
def isVoid (part : List Char) : Bool := part == [] || part == ['.']

/-- The parts up to the last one that stands for something; `first` says that the first part of the
list starts a relative path. -/
def dropVoidEnd (first : Bool) : List (List Char) → List (List Char)
  | [] => []
  | part :: parts =>
    match dropVoidEnd false parts with
    | [] => if part = [] ∨ (part = ['.'] ∧ !first) then [] else [part]
    | kept => part :: kept

/-- The parts of a path up to the last one that stands for something. -/
def solidParts (p : Path) : List (List Char) := dropVoidEnd (!isAbsolute p) (parts p)

/-- The path without its last part; none for the root and the empty path. -/
def parent? (p : Path) : Option Path :=
  match solidParts p with
  | [] => none
  | part :: more =>
    let above := dropVoidEnd (!isAbsolute p) (part :: more).dropLast
    let root := if isAbsolute p then ['/'] else []
    some (String.ofList (root ++ joinSlash above))

/-- The last part of a path, if it is a name. -/
def fileName? (p : Path) : Option String :=
  match (solidParts p).getLast? with
  | none => none
  | some part => if part = ['.'] ∨ part = ['.', '.'] then none else some (String.ofList part)

example : parent? "dir/./x" = some "dir" := by decide
example : parent? "x" = some "" := by decide
example : parent? "/" = none := by decide
example : fileName? "a/b.zip/" = some "b.zip" := by decide
example : fileName? "a/.." = none := by decide

theorem join_of_isAbsolute {base p : Path} (h : isAbsolute p) : join base p = p := by
  simp [join, h]

end Path

end CollectionRunner
