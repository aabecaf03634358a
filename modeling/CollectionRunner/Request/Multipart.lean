import CollectionRunner.Url.Percent

/-!
Forms in parts, each one behind a line with the boundary and a header line.

A part has the name of its form field and, when it comes from a file, the name of the file. A field
name is quoted; when more than a single character of it has to be escaped or kept apart, the escaped
name stands in the extended form without quotes.
-/

namespace CollectionRunner

/-- A part of a form. -/
structure Part where
  name : String
  fileName : Option String
  content : Bytes
  deriving DecidableEq, Repr

namespace Part

open Text

/-- What is escaped in the name of a field. -/
def escapedInName (c : Char) : Bool := Url.escapedInPath c || c == '/' || c == '%'

/-- Whether the escaped name is a single run: nothing is escaped, or a single byte is all there
is. -/
def isPlainName (name : List Char) : Bool :=
  match name with
  | [c] => c.toNat < 0x80
  | name => !name.any escapedInName

/-- The attribute with the name of the field. -/
def nameAttribute (name : String) : List Char :=
  let escaped := Url.escape escapedInName name.toList
  if isPlainName name.toList then "name=\"".toList ++ escaped ++ ['\"']
  else "name*=utf-8\x27\x27".toList ++ escaped

/-- A character of the name of a file; quotes, backslashes and line ends stand behind a
backslash. -/
def fileNameChar (c : Char) : List Char :=
  if c = '\\' ∨ c = '\"' ∨ c = '\r' ∨ c = '\n' then ['\\', c] else [c]

/-- The attribute with the name of the file. -/
def fileNameAttribute (name : String) : List Char :=
  "; filename=\"".toList ++ name.toList.flatMap fileNameChar ++ ['\"']

/-- The header line of a part. -/
def header (p : Part) : List Char :=
  "Content-Disposition: form-data; ".toList ++ nameAttribute p.name ++
    match p.fileName with
    | some name => fileNameAttribute name
    | none => []

/-- The bytes of a part. -/
def encode (boundary : String) (p : Part) : Bytes :=
  Text.encode ("--".toList ++ boundary.toList ++ ['\r', '\n'] ++ p.header ++
    ['\r', '\n', '\r', '\n']) ++ p.content ++ Text.encode ['\r', '\n']

/-- The bytes of a form; a form without parts is empty. -/
def encodeAll (boundary : String) : List Part → Bytes
  | [] => []
  | ps =>
    ps.flatMap (encode boundary) ++
      Text.encode ("--".toList ++ boundary.toList ++ "--\r\n".toList)

end Part

end CollectionRunner
