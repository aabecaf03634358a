import CollectionRunner.Json.Decoder

/-!
The address of a request: a text, or an object with the text or with the parts to build it from.
-/

namespace CollectionRunner

open Json

/-- The address of a request as the document gives it. -/
inductive RequestUrl
  | text (raw : String)
  /-- The text, if it is given, and all other members. -/
  | parts (raw : Option String) (extras : Members)
  deriving Repr

namespace RequestUrl

instance : Inhabited RequestUrl := ⟨.text ""⟩

/-- The members of an object, read one after the other: the text, whether it has been given, and the
other members so far. -/
def ofMembers? (raw : Option String) (given : Bool) (extras : Members) :
    List (String × Value) → Option RequestUrl
  | [] => some (.parts raw extras)
  | (k, v) :: ms =>
    if k = "raw" then
      if given then none
      else
        match v with
        | .null => ofMembers? none true extras ms
        | .string s => ofMembers? (some s) true extras ms
        | _ => none
    else ofMembers? raw given (extras.put k v.canonical) ms

/-- The address that a value stands for. -/
def ofValue? : Value → Option RequestUrl
  | .string s => some (.text s)
  | .object ms => ofMembers? none false [] ms
  | _ => none

/-- Reads an address. -/
def decode : Decoder RequestUrl := .untagged ofValue?

/-- The address as a JSON value. -/
def toValue : RequestUrl → Value
  | .text raw => .string raw
  | .parts raw extras =>
    .object ((match raw with
      | some s => [("raw", .string s)]
      | none => []) ++ extras)

/-- A text as it is, or the texts of a list with a separator between them. -/
def joined (separator : String) : Option Value → String
  | some (.string s) => s
  | some (.array items) => separator.intercalate (items.filterMap Value.string?)
  | _ => ""

/-- A parameter of a query as `key=value`, unless it is switched off or has no key. -/
def queryPart? (param : Value) : Option String :=
  if ((param.member? "disabled").bind Value.bool?).getD false then none
  else
    ((param.member? "key").bind Value.string?).map fun key =>
      key ++ "=" ++ ((param.member? "value").bind Value.string?).getD ""

/-- The text of an address that is given in parts. -/
def build (extras : Members) : String :=
  let text? := fun key => (extras.get? key).bind Value.string?
  let scheme :=
    match text? "protocol" with
    | some s => s ++ "://"
    | none => ""
  let port :=
    match text? "port" with
    | some s => ":" ++ s
    | none => ""
  let path := joined "/" (extras.get? "path")
  let query := (((extras.get? "query").bind Value.array?).getD []).filterMap queryPart?
  scheme ++ joined "." (extras.get? "host") ++ port ++ (if path = "" then "" else "/" ++ path) ++
    (if query.isEmpty then "" else "?" ++ "&".intercalate query)

/-- The text of an address. -/
def raw : RequestUrl → String
  | .text s => s
  | .parts (some s) _ => s
  | .parts none extras => build extras

end RequestUrl

end CollectionRunner
