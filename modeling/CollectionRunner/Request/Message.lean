import CollectionRunner.Request.Form
import CollectionRunner.Request.Multipart
import CollectionRunner.Text.Base64
import CollectionRunner.Url.Basic

/-!
Requests as they are sent.

A draft names the method, the address, the headers and the content; a message is what is sent for
it. No message can be made of a draft whose address has no host or whose headers cannot be written.
-/

namespace CollectionRunner

open Text

/-- A character of a method or of the name of a header. -/
def isToken (c : Char) : Bool :=
  c.isAlphanum || c == '!' || c == '#' || c == '$' || c == '%' || c == '&' || c == '\x27' ||
    c == '*' || c == '+' || c == '-' || c == '.' || c == '^' || c == '_' || c == '\x60' ||
    c == '|' || c == '~'

/-- Whether a text can be a method or the name of a header. -/
def isTokenText (s : String) : Bool := s ≠ "" && s.toList.all isToken

/-- Whether a text can be the value of a header. -/
def isHeaderText (s : String) : Bool :=
  s.toList.all fun c => (0x20 ≤ c.toNat && c.toNat ≠ 0x7F) || c == '\t'

/-- A text in small ASCII letters. -/
def smallLetters (s : String) : String := String.ofList (s.toList.map Char.toLower)

/-- A text in capital ASCII letters. -/
def capitalLetters (s : String) : String := String.ofList (s.toList.map Char.toUpper)

/-- The name of the header that tells the kind of the content. -/
def contentType : String := "content-type"

/-- The content of a request. -/
inductive Content
  | none
  | text (s : String) (json : Bool)
  | pairs (ps : List (String × String))
  | parts (ps : List Part)
  | bytes (bs : Bytes)
  deriving DecidableEq, Repr

/-- A request before it is checked. -/
structure Draft where
  method : String
  url : Url
  headers : List (String × String)
  content : Content
  deriving DecidableEq, Repr

/-- A request as it is sent. The names of its headers are in small letters. -/
structure Message where
  method : String
  url : Url
  headers : List (String × String)
  body : Option Bytes
  deriving DecidableEq, Repr

/-- Why no message can be made of a draft. -/
inductive BuildFault
  | header
  | address (u : Url)
  deriving DecidableEq, Repr

/-- What is said of a fault. -/
def BuildFault.message : BuildFault → String
  | header => "builder error"
  | address u => "builder error for url (" ++ u.text ++ ")"

/-- A user name and a password, escapes resolved. -/
structure Login where
  user : String
  password : Option String
  deriving DecidableEq, Repr

/-- The credentials of an address. -/
def Url.login? (u : Url) : Option Login := do
  let a ← u.authority
  let user ← ofBytes? (Url.unescape a.user)
  let password := a.password.bind fun p => ofBytes? (Url.unescape p)
  if user = "" ∧ password.isNone then Option.none else pure ⟨user, password⟩

/-- The header that carries credentials. -/
def Login.header (l : Login) : String × String :=
  ("authorization",
    "Basic " ++ String.ofList (base64 (toBytes (l.user ++ ":" ++ l.password.getD ""))))

namespace Message

/-- The values of a header. -/
def values (m : Message) (name : String) : List String :=
  (m.headers.filter fun h => h.1 == name).map Prod.snd

/-- The message with one more header, if it can be written. -/
def addHeader (m : Message) (h : String × String) : Except BuildFault Message :=
  if isTokenText h.1 && isHeaderText h.2 then
    .ok { m with headers := m.headers ++ [(smallLetters h.1, h.2)] }
  else .error .header

/-- The message with more headers, if they can be written. -/
def addHeaders (m : Message) : List (String × String) → Except BuildFault Message
  | [] => .ok m
  | h :: hs => do
    let m ← m.addHeader h
    m.addHeaders hs

/-- The message to a given address, without headers and body. Credentials of the address become a
header. -/
def start (method : String) (url : Url) : Except BuildFault Message :=
  if url.host?.isNone then .error (.address url)
  else
    match url.login? with
    | some l => .ok ⟨method, url.withoutCredentials, [l.header], Option.none⟩
    | Option.none => .ok ⟨method, url, [], Option.none⟩

/-- The message with the given content. A form in pairs leaves a kind of content that is there; a
form in parts adds its own, which names the boundary. -/
def withContent (m : Message) (boundary : String) : Content → Message
  | .none => m
  | .text s json =>
    let kind := if json then [(contentType, "application/json")] else []
    { m with headers := m.headers ++ kind, body := some (toBytes s) }
  | .pairs ps =>
    let kind :=
      if (m.values contentType).isEmpty then
        [(contentType, "application/x-www-form-urlencoded")]
      else []
    { m with headers := m.headers ++ kind, body := some (Text.encode (Form.encode ps)) }
  | .parts ps =>
    let bytes := Part.encodeAll boundary ps
    { m with
      headers := m.headers ++ [(contentType, "multipart/form-data; boundary=" ++ boundary),
        ("content-length", toString bytes.length)]
      body := some bytes }
  | .bytes bs => { m with body := some bs }

end Message

/-- The message of a draft. -/
def Draft.build (boundary : String) (d : Draft) : Except BuildFault Message := do
  let m ← Message.start d.method d.url
  let m ← m.addHeaders d.headers
  pure (m.withContent boundary d.content)

end CollectionRunner
