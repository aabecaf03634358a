/-!
Addresses of resources, taken apart.

The parts hold their final text: they are escaped where that is needed, the scheme and the host are
in small letters, and a port that the scheme implies is left out.
-/

namespace CollectionRunner

/-- Who asks, which host is asked, and at which port. -/
structure Authority where
  user : List Char
  password : Option (List Char)
  host : List Char
  port : Option Nat
  deriving DecidableEq, Repr

/-- An address. -/
structure Url where
  scheme : List Char
  authority : Option Authority
  path : List Char
  query : Option (List Char)
  fragment : Option (List Char)
  deriving DecidableEq, Repr

namespace Url

/-- Why a text is no address. -/
inductive Fault
  | emptyHost
  | domain
  | port
  | ipv4
  | ipv6
  | domainCharacter
  | relative
  deriving DecidableEq, Repr

/-- What is said of a fault. -/
def Fault.message : Fault → String
  | emptyHost => "empty host"
  | domain => "invalid international domain name"
  | port => "invalid port number"
  | ipv4 => "invalid IPv4 address"
  | ipv6 => "invalid IPv6 address"
  | domainCharacter => "invalid domain character"
  | relative => "relative URL without a base"

end Url

/-- The credentials with the sign behind them, if there are any. -/
def Authority.credentialsText (a : Authority) : List Char :=
  match a.password with
  | some password => a.user ++ ':' :: password ++ ['@']
  | none => if a.user.isEmpty then [] else a.user ++ ['@']

/-- The text of an authority. -/
def Authority.text (a : Authority) : List Char :=
  a.credentialsText ++ a.host ++
    match a.port with
    | some n => ':' :: (toString n).toList
    | none => []

namespace Url

/-- The characters of an address. -/
def chars (u : Url) : List Char :=
  u.scheme ++ ':' ::
    ((match u.authority with
      | some a => '/' :: '/' :: a.text
      | none => []) ++
      u.path ++
      (match u.query with
        | some q => '?' :: q
        | none => []) ++
      (match u.fragment with
        | some f => '#' :: f
        | none => []))

/-- The text of an address. -/
def text (u : Url) : String := String.ofList u.chars

/-- The host, unless there is none or it is empty. -/
def host? (u : Url) : Option (List Char) :=
  u.authority.bind fun a => if a.host.isEmpty then none else some a.host

/-- The address without credentials. -/
def withoutCredentials (u : Url) : Url :=
  { u with authority := u.authority.map fun a => { a with user := [], password := none } }

end Url

end CollectionRunner
