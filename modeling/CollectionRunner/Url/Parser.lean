import CollectionRunner.Url.Address
import CollectionRunner.Url.Basic
import CollectionRunner.Url.Percent

/-!
Reading an address from a text.

Web schemes have an authority however many slashes stand in front of it, and a backslash counts as a
slash there. Steps of a path that name the same or the upper level are carried out while it is read.
-/

namespace CollectionRunner.Url

/-! ### Scheme -/

/-- How an address of a scheme is read. -/
inductive SchemeKind
  | web
  | file
  | other
  deriving DecidableEq, Repr

/-- The kind of a scheme. -/
def schemeKind (scheme : List Char) : SchemeKind :=
  let s := String.ofList scheme
  if s = "http" ∨ s = "https" ∨ s = "ws" ∨ s = "wss" ∨ s = "ftp" then .web
  else if s = "file" then .file
  else .other

/-- The port that a scheme implies. -/
def impliedPort? (scheme : List Char) : Option Nat :=
  let s := String.ofList scheme
  if s = "http" ∨ s = "ws" then some 80
  else if s = "https" ∨ s = "wss" then some 443
  else if s = "ftp" then some 21
  else none

/-- A character of a scheme behind its first letter. -/
def inScheme (c : Char) : Bool := c.isAlphanum || c == '+' || c == '-' || c == '.'

/-- The scheme at the start of a text, in small letters, and the text behind its colon. -/
def scheme? (s : List Char) : Option (List Char × List Char) :=
  match s with
  | [] => none
  | c :: _ =>
    if c.isAlpha then
      match s.dropWhile inScheme with
      | ':' :: rest => some ((s.takeWhile inScheme).map Char.toLower, rest)
      | _ => none
    else none

/-! ### Authority -/

/-- A character that ends an authority. -/
def endsAuthority (kind : SchemeKind) (c : Char) : Bool :=
  c == '/' || c == '?' || c == '#' || (c == '\\' && kind != .other)

/-- The text up to the last `@` of an authority and the text behind it. -/
def splitAt? (s : List Char) (kind : SchemeKind) : Option (List Char × List Char) :=
  let authority := s.takeWhile fun c => !endsAuthority kind c
  let back := authority.reverse
  match back.dropWhile (· != '@') with
  | [] => none
  | _ :: front => some (front.reverse, s.drop (front.length + 1))

/-- The user name and the password of credentials; an empty password is none. -/
def credentials (s : List Char) : List Char × Option (List Char) :=
  let user := s.takeWhile (· != ':')
  let password :=
    match s.dropWhile (· != ':') with
    | _ :: c :: rest => some (escape escapedInCredentials (c :: rest))
    | _ => none
  (escape escapedInCredentials user, password)

/-- The host at the start of a text, up to a colon outside brackets or the end of the authority, and
the rest; `done` holds, in reverse, what is read of it. -/
def splitHost (kind : SchemeKind) (inBrackets : Bool) (done : List Char) :
    List Char → List Char × List Char
  | [] => (done.reverse, [])
  | c :: s =>
    if (c == ':' && !inBrackets) || endsAuthority kind c then (done.reverse, c :: s)
    else
      let inBrackets := if c = '[' then true else if c = ']' then false else inBrackets
      splitHost kind inBrackets (c :: done) s

/-- The address of eight groups between brackets. -/
def bracketed (s : List Char) : Except Fault (List Char) :=
  match s.reverse with
  | ']' :: back =>
    match ipv6? back.reverse with
    | some host => .ok host
    | none => .error .ipv6
  | _ => .error .ipv6

/-- The host of a web address. -/
def webHost (s : List Char) : Except Fault (List Char) :=
  match s with
  | [] => .error .emptyHost
  | '[' :: rest => bracketed rest
  | s =>
    match domain? (unescape s) with
    | none => .error .domain
    | some [] => .error .emptyHost
    | some domain =>
      if endsInNumber domain then
        match ipv4? domain with
        | some host => .ok host
        | none => .error .ipv4
      else .ok domain

/-- A character that may not stand in the host of an address of another scheme. -/
def isForbiddenInHost (c : Char) : Bool :=
  c == '\x00' || c == ' ' || c == '#' || c == '/' || c == ':' || c == '<' || c == '>' || c == '?' ||
    c == '@' || c == '[' || c == '\\' || c == ']' || c == '^' || c == '|'

/-- The host of an address of another scheme. -/
def otherHost (s : List Char) : Except Fault (List Char) :=
  match s with
  | '[' :: rest => bracketed rest
  | s => if s.any isForbiddenInHost then .error .domainCharacter else .ok (escape isControl s)

/-- The number of a port and the rest of a text; a port that the scheme implies is left out. -/
def readPort (implied : Option Nat) (s : List Char) : Except Fault (Option Nat × List Char) :=
  let digits := s.takeWhile Char.isDigit
  let rest := s.dropWhile Char.isDigit
  let n := digits.foldl (fun n c => n * 10 + (c.toNat - 0x30)) 0
  if 65535 < n then .error .port
  else
    match rest with
    | c :: _ =>
      if c = '/' ∨ c = '\\' ∨ c = '?' ∨ c = '#' then finish digits n rest else .error .port
    | [] => finish digits n rest
where
  /-- The port, unless it is left out. -/
  finish (digits : List Char) (n : Nat) (rest : List Char) :
      Except Fault (Option Nat × List Char) :=
    .ok (if digits.isEmpty ∨ implied = some n then none else some n, rest)

/-- Reads a host and a port. -/
def readHostAndPort (kind : SchemeKind) (scheme s : List Char) :
    Except Fault (List Char × Option Nat × List Char) := do
  let (text, rest) := splitHost kind false [] s
  let host ← if kind = .other then otherHost text else webHost text
  match rest with
  | ':' :: rest =>
    if host.isEmpty then .error .emptyHost
    else do
      let (n, rest) ← readPort (impliedPort? scheme) rest
      pure (host, n, rest)
  | rest => pure (host, none, rest)

/-- Reads an authority behind its slashes. -/
def readAuthority (kind : SchemeKind) (scheme s : List Char) :
    Except Fault (Authority × List Char) := do
  match splitAt? s kind with
  | none => do
    let (host, n, rest) ← readHostAndPort kind scheme s
    pure (⟨[], none, host, n⟩, rest)
  | some (front, behind) => do
    if front.isEmpty ∧ behind.head?.any (endsAuthority kind) then .error .emptyHost
    let (user, password) := credentials front
    let (host, n, rest) ← readHostAndPort kind scheme behind
    if host.isEmpty ∧ (!user.isEmpty ∨ password.isSome) then .error .emptyHost
    pure (⟨user, password, host, n⟩, rest)

/-! ### Path -/

/-- A drive letter, which no step leads above. -/
def isDrive : List Char → Bool
  | [c, sign] => c.isAlpha && (sign == ':' || sign == '|')
  | _ => false

/-- The texts of a step to the upper level. -/
def upSteps : List (List Char) :=
  ["..".toList, "%2e%2e".toList, "%2e%2E".toList, "%2E%2e".toList, "%2E%2E".toList, "%2e.".toList,
    "%2E.".toList, ".%2e".toList, ".%2E".toList]

/-- The texts of a step to the same level. -/
def stays : List (List Char) := [".".toList, "%2e".toList, "%2E".toList]

/-- The steps of a path, the last one first, without the last of them. -/
def goUp : List (List Char) → List (List Char)
  | [] => []
  | step :: steps => if isDrive step then step :: steps else steps

/-- The steps of a path behind one more step that is followed by a slash. -/
def goInto (steps : List (List Char)) (step : List Char) : List (List Char) :=
  if upSteps.contains step then goUp steps
  else if stays.contains step then steps
  else step :: steps

/-- The text of a path: its steps, the last one first, and what stands behind the last slash. -/
def pathText (steps : List (List Char)) (last : List Char) : List Char :=
  steps.foldl (fun text step => '/' :: step ++ text) ('/' :: last)

/-- The text of a path that ends with a step. -/
def finishPath (steps : List (List Char)) (step : List Char) : List Char :=
  if upSteps.contains step then pathText (goUp steps) []
  else if stays.contains step then pathText steps []
  else pathText steps step

/-- Reads a path behind its first slash up to a query or fragment; `step` holds, in reverse, what is
read of a step. -/
def readPath (kind : SchemeKind) (steps : List (List Char)) (step : List Char) :
    List Char → List Char × List Char
  | [] => (finishPath steps (escape escapedInPath step.reverse), [])
  | c :: s =>
    if c = '?' ∨ c = '#' then (finishPath steps (escape escapedInPath step.reverse), c :: s)
    else if c = '/' ∨ (c = '\\' ∧ kind ≠ .other) then
      readPath kind (goInto steps (escape escapedInPath step.reverse)) [] s
    else readPath kind steps (c :: step) s

/-- Reads the path behind an authority. It is empty only in an address of another scheme. -/
def pathBehind (kind : SchemeKind) (s : List Char) : List Char × List Char :=
  match s with
  | [] => (if kind = .other then [] else ['/'], [])
  | c :: rest =>
    if c = '/' ∨ (c = '\\' ∧ kind ≠ .other) then readPath kind [] [] rest
    else if kind = .other ∧ (c = '?' ∨ c = '#') then ([], s)
    else readPath kind [] [] s

/-! ### Query and fragment -/

/-- The query and the fragment behind a path. -/
def queryAndFragment (kind : SchemeKind) (s : List Char) :
    Option (List Char) × Option (List Char) :=
  match s with
  | '?' :: rest =>
    let query := rest.takeWhile (· != '#')
    let escaped := if kind = .other then escapedInQuery else escapedInWebQuery
    (some (escape escaped query),
      match rest.dropWhile (· != '#') with
      | _ :: fragment => some (escape escapedInFragment fragment)
      | [] => none)
  | '#' :: fragment => (none, some (escape escapedInFragment fragment))
  | _ => (none, none)

/-- The address of the given parts; `rest` is the text behind the path. -/
def assemble (kind : SchemeKind) (scheme : List Char) (authority : Option Authority)
    (path rest : List Char) : Url :=
  let (query, fragment) := queryAndFragment kind rest
  ⟨scheme, authority, path, query, fragment⟩

/-! ### Addresses -/

/-- Reads a web address behind its scheme. -/
def readWeb (scheme s : List Char) : Except Fault Url := do
  let (a, rest) ← readAuthority .web scheme (s.dropWhile fun c => c == '/' || c == '\\')
  let (path, rest) := pathBehind .web rest
  pure (assemble .web scheme (some a) path rest)

/-- Reads an address of another scheme behind it. -/
def readOther (scheme s : List Char) : Except Fault Url :=
  match s with
  | '/' :: '/' :: s => do
    let (a, rest) ← readAuthority .other scheme s
    let (path, rest) := pathBehind .other rest
    pure (assemble .other scheme (some a) path rest)
  | '/' :: s =>
    let (path, rest) := readPath .other [] [] s
    let path := if path.take 2 = ['/', '/'] then '/' :: '.' :: path else path
    .ok (assemble .other scheme none path rest)
  | s =>
    let opaquePath := s.takeWhile fun c => c != '?' && c != '#'
    let rest := s.dropWhile fun c => c != '?' && c != '#'
    .ok (assemble .other scheme none (escape isControl opaquePath) rest)

/-- Whether a character is a slash of either kind. -/
def isSlash (c : Char) : Bool := c == '/' || c == '\\'

/-- The address of a file: a path starts with one slash. -/
def fileUrl (scheme host s : List Char) : Url :=
  let (path, rest) := pathBehind .file s
  assemble .file scheme (some ⟨[], none, host, none⟩) ('/' :: path.dropWhile (· == '/')) rest

/-- Reads the address of a file behind its scheme. -/
def readFile (scheme s : List Char) : Except Fault Url :=
  match s with
  | a :: b :: rest =>
    if isSlash a && isSlash b then
      let text := rest.takeWhile fun c => !endsAuthority .file c
      if text.isEmpty ∨ isDrive text then .ok (fileUrl scheme [] rest)
      else do
        let host ← webHost text
        let host := if host = "localhost".toList then [] else host
        pure (fileUrl scheme host (rest.drop text.length))
    else .ok (fileUrl scheme [] s)
  | s => .ok (fileUrl scheme [] s)

/-- Controls and spaces do not count at the ends of an address. -/
def isOutside (c : Char) : Bool := c.toNat ≤ 0x20

/-- Tabs and line ends do not count anywhere in an address. -/
def isIgnored (c : Char) : Bool := c == '\t' || c == '\n' || c == '\r'

/-- The characters of an address that count. -/
def strip (s : List Char) : List Char :=
  (((s.dropWhile isOutside).reverse.dropWhile isOutside).reverse).filter fun c => !isIgnored c

/-- The address that a text spells. -/
def parse (s : String) : Except Fault Url :=
  match scheme? (strip s.toList) with
  | none => .error .relative
  | some (scheme, rest) =>
    match schemeKind scheme with
    | .web => readWeb scheme rest
    | .file => readFile scheme rest
    | .other => readOther scheme rest

end CollectionRunner.Url
