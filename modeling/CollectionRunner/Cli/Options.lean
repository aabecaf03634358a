import CollectionRunner.Settings

/-!
The command line.

Arguments are read one after the other, and the first one that cannot be read ends the reading, as
does a call for help or for the version. An option is given at most once. Its value stands in the
next argument, which does not start like an option, or behind an equals sign; behind a short name it
may also follow at once. Behind two dashes every argument is a value.
-/

namespace CollectionRunner.Cli

/-- What the command line asks for. -/
structure Options where
  overrides : Overrides := {}
  config : Option Path := none
  cwd : Option Path := none
  deriving Repr

/-- Why the arguments are not read to their end. -/
inductive Stop
  | usage
  | help
  | version
  deriving DecidableEq, Repr

/-- An option with a value. -/
inductive Flag
  | collection
  | fixture
  | config
  | cwd
  | engine
  | envFile
  | jsonExport
  | timeoutMs
  | runnerBin
  deriving DecidableEq, Repr

namespace Flag

/-- The options by their long names. -/
def longNames : List (List Char × Flag) :=
  [("collection".toList, collection), ("fixture".toList, fixture), ("config".toList, config),
    ("cwd".toList, cwd), ("engine".toList, engine), ("env-file".toList, envFile),
    ("reporter-json-export".toList, jsonExport), ("timeout-ms".toList, timeoutMs),
    ("newman-bin".toList, runnerBin)]

/-- The options by their short names. -/
def shortNames : List (Char × Flag) := [('c', config), ('e', envFile)]

end Flag

/-- A value that is a path. -/
def path? (s : String) : Option Path := if s = "" then none else some s

/-- The greatest number of 64 bits. -/
def greatestCount : Nat := 18446744073709551615

/-- The value of digits. -/
def digitsValue (s : List Char) : Nat := s.foldl (fun n c => 10 * n + (c.toNat - 0x30)) 0

/-- A value that is a whole number of 64 bits, with a plus sign in front or without. -/
def count? (s : String) : Option Nat :=
  let digits :=
    match s.toList with
    | '+' :: rest => rest
    | all => all
  if digits ≠ [] ∧ digits.all Char.isDigit ∧ digitsValue digits ≤ greatestCount then
    some (digitsValue digits)
  else none

/-- Gives an option a value, unless it has one already or the value cannot be read. -/
def fill (present : Option α) (value : Option β) (store : β → Options) : Except Stop Options :=
  if present.isSome then .error .usage
  else
    match value with
    | some v => .ok (store v)
    | none => .error .usage

namespace Options

/-- Gives the port. -/
def setPort (value : String) (o : Options) : Except Stop Options :=
  fill o.overrides.port (some value) fun v => { o with overrides.port := some v }

/-- Gives an option its value. -/
def set (value : String) (o : Options) : Flag → Except Stop Options
  | .collection =>
    fill o.overrides.collection (path? value) fun v => { o with overrides.collection := some v }
  | .fixture =>
    fill o.overrides.fixture (path? value) fun v => { o with overrides.fixture := some v }
  | .config => fill o.config (path? value) fun v => { o with config := some v }
  | .cwd => fill o.cwd (path? value) fun v => { o with cwd := some v }
  | .engine =>
    fill o.overrides.engine (EngineKind.names.lookup value) fun v =>
      { o with overrides.engine := some v }
  | .envFile =>
    fill o.overrides.envFile (path? value) fun v => { o with overrides.envFile := some v }
  | .jsonExport =>
    fill o.overrides.jsonExport (path? value) fun v => { o with overrides.jsonExport := some v }
  | .timeoutMs =>
    fill o.overrides.timeoutMs (count? value) fun v => { o with overrides.timeoutMs := some v }
  | .runnerBin =>
    fill o.overrides.runnerBin (some value) fun v => { o with overrides.runnerBin := some v }

end Options

/-- An argument by its form. -/
inductive Argument
  /-- A value that stands alone. -/
  | word
  /-- Two dashes. -/
  | divider
  /-- An option, with the value that stands in the same argument. -/
  | flag (f : Flag) (attached : Option String)
  | stop (s : Stop)
  deriving DecidableEq, Repr

namespace Argument

/-- The text up to the first equals sign, and the text behind it if there is one. -/
def splitEquals : List Char → List Char × Option (List Char)
  | [] => ([], none)
  | c :: s =>
    if c = '=' then ([], some s)
    else
      let (name, value) := splitEquals s
      (c :: name, value)

/-- The option of a long name. -/
def long (name : List Char) (attached : Option (List Char)) : Argument :=
  match Flag.longNames.lookup name, attached with
  | some f, _ => flag f (attached.map String.ofList)
  | none, some _ => stop .usage
  | none, none =>
    if name = "help".toList then stop .help
    else if name = "version".toList then stop .version
    else stop .usage

/-- The value that follows a short name at once. -/
def behindShort : List Char → Option String
  | [] => none
  | '=' :: s => some (String.ofList s)
  | s => some (String.ofList s)

/-- The option of a short name. -/
def short (name : Char) (rest : List Char) : Argument :=
  match Flag.shortNames.lookup name with
  | some f => flag f (behindShort rest)
  | none =>
    if name = 'h' then stop .help
    else if name = 'V' then stop .version
    else stop .usage

/-- The form of an argument. A single dash is a value. -/
def ofText (s : String) : Argument :=
  match s.toList with
  | ['-', '-'] => divider
  | '-' :: '-' :: s =>
    let (name, attached) := splitEquals s
    long name attached
  | '-' :: c :: rest => short c rest
  | _ => word

end Argument

/-- Reads arguments that are all values. -/
def readValues (o : Options) : List String → Except Stop Options
  | [] => .ok o
  | s :: rest => do
    let o ← o.setPort s
    readValues o rest

/-- Reads arguments; `pending` is the option that waits for its value. -/
def readArguments (o : Options) : (pending : Option Flag) → List String → Except Stop Options
  | none, [] => .ok o
  | some _, [] => .error .usage
  | some f, s :: rest =>
    match Argument.ofText s with
    | .word => do
      let o ← o.set s f
      readArguments o none rest
    | _ => .error .usage
  | none, s :: rest =>
    match Argument.ofText s with
    | .word => do
      let o ← o.setPort s
      readArguments o none rest
    | .divider => readValues o rest
    | .flag f none => readArguments o (some f) rest
    | .flag f (some v) => do
      let o ← o.set v f
      readArguments o none rest
    | .stop stop => .error stop

/-- Reads the command line. -/
def Options.read (arguments : List String) : Except Stop Options := readArguments {} none arguments

example : (Options.read ["8081", "-c", "dir"]).toOption.bind Options.config = some "dir" := by
  decide +kernel
example : (Options.read ["-cdir"]).toOption.bind Options.config = some "dir" := by decide +kernel
example : (Options.read ["--config", "-c"]).toOption.isNone := by decide +kernel
example : Argument.ofText "--config=a=b" = .flag .config (some "a=b") := by decide
example : Argument.ofText "-" = .word := by decide

end CollectionRunner.Cli
