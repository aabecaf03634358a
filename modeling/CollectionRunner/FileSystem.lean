import CollectionRunner.Path
import CollectionRunner.Text.Utf8

/-!
Files and directories as a value: what stands at which place, and the directory that relative paths
are read against.

A place is the list of the names that lead to it from the root. A path is walked name by name; every
name but the last one has to be that of a directory.
-/

namespace CollectionRunner

/-- What stands at a place. -/
inductive Entry
  | file (content : Bytes)
  | directory
  deriving DecidableEq, Repr

/-- The names that lead to a place from the root. -/
abbrev Place := List String

/-- Entries by place, the newer ones in front, and the working directory. -/
structure FileSystem where
  entries : List (Place × Entry)
  workDir : Place
  deriving Repr

namespace FileSystem

/-- Why a file could not be read or written. -/
inductive Fault
  | notFound
  | denied
  | exists
  | notADirectory
  | isADirectory
  | nameTooLong
  | nulInName
  | nulInArgument
  | notText
  deriving DecidableEq, Repr

/-- What is said of a fault. -/
def Fault.message : Fault → String
  | notFound => "No such file or directory (os error 2)"
  | denied => "Permission denied (os error 13)"
  | .exists => "File exists (os error 17)"
  | notADirectory => "Not a directory (os error 20)"
  | isADirectory => "Is a directory (os error 21)"
  | nameTooLong => "File name too long (os error 36)"
  | nulInName => "file name contained an unexpected NUL byte"
  | nulInArgument => "nul byte found in provided data"
  | notText => "stream did not contain valid UTF-8"

/-- The entry at a place; the root is always there. -/
def entry? (fs : FileSystem) (place : Place) : Option Entry :=
  if place = [] then some .directory else fs.entries.lookup place

/-- Whether a directory stands at a place. -/
def hasDirectory (fs : FileSystem) (place : Place) : Bool := fs.entry? place == some .directory

/-- Puts an entry at a place. -/
def put (fs : FileSystem) (place : Place) (e : Entry) : FileSystem :=
  { fs with entries := (place, e) :: fs.entries }

/-- The place that a part of a path leads to from the directory `at`. -/
def step (fs : FileSystem) (place : Place) (part : List Char) : Except Fault Place :=
  if !fs.hasDirectory place then .error .notADirectory
  else if Path.isVoid part then .ok place
  else if part = ['.', '.'] then .ok place.dropLast
  else if 255 < Text.byteLength part then .error .nameTooLong
  else
    let place := place ++ [String.ofList part]
    if (fs.entry? place).isSome then .ok place else .error .notFound

/-- The place that parts of a path lead to one after the other. -/
def walk (fs : FileSystem) : Place → List (List Char) → Except Fault Place
  | place, [] => .ok place
  | place, part :: parts => do
    let place ← fs.step place part
    walk fs place parts

/-- Where the walk along a path starts. -/
def start (fs : FileSystem) (p : Path) : Place := if Path.isAbsolute p then [] else fs.workDir

/-- Why a path cannot be walked at all. -/
def refuse? (p : Path) : Option Fault :=
  if p.toList.contains '\x00' then some .nulInName
  else if p = "" then some .notFound
  else if 4095 < Text.byteLength p.toList then some .nameTooLong
  else none

/-- The place of a path. -/
def place (fs : FileSystem) (p : Path) : Except Fault Place :=
  match refuse? p with
  | some f => .error f
  | none => fs.walk (fs.start p) (Path.parts p)

/-- Whether something stands at the end of a path. -/
def holds (fs : FileSystem) (p : Path) : Bool := (fs.place p).toOption.isSome

/-- Whether a directory stands at the end of a path. -/
def isDirectory (fs : FileSystem) (p : Path) : Bool :=
  match fs.place p with
  | .ok place => fs.hasDirectory place
  | .error _ => false

/-- The content of a file. -/
def read (fs : FileSystem) (p : Path) : Except Fault Bytes := do
  match fs.entry? (← fs.place p) with
  | some (.file content) => pure content
  | some .directory => .error .isADirectory
  | none => .error .notFound

/-- The content of a file that holds text. -/
def readText (fs : FileSystem) (p : Path) : Except Fault String := do
  match ofBytes? (← fs.read p) with
  | some s => pure s
  | none => .error .notText

/-- The parts of a path up to its last name, that name, and whether a slash follows it. -/
def splitLast (p : Path) : List (List Char) × List Char × Bool :=
  let parts := (Path.parts p).reverse
  let slashed := parts.head? == some []
  match parts.dropWhile (· == []) with
  | [] => ([], [], slashed)
  | last :: above => (above.reverse, last, slashed)

/-- The place where a new entry of a path stands, and the entry that stands there already. -/
def placeToMake (fs : FileSystem) (p : Path) : Except Fault (Place × Option Entry) := do
  match refuse? p with
  | some f => .error f
  | none =>
    let (above, last, _) := splitLast p
    let directory ← fs.walk (fs.start p) above
    if !fs.hasDirectory directory then .error .notADirectory
    else if Path.isVoid last then pure (directory, some .directory)
    else if last = ['.', '.'] then pure (directory.dropLast, some .directory)
    else if 255 < Text.byteLength last then .error .nameTooLong
    else
      let place := directory ++ [String.ofList last]
      pure (place, fs.entry? place)

/-- Writes a file, in place of the one that is there. -/
def write (fs : FileSystem) (p : Path) (content : Bytes) : Except Fault FileSystem := do
  let (place, there) ← fs.placeToMake p
  let slashed := (splitLast p).2.2
  match there with
  | some .directory => .error .isADirectory
  | some (.file _) => if slashed then .error .notADirectory else pure (fs.put place (.file content))
  | none => if slashed then .error .isADirectory else pure (fs.put place (.file content))

/-- Makes one directory. -/
def makeDirectory (fs : FileSystem) (p : Path) : Except Fault FileSystem := do
  let (place, there) ← fs.placeToMake p
  match there with
  | some _ => .error .exists
  | none => pure (fs.put place .directory)

/-- Makes a directory and those above it that are missing; at most `fuel` of them are. -/
def makeDirectoriesWith : (fuel : Nat) → FileSystem → Path → Except Fault FileSystem
  | 0, _, _ => .error .notFound
  | fuel + 1, fs, p =>
    if p = "" then .ok fs
    else
      match fs.makeDirectory p with
      | .ok fs => .ok fs
      | .error .notFound =>
        match Path.parent? p with
        | none => .error .notFound
        | some above => do
          let fs ← makeDirectoriesWith fuel fs above
          match fs.makeDirectory p with
          | .ok fs => pure fs
          | .error f => if fs.isDirectory p then pure fs else .error f
      | .error f => if fs.isDirectory p then .ok fs else .error f

/-- Makes a directory and those above it that are missing. -/
def makeDirectories (fs : FileSystem) (p : Path) : Except Fault FileSystem :=
  makeDirectoriesWith (p.length + 1) fs p

/-- The path of the working directory. -/
def workPath (fs : FileSystem) : Path := "/" ++ "/".intercalate fs.workDir

end FileSystem

end CollectionRunner
