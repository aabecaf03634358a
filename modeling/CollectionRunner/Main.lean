import CollectionRunner.Cli.Program
import Std.Time.DateTime.Timestamp

/-!
The command line program.

The files that a run may read are taken into a value stage by stage: those of the configuration,
those that the settings name, and those that the requests upload. The run itself is a function of
that value; the files that it adds are written at the end. The program opens no connections and
starts no other program: every request ends in an error, and the external runner is never found.
-/

namespace CollectionRunner.Cli

/-- The files that a configuration may stand in. -/
def Options.configPaths (fs : FileSystem) (o : Options) : List Path :=
  let target :=
    match o.config with
    | some path => Path.join (o.baseDir fs) path
    | none => o.baseDir fs
  [target, Path.join target Config.fileName]

/-- The files that the settings name. -/
def settingsPaths (s : Settings.Sources) : List Path :=
  [s.collection, s.fixture] ++ s.envFile.toList ++
    (s.overrides.jsonExport.map (Path.join s.baseDir)).toList

/-- The files that a body uploads. -/
def uploadPaths (b : Body) : List Path :=
  (b.formdata.getD []).flatMap (fun p => (p.src.map FileSource.paths).getD []) ++
    (b.file.bind FileRef.src).toList

/-- The files that the requests of a collection upload. -/
def collectionPaths (c : Collection) : List Path :=
  c.leaves.flatMap fun l => (l.request.body.map uploadPaths).getD []

/-- The text of the path of a place. -/
def placePath (place : Place) : String := "/" ++ "/".intercalate place

/-- What stands at a place of the disk. -/
def entryOnDisk (place : Place) : IO (Option Entry) := do
  try
    let content ← IO.FS.readBinFile (placePath place)
    pure (some (.file content.toList))
  catch
    | .inappropriateType _ 21 _ => pure (some .directory)
    | _ => pure none

/-- Takes what stands at a place into the files. -/
def lookAt (fs : FileSystem) (place : Place) : IO FileSystem := do
  if (fs.entry? place).isSome then pure fs
  else
    match ← entryOnDisk place with
    | some e => pure (fs.put place e)
    | none => pure fs

/-- Takes what stands along a path into the files, from a place on. -/
def lookAlong (fs : FileSystem) (place : Place) : List (List Char) → IO FileSystem
  | [] => pure fs
  | part :: parts => do
    if Path.isVoid part then lookAlong fs place parts
    else if part = ['.', '.'] then lookAlong fs place.dropLast parts
    else
      let place := place ++ [String.ofList part]
      let fs ← lookAt fs place
      lookAlong fs place parts

/-- Takes what stands along paths into the files. -/
def lookUp (fs : FileSystem) (paths : List Path) : IO FileSystem :=
  paths.foldlM (fun fs p => lookAlong fs (fs.start p) (Path.parts p)) fs

/-- The working directory with what stands above it. -/
def startFiles : IO FileSystem := do
  let parts := Path.parts (toString (← IO.currentDir))
  let names := (parts.filter fun part => !Path.isVoid part).map String.ofList
  lookAlong ⟨[], names⟩ [] parts

/-- The files that a run may read. -/
def gatherFiles (o : Options) (fs : FileSystem) : IO FileSystem := do
  let fs ← lookUp fs (o.configPaths fs)
  match o.loadConfig fs with
  | .error _ => pure fs
  | .ok config =>
    let sources : Settings.Sources := ⟨o.baseDir fs, config, o.overrides⟩
    let fs ← lookUp fs (settingsPaths sources)
    match Collection.prepare fs sources.collection sources.fixture with
    | .error _ => pure fs
    | .ok c => lookUp fs (collectionPaths c)

/-- Writes the entries that were added to the files, the oldest one first. -/
def writeAdded (before after : FileSystem) : IO Unit := do
  let added := after.entries.take (after.entries.length - before.entries.length)
  for (place, entry) in added.reverse do
    match entry with
    | .directory => IO.FS.createDir (placePath place)
    | .file content => IO.FS.writeBinFile (placePath place) ⟨content.toArray⟩

/-- The instant of the clock. -/
def readClock : IO Instant := do
  let now ← Std.Time.Timestamp.now
  pure ⟨now.toMillisecondsSinceUnixEpoch.val⟩

/-- What a run takes place in, given its files. -/
def worldOf (fs : FileSystem) : IO World := do
  let now ← readClock
  let color ← (← IO.getStdout).isTty
  pure
    { files := fs, network := .unreachable, runner := .missing, clock := ⟨now, now, fun _ => .zero⟩,
      boundary := "boundary", scratch := "/tmp", color }

end CollectionRunner.Cli

open CollectionRunner Cli in
/-- Runs the program with the arguments of the command line. -/
def main (arguments : List String) : IO UInt32 := do
  let start ← startFiles
  let fs ←
    match Options.read arguments with
    | .ok o => gatherFiles o start
    | .error _ => pure start
  let ended := Cli.run (← worldOf fs) arguments
  for warning in ended.warnings do
    IO.eprintln ("WARN " ++ warning.message)
  IO.print ended.value.output
  writeAdded fs ended.value.files
  if ended.value.code = usageCode then IO.eprintln usageText
  match ended.value.problem with
  | some p => IO.eprintln (errorText p)
  | none => pure ()
  pure ended.value.code.toUInt32
