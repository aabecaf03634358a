import CollectionRunner.Proofs.FileSystem.Directory
import CollectionRunner.Run.Once

/-!
# Another working directory

The working directory is where the walk along a relative path starts, and nothing else depends on
it. Whatever is read, looked for or written at an absolute path is the same in every working
directory (`FileSystem.read_startedIn`, `FileSystem.write_startedIn`), and so is the export of a
summary (`Summary.export?_startedIn`).
-/

namespace CollectionRunner

namespace FileSystem

/-- The same files seen from another working directory. -/
def startedIn (fs : FileSystem) (dir : Place) : FileSystem := { fs with workDir := dir }

variable (fs : FileSystem) (dir : Place)

@[simp] theorem step_startedIn (place : Place) (part : List Char) :
    (fs.startedIn dir).step place part = fs.step place part := rfl

@[simp] theorem walk_startedIn (place : Place) (parts : List (List Char)) :
    (fs.startedIn dir).walk place parts = fs.walk place parts := by
  induction parts generalizing place with
  | nil => rfl
  | cons part parts ih =>
    rw [walk, walk, step_startedIn]
    cases fs.step place part with
    | error f => rfl
    | ok next => exact ih next

section

variable {fs dir} {p : Path} (hp : Path.isAbsolute p = true)
include hp

theorem start_startedIn : (fs.startedIn dir).start p = fs.start p := by
  rw [start, start, if_pos hp, if_pos hp]

/-! ## Reading -/

theorem place_startedIn : (fs.startedIn dir).place p = fs.place p := by
  unfold place
  rw [start_startedIn hp, walk_startedIn]

theorem holds_startedIn : (fs.startedIn dir).holds p = fs.holds p := by
  rw [holds, place_startedIn hp, holds]

theorem isDirectory_startedIn : (fs.startedIn dir).isDirectory p = fs.isDirectory p := by
  unfold isDirectory
  rw [place_startedIn hp]
  rfl

theorem read_startedIn : (fs.startedIn dir).read p = fs.read p := by
  unfold read
  rw [place_startedIn hp]
  rfl

theorem readText_startedIn : (fs.startedIn dir).readText p = fs.readText p := by
  rw [readText, read_startedIn hp, readText]

/-! ## Writing -/

theorem placeToMake_startedIn : (fs.startedIn dir).placeToMake p = fs.placeToMake p := by
  simp only [placeToMake, start_startedIn hp, walk_startedIn]
  rfl

theorem write_startedIn (content : Bytes) :
    (fs.startedIn dir).write p content = (fs.write p content).map (startedIn · dir) := by
  unfold write
  rw [placeToMake_startedIn hp]
  cases fs.placeToMake p with
  | error f => rfl
  | ok found =>
    obtain ⟨place, there⟩ := found
    show _ = Except.map _ _
    cases (splitLast p).2.2 <;> rcases there with _ | _ | _ <;> rfl

theorem makeDirectory_startedIn :
    (fs.startedIn dir).makeDirectory p = (fs.makeDirectory p).map (startedIn · dir) := by
  unfold makeDirectory
  rw [placeToMake_startedIn hp]
  cases fs.placeToMake p with
  | error f => rfl
  | ok found =>
    obtain ⟨place, there⟩ := found
    cases there <;> rfl

theorem makeDirectoriesWith_startedIn (fuel : Nat) :
    (makeDirectoriesWith fuel (fs.startedIn dir) p) =
      (makeDirectoriesWith fuel fs p).map (startedIn · dir) := by
  induction fuel generalizing fs p with
  | zero => rfl
  | succ fuel ih =>
    unfold makeDirectoriesWith
    rw [makeDirectory_startedIn hp, isDirectory_startedIn hp]
    split
    · rfl
    cases fs.makeDirectory p with
    | ok made => rfl
    | error f =>
      cases f
      case notFound =>
        cases hparent : Path.parent? p with
        | none => rfl
        | some above =>
          show (makeDirectoriesWith fuel (fs.startedIn dir) above >>= _) = Except.map _ (_ >>= _)
          rw [ih (Path.isAbsolute_parent? hp hparent)]
          cases makeDirectoriesWith fuel fs above with
          | error f => rfl
          | ok made =>
            simp only [Except.map, bind, Except.bind, makeDirectory_startedIn hp,
              isDirectory_startedIn hp]
            cases made.makeDirectory p with
            | ok fs => rfl
            | error f => cases made.isDirectory p <;> rfl
      all_goals cases fs.isDirectory p <;> rfl

theorem makeDirectories_startedIn :
    (fs.startedIn dir).makeDirectories p = (fs.makeDirectories p).map (startedIn · dir) :=
  makeDirectoriesWith_startedIn hp _

end

end FileSystem

theorem Summary.writeFile_startedIn {fs : FileSystem} {dir : Place} {path : Path}
    (hpath : Path.isAbsolute path = true) (s : Summary) :
    write.writeFile path s (fs.startedIn dir) =
      ((write.writeFile path s fs).1.startedIn dir, (write.writeFile path s fs).2) := by
  unfold write.writeFile
  rw [FileSystem.write_startedIn hpath]
  cases fs.write path (toBytes s.report) <;> rfl

theorem Summary.write_startedIn {fs : FileSystem} {dir : Place} {path : Path}
    (hpath : Path.isAbsolute path = true) (s : Summary) :
    s.write (fs.startedIn dir) path = ((s.write fs path).1.startedIn dir, (s.write fs path).2) := by
  unfold write
  cases hparent : Path.parent? path with
  | none => exact writeFile_startedIn hpath s
  | some above =>
    simp only [FileSystem.makeDirectories_startedIn (Path.isAbsolute_parent? hpath hparent)]
    cases fs.makeDirectories above with
    | error f => rfl
    | ok made => exact writeFile_startedIn hpath s

theorem Summary.export?_startedIn {fs : FileSystem} {dir : Place} {path : Option Path}
    (hpath : ∀ p, path = some p → Path.isAbsolute p = true) (s : Summary) :
    s.export? (fs.startedIn dir) path =
      ((s.export? fs path).1.startedIn dir, (s.export? fs path).2) := by
  cases path with
  | none => rfl
  | some p => exact write_startedIn (hpath p rfl) s

end CollectionRunner
