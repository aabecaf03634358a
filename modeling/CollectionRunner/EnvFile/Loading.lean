import CollectionRunner.EnvFile.Assignment
import CollectionRunner.Problem

/-!
Reading the variables of an env file.
-/

namespace CollectionRunner.EnvFile

/-- The assignments of a file in order. -/
def load (fs : FileSystem) (path : Path) : Except Problem Variables := do
  let text ← orProblem ("reading env file " ++ path) .file (fs.readText path)
  orProblem ("parsing env file " ++ path) .envLine (read text)

end CollectionRunner.EnvFile
