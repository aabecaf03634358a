import CollectionRunner.Collection.Decoder
import CollectionRunner.Collection.Fixture
import CollectionRunner.Problem

/-!
Reading a collection from its file.
-/

namespace CollectionRunner.Collection

/-- The collection of a file. -/
def load (fs : FileSystem) (path : Path) : Except Problem Collection := do
  let text ← orProblem ("reading collection " ++ path) .file (fs.readText path)
  orProblem ("parsing collection " ++ path) .json (decode.parse text)

/-- The collection of a file with its uploads pointed at the fixture. -/
def prepare (fs : FileSystem) (path fixture : Path) : Except Problem Collection :=
  (load fs path).map (inject fixture)

end CollectionRunner.Collection
