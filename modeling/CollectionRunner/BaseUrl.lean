/-!
The address of the server under test: it listens on the local host.
-/

namespace CollectionRunner

/-- The port when none is given. -/
def defaultPort : String := "8080"

/-- The first of the given ports that is there and not empty, taken as it is written. -/
def baseUrl (port : Option String) : String :=
  "http://localhost:" ++ (port.filter (· ≠ "")).getD defaultPort

@[simp] theorem baseUrl_none : baseUrl none = "http://localhost:8080" := rfl

theorem baseUrl_empty : baseUrl (some "") = baseUrl none := by decide

end CollectionRunner
