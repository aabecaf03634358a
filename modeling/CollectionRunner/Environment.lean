import CollectionRunner.Json.Decoder
import CollectionRunner.Variables

/-!
The environment of a run: a named list of variables, each one switched on or off.

Its first variable is the address of the server under test. Further variables are set one after the
other: a key that is there keeps its place and its switch and gets the new value, any other key is
appended.
-/

namespace CollectionRunner

/-- A variable of an environment. -/
structure EnvVariable where
  key : String
  value : String
  kind : String
  enabled : Bool
  deriving DecidableEq, Repr

/-- A variable that holds a text and is switched on. -/
def EnvVariable.text (key value : String) : EnvVariable := ⟨key, value, "text", true⟩

/-- A list of variables with its name and the scope it declares. -/
structure Environment where
  name : String
  values : List EnvVariable
  scope : String
  deriving DecidableEq, Repr

namespace Environment

/-- The variable that holds the address of the server under test. -/
def hostKey : String := "HOST"

/-- The environment that only holds the address of the server. -/
def forHost (baseUrl : String) : Environment :=
  ⟨"test-env", [.text hostKey baseUrl], "environment"⟩

/-- Gives the first variable of `key` a new value, or appends the variable. -/
def assign (key value : String) : List EnvVariable → List EnvVariable
  | [] => [.text key value]
  | v :: vs => if v.key = key then { v with value := value } :: vs else v :: assign key value vs

/-- Sets one variable. The address of the server is never set anew. -/
def setVariable (env : Environment) (key value : String) : Environment :=
  if key = hostKey then env else { env with values := assign key value env.values }

/-- Sets variables one after the other. -/
def withVariables (env : Environment) (extra : List (String × String)) : Environment :=
  extra.foldl (fun env kv => env.setVariable kv.1 kv.2) env

/-- The value of the first variable of `key` that is switched on. -/
def get? (env : Environment) (key : String) : Option String :=
  (env.values.find? fun v => v.enabled && v.key == key).map EnvVariable.value

/-- The variables that are switched on. -/
def toVariables (env : Environment) : Variables :=
  (env.values.filter EnvVariable.enabled).map fun v => (v.key, v.value)

/-- Switches the variable at a place on or off, if there is one. -/
def enable (env : Environment) (index : Nat) (on : Bool) : Environment :=
  { env with values := env.values.modify index fun v => { v with enabled := on } }

end Environment

open Json

/-- The members of a variable. -/
def EnvVariable.fields : List (Slot EnvVariable) :=
  [.of "key" Decoder.string (fun s v => { v with key := s }),
    .of "value" Decoder.string (fun s v => { v with value := s }),
    .of "type" Decoder.string (fun s v => { v with kind := s }),
    .of "enabled" Decoder.bool (fun b v => { v with enabled := b })]

/-- Reads a variable, which has all its members. -/
def EnvVariable.decode : Decoder EnvVariable := .closedRecord true ⟨"", "", "", false⟩ fields

/-- The variable as a JSON object. -/
def EnvVariable.toValue (v : EnvVariable) : Value :=
  .object [("key", .string v.key), ("value", .string v.value), ("type", .string v.kind),
    ("enabled", .bool v.enabled)]

namespace Environment

/-- The members of an environment. -/
def fields : List (Slot Environment) :=
  [.of "name" Decoder.string (fun s e => { e with name := s }),
    .of "values" (.array EnvVariable.decode) (fun vs e => { e with values := vs }),
    .of "_postman_variable_scope" Decoder.string (fun s e => { e with scope := s })]

/-- Reads an environment, which has all its members. -/
def decode : Decoder Environment := .closedRecord true ⟨"", [], ""⟩ fields

/-- The environment as a JSON object. -/
def toValue (env : Environment) : Value :=
  .object [("name", .string env.name), ("values", .array (env.values.map EnvVariable.toValue)),
    ("_postman_variable_scope", .string env.scope)]

end Environment

end CollectionRunner
