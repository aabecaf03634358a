/-!
Warnings of a run, in the order in which they arise.
-/

namespace CollectionRunner

/-- Something that does not end a run and is worth a line in its log. -/
inductive Warning
  | missingFixture (path : String)
  | unresolved (raw : String) (names : List String)
  | noFile (key : String)
  | notEvaluated (item test : String)
  deriving DecidableEq, Repr

/-- The line of a warning. -/
def Warning.message : Warning → String
  | missingFixture path => "fixture package " ++ path ++ " does not exist"
  | unresolved raw names => "unresolved variables in " ++ raw ++ ": " ++ ", ".intercalate names
  | noFile key => "form field " ++ key ++ " has no file to upload"
  | notEvaluated item test =>
    "assertion not evaluated by native engine item=" ++ item ++ " test=" ++ test

/-- A result with the warnings that arose on the way to it. -/
structure Logged (α : Type) where
  value : α
  warnings : List Warning := []
  deriving Repr

namespace Logged

instance : Monad Logged where
  pure a := ⟨a, []⟩
  bind x f :=
    let y := f x.value
    ⟨y.value, x.warnings ++ y.warnings⟩

/-- A warning arises. -/
def warn (w : Warning) : Logged Unit := ⟨(), [w]⟩

@[simp] theorem value_pure (a : α) : (pure a : Logged α).value = a := rfl

@[simp] theorem warnings_pure (a : α) : (pure a : Logged α).warnings = [] := rfl

@[simp] theorem value_bind (x : Logged α) (f : α → Logged β) :
    (x >>= f).value = (f x.value).value := rfl

@[simp] theorem warnings_bind (x : Logged α) (f : α → Logged β) :
    (x >>= f).warnings = x.warnings ++ (f x.value).warnings := rfl

end Logged

end CollectionRunner
