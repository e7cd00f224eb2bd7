import WorkspaceBuild.Text

/-! # Roles

What a module or file is for: shipped code, tests, documentation, compile time, or packaging.
-/

namespace WorkspaceBuild

/-- A build mode that a module or file takes part in, in ascending order. -/
inductive Role where
  | standard
  | test
  | doc
  /-- Only needed at compile time. -/
  | compile
  | build
  deriving DecidableEq, Inhabited, Repr, Ord

namespace Role

def all : List Role := [.standard, .test, .doc, .compile, .build]

def name : Role → String
  | .standard => "standard"
  | .test => "test"
  | .doc => "doc"
  | .compile => "compile"
  | .build => "build"

def ofName? (name : String) : Option Role := all.find? (·.name = name)

theorem ofName?_name (role : Role) : ofName? role.name = some role := by
  cases role <;> decide

end Role

/-- The names of a list with commas between them, without blanks around them, empty ones and
repetitions. -/
def parseProfiles (text : String) : List String :=
  (((Text.pieces ',' text).map Text.trimmed).filter (· ≠ "")).foldl
    (fun names name => if names.contains name then names else names ++ [name]) []

end WorkspaceBuild
