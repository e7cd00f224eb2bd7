import WorkspaceBuild.Path

/-! # References

What the transformation of a unit may ask about other units: the id of a source file, the target of
an import, and where a file lives.
-/

namespace WorkspaceBuild

/-- How an import reaches its target. -/
inductive ReferenceKind where
  | file
  /-- A folder, through its index file. -/
  | directory
  deriving DecidableEq, Inhabited, Repr

def ReferenceKind.name : ReferenceKind → String
  | .file => "file"
  | .directory => "directory"

/-- The target of an import. -/
structure ResolvedReference where
  /-- Source path of the target; of a folder that of its index file. -/
  path : Path
  kind : ReferenceKind
  /-- The module that owns the target. -/
  project : Option String
  deriving DecidableEq, Inhabited, Repr

/-- Where a unit lives in the build. -/
structure UnitLocation where
  moduleName : String
  category : String
  /-- Whether the category only exists at compile time. -/
  compileTimeOnly : Bool
  deriving DecidableEq, Inhabited, Repr

/-- Answers about units other than the one at hand. -/
structure References where
  /-- The id of a source file. -/
  idOf : Path → Option String
  /-- The target of a specifier that stands in a file. -/
  resolve : Path → String → Option ResolvedReference
  /-- Module and category of a source file. -/
  locate : Path → Option UnitLocation

namespace References

def none : References := ⟨fun _ => .none, fun _ _ => .none, fun _ => .none⟩

/-- Answers looked up by text; the file that asks makes no difference. -/
def ofTable (ids : List (String × String)) (targets : List (String × ResolvedReference))
    (locations : List (String × UnitLocation)) : References :=
  ⟨fun path => ids.lookup path.text, fun _ specifier => targets.lookup specifier,
    fun path => locations.lookup path.text⟩

end References

/-- Whether a specifier is relative to the importing file. -/
def isRelative (specifier : String) : Bool :=
  specifier = "." || specifier = ".." || Text.beginsWith specifier "./" ||
    Text.beginsWith specifier "../"

end WorkspaceBuild
