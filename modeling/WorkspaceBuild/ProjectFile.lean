import WorkspaceBuild.Path
import WorkspaceBuild.Toml.Reader

/-! # Project files

The optional settings file of a workspace. Keys it does not know, and values of another type, are
refused.
-/

namespace WorkspaceBuild

/-- The folders and exclusions that a project file sets. -/
structure BuildSection where
  tool : Option Path := none
  /-- Where outputs go. -/
  output : Option Path := none
  compilerOutput : Option Path := none
  types : Option Path := none
  /-- Further folders that are not scanned. -/
  exclude : List String := []
  /-- The address of the compiler service. -/
  compilerUrl : Option String := none
  deriving DecidableEq, Inhabited, Repr

/-- What a project file sets. -/
structure ProjectFile where
  build : BuildSection := {}
  profiles : List String := []
  deriving DecidableEq, Inhabited, Repr

namespace ProjectFile

def fileName : String := "loom.toml"

def defaultToolFolder : Path := ⟨".loom"⟩

def toolFolder (p : ProjectFile) : Path := p.build.tool.getD defaultToolFolder

def text? : Toml → Option String
  | .string text => some text
  | _ => none

def texts? : Toml → Option (List String)
  | .array items => items.mapM text?
  | _ => none

def path? (value : Toml) : Option Path := (text? value).map Path.mk

def setBuild (s : BuildSection) (entry : String × Toml) : Option BuildSection :=
  match entry.1 with
  | "tool" => (path? entry.2).map fun p => { s with tool := some p }
  | "output" => (path? entry.2).map fun p => { s with output := some p }
  | "compiler-output" => (path? entry.2).map fun p => { s with compilerOutput := some p }
  | "types" => (path? entry.2).map fun p => { s with types := some p }
  | "exclude" => (texts? entry.2).map fun names => { s with exclude := names }
  | "compiler-url" => (text? entry.2).map fun url => { s with compilerUrl := some url }
  | _ => none

/-- The build section of a table, or of a list with all its values in order. -/
def build? : Toml → Option BuildSection
  | .table _ entries => entries.foldlM setBuild {}
  | .array (tool :: output :: compilerOutput :: types :: exclude :: url :: _) =>
      [("tool", tool), ("output", output), ("compiler-output", compilerOutput), ("types", types),
        ("exclude", exclude), ("compiler-url", url)].foldlM setBuild {}
  | _ => none

def setProfiles (_ : List String) (entry : String × Toml) : Option (List String) :=
  if entry.1 = "active" then texts? entry.2 else none

/-- The profiles section of a table, or of a list that may hold its value. -/
def profiles? : Toml → Option (List String)
  | .table _ entries => entries.foldlM setProfiles []
  | .array [] => some []
  | .array (active :: _) => texts? active
  | _ => none

def setSection (p : ProjectFile) (entry : String × Toml) : Option ProjectFile :=
  match entry.1 with
  | "build" => (build? entry.2).map fun build => { p with build }
  | "profiles" => (profiles? entry.2).map fun profiles => { p with profiles }
  | _ => none

def ofText? (text : String) : Option ProjectFile := do
  (← Toml.read? text).foldlM setSection {}

end ProjectFile

end WorkspaceBuild
