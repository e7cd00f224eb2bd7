import WorkspaceBuild.Category
import WorkspaceBuild.Disk
import WorkspaceBuild.Json.Decode
import WorkspaceBuild.Json.Reader

/-! # Package descriptors

What a package says of itself: its name, what it depends on, the members of its workspace, and what
the framework is to know of it. Everything else in the file is passed over.
-/

namespace WorkspaceBuild

/-- Why packages cannot be resolved. -/
inductive PackageError where
  | unreadable (path : Path) (fault : Fault)
  /-- A descriptor is not well formed. -/
  | invalidDescriptor (path : Path)
  | missingDescriptor (folder : Path)
  /-- A pattern of workspace members is not well formed. -/
  | invalidPattern (pattern : String)
  /-- A module is not in the graph. -/
  | unknownModule (name : String)
  /-- Modules depend on each other in a circle. -/
  | circular (unresolved : List String)
  deriving DecidableEq, Inhabited, Repr

/-- The text of an error. What is wrong with a descriptor is not kept. -/
def PackageError.message : PackageError → String
  | .unreadable path fault => "I/O error at " ++ path.text ++ ": " ++ fault.message
  | .invalidDescriptor path => "Invalid package descriptor at " ++ path.text
  | .missingDescriptor folder => "No package descriptor found in " ++ folder.text
  | .invalidPattern pattern => "Invalid workspace pattern '" ++ pattern ++ "'"
  | .unknownModule name => "Unknown module '" ++ name ++ "'"
  | .circular unresolved =>
      "Circular dependency detected among: " ++ Text.listed unresolved

/-- How the members of a workspace are given. -/
inductive WorkspacePatterns where
  | list (patterns : List String)
  /-- As an object with a list in it. -/
  | detailed (packages : List String)
  deriving DecidableEq, Inhabited, Repr

def WorkspacePatterns.patterns : WorkspacePatterns → List String
  | .list patterns => patterns
  | .detailed packages => packages

/-- What the framework is to know of a package. -/
structure FrameworkData where
  /-- The roles the package declares, ascending. -/
  roles : List Role := []
  /-- Whether roles of the modules that depend on it flow into it. -/
  inheritRoles : Bool := true
  /-- Whether the flow of roles starts anew at it. -/
  roleRoot : Bool := false
  /-- Whether it belongs to the toolchain. -/
  internal : Bool := false
  profiles : List String := []
  /-- Profiles of files by the start of their path. -/
  fileProfiles : Assoc String (List String) := []
  deriving DecidableEq, Inhabited, Repr

/-- A package descriptor. -/
structure Descriptor where
  name : Option String := none
  version : Option String := none
  dependencies : Assoc String String := []
  /-- What only its development depends on. -/
  devDependencies : Assoc String String := []
  peerDependencies : Assoc String String := []
  workspaces : Option WorkspacePatterns := none
  /-- What the framework is to know of it. -/
  framework : Option FrameworkData := none
  deriving DecidableEq, Inhabited, Repr

/-- The patterns of a workspace from JSON. All of the value has to be readable. -/
def WorkspacePatterns.ofJson? (value : Json) : Option WorkspacePatterns :=
  if value.isReadable (Json.maxDepth - 1) then
    match value with
    | .array _ => (Json.list? Json.text? value).map .list
    | .object _ =>
        match Json.fields? [("packages", .defaulted)] value with
        | some [packages] =>
            (Json.defaulted? [] (Json.list? Json.text?) packages).map .detailed
        | _ => none
    | _ => none
  else none

/-- What the framework is to know, from JSON. -/
def FrameworkData.ofJson? (value : Json) : Option FrameworkData := do
  let fields ← Json.fields?
    [("roles", .defaulted), ("inheritRoles", .defaulted), ("roleRoot", .defaulted),
      ("internal", .defaulted), ("profiles", .defaulted), ("fileProfiles", .defaulted)] value
  match fields with
  | [roles, inheritRoles, roleRoot, internal, profiles, fileProfiles] =>
      let texts? := Json.list? Json.text?
      return {
        roles := ascending (← Json.defaulted? [] (Json.list? (Json.choice? Role.ofName?)) roles)
        inheritRoles := ← Json.defaulted? true Json.bool? inheritRoles
        roleRoot := ← Json.defaulted? false Json.bool? roleRoot
        internal := ← Json.defaulted? false Json.bool? internal
        profiles := ← Json.defaulted? [] texts? profiles
        fileProfiles := ← Json.defaulted? [] (Json.table? texts?) fileProfiles }
  | _ => none

namespace Descriptor

/-- The key under which a descriptor speaks to the framework. -/
def frameworkKey : String := "loom"

def ofJson? (value : Json) : Option Descriptor := do
  let fields ← Json.fields?
    [("name", .defaulted), ("version", .defaulted), ("dependencies", .defaulted),
      ("devDependencies", .defaulted), ("peerDependencies", .defaulted),
      ("workspaces", .defaulted), (frameworkKey, .defaulted)] value
  match fields with
  | [name, version, dependencies, devDependencies, peerDependencies, workspaces, framework] =>
      let names? := Json.table? Json.text?
      return {
        name := ← Json.absentOr? Json.text? name
        version := ← Json.absentOr? Json.text? version
        dependencies := ← Json.defaulted? [] names? dependencies
        devDependencies := ← Json.defaulted? [] names? devDependencies
        peerDependencies := ← Json.defaulted? [] names? peerDependencies
        workspaces := ← Json.absentOr? WorkspacePatterns.ofJson? workspaces
        framework := ← Json.absentOr? FrameworkData.ofJson? framework }
  | _ => none

def parse (text : String) (origin : Path) : Except PackageError Descriptor :=
  match (Json.readLoosely? text).bind ofJson? with
  | some descriptor => .ok descriptor
  | none => .error (.invalidDescriptor origin)

/-- The descriptor of the package in a folder. -/
def load (disk : Disk) (folder : Path) : Except PackageError Descriptor :=
  let path := folder.join descriptorFile
  if disk.isFile path then
    match disk.readText path with
    | .ok text => parse text path
    | .error fault => .error (.unreadable path fault)
  else .error (.missingDescriptor folder)

/-- The name of a package, or that of its folder. -/
def nameOr (d : Descriptor) (folder : Path) : String :=
  d.name.getD (folder.fileName?.getD "root")

def versionText (d : Descriptor) : String := d.version.getD "0.0.0"

def isFrameworkPackage (d : Descriptor) : Bool := d.framework.isSome

def patterns (d : Descriptor) : List String :=
  (d.workspaces.map WorkspacePatterns.patterns).getD []

end Descriptor

end WorkspaceBuild
