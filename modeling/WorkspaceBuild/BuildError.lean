import WorkspaceBuild.Dispatch
import WorkspaceBuild.Manifest.Json
import WorkspaceBuild.Package.Descriptor
import WorkspaceBuild.Settings

/-! # Errors of a build

Why a build stops: at its own files, or at what its settings, packages and transformations report.
-/

namespace WorkspaceBuild

/-- Why a build stops. -/
inductive BuildError where
  /-- A module has files in a folder without a category. -/
  | unexpectedFolder (moduleName folder path : String)
  /-- The file of a manifest cannot be read. -/
  | unreadableManifest (path : Path) (fault : Fault)
  /-- The text of a manifest is not well formed. -/
  | malformedManifest (path : Path)
  | incompatibleManifest (path : Path) (found : Nat)
  /-- There is no module of a name. -/
  | moduleNotFound (name : String)
  | unscannable (path : Path) (fault : Fault)
  /-- A file cannot be read or written. -/
  | fileFault (path : Path) (fault : Fault)
  | settings (error : SettingsError)
  | package (error : PackageError)
  | transform (error : TransformError)
  deriving DecidableEq, Inhabited, Repr

namespace BuildError

/-- The error of a manifest whose text cannot be taken. -/
def ofManifest (path : Path) : Manifest.Fault → BuildError
  | .undecodable => .malformedManifest path
  | .incompatible found => .incompatibleManifest path found

/-- The text of a fault at a path. -/
def atPath (path : Path) (text : String) : String := "I/O error at " ++ path.text ++ ": " ++ text

/-- The text of an error. What is wrong with the text of a manifest is not kept. -/
def message : BuildError → String
  | .unexpectedFolder moduleName folder path =>
      "Unexpected folder '" ++ folder ++ "' in module '" ++ moduleName ++ "' (file " ++ path ++ ")"
  | .unreadableManifest path fault =>
      "Failed to read manifest at " ++ path.text ++ ": " ++ fault.message
  | .malformedManifest path => "Failed to read manifest at " ++ path.text
  | .incompatibleManifest path found =>
      "Incompatible manifest at " ++ path.text ++ ": version " ++ Text.ofNat found ++
        ", expected " ++ Text.ofNat Manifest.currentVersion
  | .moduleNotFound name => "Module not found: " ++ name
  | .unscannable path fault =>
      atPath path ("IO error for operation on " ++ path.text ++ ": " ++ fault.message)
  | .fileFault path fault => atPath path fault.message
  | .settings error => error.message
  | .package error => error.message
  | .transform error => error.message

end BuildError

end WorkspaceBuild
