import WorkspaceBuild.Json
import WorkspaceBuild.Settings

/-! # Settings as JSON

The written forms of a project file and of the settings that come of it. What a project file leaves
unset is not written.
-/

namespace WorkspaceBuild

/-- A member that is left out when there is no value. -/
def settingMember (name : String) (value : Option String) : List (String × Json) :=
  (value.map fun text => (name, Json.string text)).toList

/-- A member that is left out when there are no texts. -/
def settingsMember (name : String) (values : List String) : List (String × Json) :=
  if values.isEmpty then [] else [(name, .array (values.map .string))]

def ProjectFile.toJson (p : ProjectFile) : Json :=
  let text (path : Option Path) : Option String := path.map Path.text
  .object [("build", .object (settingMember "tool" (text p.build.tool) ++
      settingMember "output" (text p.build.output) ++
      settingMember "compiler-output" (text p.build.compilerOutput) ++
      settingMember "types" (text p.build.types) ++ settingsMember "exclude" p.build.exclude ++
      settingMember "compiler-url" p.build.compilerUrl)),
    ("profiles", .object (settingsMember "active" p.profiles))]

def Settings.toJson (s : Settings) : Json :=
  let path (p : Path) : Json := .string p.text
  .object [("workspace_root", path s.workspaceRoot), ("tool_folder", path s.toolFolder),
    ("output_root", path s.outputRoot), ("compiler_output", path s.compilerOutput),
    ("types_output", path s.typesOutput), ("manifest_path", path s.manifestPath),
    ("profiles", .array (s.profiles.map .string)), ("excluded", .array (s.excluded.map path)),
    ("compiler_url", (s.compilerUrl.map Json.string).getD .null),
    ("tool_folder_name", path s.toolFolderName)]

end WorkspaceBuild
