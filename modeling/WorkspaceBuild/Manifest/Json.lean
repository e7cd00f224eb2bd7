import WorkspaceBuild.Json.Decode
import WorkspaceBuild.Json.Reader
import WorkspaceBuild.Json.Writer
import WorkspaceBuild.Manifest

/-! # Manifests as JSON

The text of a manifest is read in two steps: the version of the format is looked at first, and only
the one version is decoded further. Optional parts that are empty are not written.
-/

namespace WorkspaceBuild

open Json (Presence)

/-- Times and other whole numbers take 64 bits. -/
def wordLimit : Nat := 18446744073709551616

/-- The version of the format takes 32 bits. -/
def versionLimit : Nat := 4294967296

/-- A member that is left out when the list is empty. -/
def listMember (name : String) (items : List String) : List (String × Json) :=
  if items.isEmpty then [] else [(name, .array (items.map .string))]

def Path.toJson (p : Path) : Json := .string p.text

def Path.ofJson? (value : Json) : Option Path := (Json.text? value).map Path.mk

def textsOfJson? : Json → Option (List String) := Json.list? Json.text?

def FileEntry.toJson (entry : FileEntry) : Json :=
  .object ([("path", .string entry.path), ("type", .string entry.kind.name),
    ("updated", .whole entry.updated)] ++
    (match entry.role with
     | some role => [("role", .string role.name)]
     | none => []) ++
    listMember "profiles" entry.profiles)

def FileEntry.ofJson? (value : Json) : Option FileEntry := do
  let fields ← Json.fields?
    [("path", .required), ("type", .required), ("updated", .required), ("role", .defaulted),
      ("profiles", .defaulted)] value
  match fields with
  | [some path, some kind, some updated, role, profiles] =>
      return {
        path := ← Json.text? path
        kind := ← Json.choice? FileKind.ofName? kind
        updated := ← Json.natBelow? wordLimit updated
        role := ← Json.absentOr? (Json.choice? Role.ofName?) role
        profiles := ← Json.defaulted? [] textsOfJson? profiles }
  | _ => none

/-- The files of a module by the names of their categories. -/
def filesToJson (files : Assoc Category (List FileEntry)) : Json :=
  .object (files.map fun (category, entries) =>
    (category.name, .array (entries.map FileEntry.toJson)))

/-- The files of a module from an object with a list for each category. -/
def filesOfJson? : Json → Option (Assoc Category (List FileEntry))
  | .object members =>
      (members.mapM fun (member : String × Json) => do
        let category ← Category.ofName? member.1
        return (category, ← Json.list? FileEntry.ofJson? member.2)).map Assoc.ofPairs
  | _ => none

def Module.toJson (m : Module) : Json :=
  .object ([("name", .string m.name), ("version", .string m.version), ("source", m.source.toJson),
    ("output", m.output.toJson), ("main", .bool m.main), ("workspace", .bool m.workspace),
    ("internal", .bool m.internal), ("prod", .bool m.prod),
    ("roles", .array (m.roles.map fun role => .string role.name)),
    ("parents", .array (m.parents.map .string))] ++
    listMember "profiles" m.profiles ++ [("files", filesToJson m.files)])

def Module.ofJson? (value : Json) : Option Module := do
  let fields ← Json.fields?
    [("name", .required), ("version", .required), ("source", .required), ("output", .required),
      ("main", .required), ("workspace", .required), ("internal", .required), ("prod", .required),
      ("roles", .required), ("parents", .required), ("profiles", .defaulted),
      ("files", .required)] value
  match fields with
  | [some name, some version, some source, some output, some main, some workspace, some internal,
      some prod, some roles, some parents, profiles, some files] =>
      return {
        name := ← Json.text? name
        version := ← Json.text? version
        source := ← Path.ofJson? source
        output := ← Path.ofJson? output
        main := ← Json.bool? main
        workspace := ← Json.bool? workspace
        internal := ← Json.bool? internal
        prod := ← Json.bool? prod
        roles := ascending (← Json.list? (Json.choice? Role.ofName?) roles)
        parents := ascending (← textsOfJson? parents)
        profiles := ← Json.defaulted? [] textsOfJson? profiles
        files := ← filesOfJson? files }
  | _ => none

/-- What is said of the workspace, as JSON. -/
def WorkspaceInfo.toJson (info : WorkspaceInfo) : Json :=
  .object [("path", info.path.toJson), ("name", .string info.name),
    ("monorepo", .bool info.monorepo), ("packageManager", .string info.packageManager.name)]

/-- What is said of the workspace, from JSON. -/
def WorkspaceInfo.ofJson? (value : Json) : Option WorkspaceInfo := do
  let fields ← Json.fields?
    [("path", .required), ("name", .required), ("monorepo", .required),
      ("packageManager", .required)] value
  match fields with
  | [some path, some name, some monorepo, some manager] =>
      return {
        path := ← Path.ofJson? path
        name := ← Json.text? name
        monorepo := ← Json.bool? monorepo
        packageManager := ← Json.choice? PackageManager.ofName? manager }
  | _ => none

def BuildPaths.toJson (paths : BuildPaths) : Json :=
  .object ([("compilerOutput", paths.compilerOutput.toJson), ("output", paths.output.toJson),
    ("tool", paths.tool.toJson), ("types", paths.types.toJson)] ++
    (match paths.compilerServiceUrl with
     | some url => [("compilerServiceUrl", .string url)]
     | none => []))

def BuildPaths.ofJson? (value : Json) : Option BuildPaths := do
  let fields ← Json.fields?
    [("compilerOutput", .required), ("output", .required), ("tool", .required),
      ("types", .required), ("compilerServiceUrl", .defaulted)] value
  match fields with
  | [some compilerOutput, some output, some tool, some types, url] =>
      return {
        compilerOutput := ← Path.ofJson? compilerOutput
        output := ← Path.ofJson? output
        tool := ← Path.ofJson? tool
        types := ← Path.ofJson? types
        compilerServiceUrl := ← Json.absentOr? Json.text? url }
  | _ => none

def MainModule.toJson (main : MainModule) : Json :=
  .object [("name", .string main.name), ("version", .string main.version),
    ("source", main.source.toJson)]

def MainModule.ofJson? (value : Json) : Option MainModule := do
  let fields ← Json.fields? [("name", .required), ("version", .required), ("source", .required)]
    value
  match fields with
  | [some name, some version, some source] =>
      return {
        name := ← Json.text? name
        version := ← Json.text? version
        source := ← Path.ofJson? source }
  | _ => none

namespace Manifest

def toJson (m : Manifest) : Json :=
  .object [("version", .whole m.version), ("workspace", m.workspace.toJson),
    ("paths", m.paths.toJson), ("main", m.main.toJson), ("generated", .whole m.generated),
    ("modules", .object (m.modules.map fun (name, entry) => (name, entry.toJson)))]

def ofJson? (value : Json) : Option Manifest := do
  let fields ← Json.fields?
    [("version", .required), ("workspace", .required), ("paths", .required), ("main", .required),
      ("generated", .required), ("modules", .required)] value
  match fields with
  | [some version, some workspace, some paths, some main, some generated, some modules] =>
      return {
        version := ← Json.natBelow? versionLimit version
        workspace := ← WorkspaceInfo.ofJson? workspace
        paths := ← BuildPaths.ofJson? paths
        main := ← MainModule.ofJson? main
        generated := ← Json.natBelow? wordLimit generated
        modules := ← Json.table? Module.ofJson? modules }
  | _ => none

def text (m : Manifest) : String := m.toJson.pretty

/-- The version of the format that a value states: the low 32 bits of a natural number, and zero
when it states none. -/
def statedVersion (value : Json) : Nat :=
  match value.member? "version" with
  | some (.whole (.ofNat n)) => n % versionLimit
  | _ => 0

/-- Why a text is no manifest. -/
inductive Fault where
  | undecodable
  /-- It states another version of the format. -/
  | incompatible (found : Nat)
  deriving DecidableEq, Inhabited, Repr

def ofText (text : String) : Except Fault Manifest :=
  match Json.read? text with
  | none => .error .undecodable
  | some value =>
      let value := value.settled
      if statedVersion value = currentVersion then
        match ofJson? value with
        | some manifest => .ok manifest
        | none => .error .undecodable
      else .error (.incompatible (statedVersion value))

end Manifest

end WorkspaceBuild
