import WorkspaceBuild.BuildError
import WorkspaceBuild.References

/-! # Manifest index

Look-ups in a manifest: its files by source, output, id and specifier, its modules by folder, and
what imports and queries reach. The files are those of the manifest, module by module.
-/

namespace WorkspaceBuild

/-- A file of a manifest with what follows from its place. -/
structure IndexedFile where
  id : String
  moduleName : String
  category : Category
  entry : FileEntry
  source : Path
  output : Path
  deriving DecidableEq, Inhabited, Repr

def IndexedFile.isSource (file : IndexedFile) : Bool := file.entry.kind = .source

def IndexedFile.toJson (file : IndexedFile) : Json :=
  .object [("id", .string file.id), ("module", .string file.moduleName),
    ("category", .string file.category.name), ("entry", file.entry.toJson),
    ("source", file.source.toJson), ("output", file.output.toJson),
    ("is_source", .bool file.isSource)]

namespace Specifier

def typingsExtensions : List String := [".d.mts", ".d.cts", ".d.ts"]

def codeExtensions : List String :=
  [".tsx", ".mts", ".cts", ".ts", ".jsx", ".mjs", ".cjs", ".js"]

/-- Extensions that a specifier may leave out, in the order in which they are tried. -/
def sourceExtensions : List String := [".ts", ".tsx", ".mts", ".cts"]

/-- The text before the first of some endings that it has. -/
def dropEnding? (endings : List String) (text : String) : Option String :=
  endings.findSome? (Text.dropEnd? text)

/-- A path without the extension of a declaration or of code. -/
def stem (path : String) : String :=
  (dropEnding? typingsExtensions path).getD ((dropEnding? codeExtensions path).getD path)

/-- The name of a file seen from outside its module. -/
def qualified (moduleName path : String) : String := moduleName ++ "/" ++ path

end Specifier

/-- The id of a file: its qualified path without extension, with `:` for the last slash.
Declarations keep their `.d`. -/
def fileId (moduleName path : String) : String :=
  let name := Specifier.qualified moduleName
    ((Specifier.dropEnding? Specifier.codeExtensions path).getD path)
  match Text.cutLast? '/' name with
  | some (before, after) => before ++ ":" ++ after
  | none => name

namespace IndexedFile

def ofEntry (m : Module) (category : Category) (entry : FileEntry) : IndexedFile :=
  ⟨fileId m.name entry.path, m.name, category, entry, m.sourcePath entry, m.outputPath entry⟩

/-- Whether a kind of file can be imported without its extension. -/
def isCode : FileKind → Bool
  | .source | .compiled | .typings => true
  | _ => false

/-- The specifier of the folder that an index file stands for. -/
def folderSpecifier (file : IndexedFile) : List String :=
  if file.category = .index then [file.moduleName]
  else
    ((Text.dropEnd? (Specifier.stem file.entry.path) "/index").map
      (Specifier.qualified file.moduleName)).toList

/-- The bare specifiers that reach a file: as written, and for code also without extension, as its
output, and through its folder. -/
def specifiers (file : IndexedFile) : List String :=
  let name := Specifier.qualified file.moduleName
  name file.entry.path ::
    if isCode file.entry.kind then
      [name (Specifier.stem file.entry.path), name file.entry.outputPath] ++ file.folderSpecifier
    else []

end IndexedFile

/-- The files of a manifest, module by module in the order of their categories. -/
def Manifest.indexedFiles (m : Manifest) : List IndexedFile :=
  m.modules.values.flatMap fun entry =>
    entry.entries.map fun (category, file) => .ofEntry entry category file

/-- Which files a query asks for. -/
structure FileQuery where
  /-- Categories asked for; without any it is all. -/
  categories : List Category := []
  profiles : List String := []
  /-- What the path of a source has to satisfy. -/
  admitsSource : Path → Bool := fun _ => true

namespace FileQuery

/-- The query with the active profiles of settings. -/
def ofSettings (settings : Settings) : FileQuery := { profiles := settings.profiles }

def admitsCategory (query : FileQuery) (category : Category) : Bool :=
  query.categories.isEmpty || query.categories.contains category

/-- Whether profiles are asked for: what has none always is. -/
def admitsProfiles (query : FileQuery) (profiles : List String) : Bool :=
  profiles.isEmpty || profiles.any query.profiles.contains

end FileQuery

/-- A manifest with its files at hand. -/
structure ManifestIndex where
  path : Path
  manifest : Manifest
  files : List IndexedFile
  /-- The files are those of the manifest. -/
  files_eq : files = manifest.indexedFiles

namespace ManifestIndex

/-- The index of a manifest that is kept at a path. -/
def ofManifest (path : Path) (manifest : Manifest) : ManifestIndex :=
  ⟨path, manifest, manifest.indexedFiles, rfl⟩

def lastFile? (index : ManifestIndex) (holds : IndexedFile → Bool) : Option IndexedFile :=
  (index.files.filter holds).getLast?

def bySource? (index : ManifestIndex) (source : Path) : Option IndexedFile :=
  index.lastFile? fun file => file.source.same source

def byOutput? (index : ManifestIndex) (output : Path) : Option IndexedFile :=
  index.lastFile? fun file => file.output.same output

def byId? (index : ManifestIndex) (id : String) : Option IndexedFile :=
  index.lastFile? fun file => file.id = id

/-- The file that a bare specifier reaches: of several the first. -/
def bySpecifier? (index : ManifestIndex) (specifier : String) : Option IndexedFile :=
  index.files.find? fun file => file.specifiers.contains specifier

/-- The id of the file with a source. -/
def idOf? (index : ManifestIndex) (source : Path) : Option String :=
  (index.bySource? source).map IndexedFile.id

/-- The name of the last module with a folder. -/
def ownerOf? (index : ManifestIndex) (folder : Path) : Option String :=
  ((index.manifest.modules.values.filter fun m => m.source.same folder).getLast?).map Module.name

/-- The module whose folder is the nearest above a path. -/
def moduleForFolder? (index : ManifestIndex) (path : Path) : Option Module :=
  (path.ancestors.findSome? index.ownerOf?).bind index.manifest.module?

/-- The source files that a query asks for. -/
def find (index : ManifestIndex) (query : FileQuery) : List IndexedFile :=
  index.files.filter fun file =>
    file.isSource && query.admitsCategory file.category &&
      ((index.manifest.module? file.moduleName).any fun m => query.admitsProfiles m.profiles) &&
      query.admitsProfiles file.entry.profiles && query.admitsSource file.source

/-- The file that a path means, as written, with another extension, or as a folder with an index
file. -/
def resolvePath? (index : ManifestIndex) (path : Path) : Option (ReferenceKind × IndexedFile) :=
  let file := (index.bySource? path).or
    (Specifier.sourceExtensions.findSome? fun extension =>
      index.bySource? ⟨Specifier.stem path.text ++ extension⟩)
  match file with
  | some file => some (.file, file)
  | none =>
      (Specifier.sourceExtensions.findSome? fun extension =>
        index.bySource? (path.join ("index" ++ extension))).map fun file => (.directory, file)

/-- Whether a bare specifier reaches an index file without naming it. -/
def reachesFolder (index : ManifestIndex) (specifier : String) (file : IndexedFile) : Bool :=
  Assoc.has index.manifest.modules specifier ||
    (Text.endsWith (Specifier.stem file.entry.path) "/index" &&
      !Text.endsWith specifier "/index" && !Text.contains specifier "/index.")

def resolveBare? (index : ManifestIndex) (specifier : String) :
    Option (ReferenceKind × IndexedFile) :=
  (index.bySpecifier? specifier).map fun file =>
    (if index.reachesFolder specifier file then .directory else .file, file)

/-- The target of a specifier that stands in a file. -/
def resolve? (index : ManifestIndex) (source : Path) (specifier : String) :
    Option ResolvedReference :=
  let target :=
    if isRelative specifier then
      index.resolvePath? ((source.parent?.getD ⟨""⟩).join specifier).normalize
    else index.resolveBare? specifier
  target.map fun (kind, file) => ⟨file.source, kind, some file.moduleName⟩

def locate? (index : ManifestIndex) (source : Path) : Option UnitLocation :=
  (index.bySource? source).map fun file =>
    ⟨file.moduleName, file.category.name, file.category.isCompileTimeOnly⟩

def references (index : ManifestIndex) : References :=
  ⟨index.idOf?, index.resolve?, index.locate?⟩

end ManifestIndex

end WorkspaceBuild
