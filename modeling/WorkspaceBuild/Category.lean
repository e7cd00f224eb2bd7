import WorkspaceBuild.Path
import WorkspaceBuild.Role

/-! # Categories of files

A file's place below its module decides its category and role, its extension decides its kind, and
both together the path of its output.
-/

namespace WorkspaceBuild

/-- Where in a module a file stands, in ascending order. -/
inductive Category where
  /-- A file of the module's own folder. -/
  | root
  | index
  | package
  | src
  | bin
  | support
  | resources
  | test
  | doc
  | testFixtures
  | supportFixtures
  | supportResources
  | plugins
  deriving DecidableEq, Inhabited, Repr, Ord

namespace Category

def all : List Category :=
  [.root, .index, .package, .src, .bin, .support, .resources, .test, .doc, .testFixtures,
    .supportFixtures, .supportResources, .plugins]

def name : Category → String
  | .root => "root"
  | .index => "index"
  | .package => "package"
  | .src => "src"
  | .bin => "bin"
  | .support => "support"
  | .resources => "resources"
  | .test => "test"
  | .doc => "doc"
  | .testFixtures => "test-fixtures"
  | .supportFixtures => "support-fixtures"
  | .supportResources => "support-resources"
  | .plugins => "plugins"

def ofName? (name : String) : Option Category := all.find? (·.name = name)

theorem ofName?_name (category : Category) : ofName? category.name = some category := by
  cases category <;> decide

/-- Whether outputs of the category's files are kept up to date. -/
def isTracked : Category → Bool
  | .root | .index | .package | .src | .bin | .support | .test | .doc => true
  | .resources | .testFixtures | .supportFixtures | .supportResources | .plugins => false

/-- Whether the category only exists at compile time. -/
def isCompileTimeOnly : Category → Bool
  | .support | .plugins => true
  | _ => false

end Category

/-- What kind of file a file is. -/
inductive FileKind where
  | typings
  | source
  | compiled
  | json
  | package
  | unknown
  /-- Material for tests and tools. -/
  | fixture
  | markdown
  deriving DecidableEq, Inhabited, Repr

namespace FileKind

def all : List FileKind :=
  [.typings, .source, .compiled, .json, .package, .unknown, .fixture, .markdown]

def name : FileKind → String
  | .typings => "typings"
  | .source => "source"
  | .compiled => "compiled"
  | .json => "json"
  | .package => "package"
  | .unknown => "unknown"
  | .fixture => "fixture"
  | .markdown => "markdown"

def ofName? (name : String) : Option FileKind := all.find? (·.name = name)

theorem ofName?_name (kind : FileKind) : ofName? kind.name = some kind := by
  cases kind <;> decide

end FileKind

/-- Name of the package descriptor of a module. -/
def descriptorFile : String := "package.json"

/-- The role a registration of plugins is for, by the name before `.plugins`. -/
def pluginRole? : String → Option Role
  | "compile-time" => some .compile
  | "test" => some .test
  | "doc" => some .doc
  | "package" => some .build
  | _ => none

/-- Whether text after `.plugins` ends the path of a registration: an extension, or a path into a
folder, written on one line. -/
def endsRegistration : List Char → Bool
  | '.' :: c :: rest => (c :: rest).all (· ≠ '/')
  | '/' :: c :: rest => (c :: rest).all (· ≠ '\n')
  | _ => false

/-- The role of a registration of plugins, `support/<name>.plugins`. -/
def registrationRole? (path : String) : Option Role :=
  ["compile-time", "test", "doc", "package"].findSome? fun name =>
    match Text.dropStart? path ("support/" ++ name ++ ".plugins") with
    | some rest => if endsRegistration rest.toList then pluginRole? name else none
    | none => none

/-- The category of the folder a path starts with, and the role of its files. -/
def folderCategory? : String → Option (Category × Option Role)
  | "src" => some (.src, none)
  | "bin" => some (.bin, none)
  | "support" => some (.support, none)
  | "resources" => some (.resources, none)
  | "test" => some (.test, some .test)
  | "doc" => some (.doc, some .doc)
  | _ => none

/-- Category and role of a file by its path below its module; none when it starts with an unknown
folder. -/
def classify (path : String) : Option (Category × Option Role) :=
  if path = descriptorFile then some (.package, none)
  else
    match Text.cut? '/' path with
    | none => if Text.beginsWith path "index." then some (.index, none) else some (.root, none)
    | some (first, _) =>
        if Text.beginsWith path "test/fixtures/" then some (.testFixtures, none)
        else if Text.beginsWith path "support/fixtures/" then some (.supportFixtures, none)
        else if Text.beginsWith path "support/resources/" then some (.supportResources, none)
        else
          match registrationRole? path with
          | some role => some (.plugins, some role)
          | none => folderCategory? first

def isTypings (path : String) : Bool :=
  Text.endsWith path ".d.ts" || Text.endsWith path ".d.mts" || Text.endsWith path ".d.cts"

def kindOfExtension : Option String → FileKind
  | some "ts" | some "tsx" | some "mts" | some "cts" => .source
  | some "js" | some "jsx" | some "mjs" | some "cjs" => .compiled
  | some "json" => .json
  | some "md" => .markdown
  | _ => .unknown

/-- The kind of a file by its path and category. -/
def fileKind (path : String) (category : Category) : FileKind :=
  match category with
  | .testFixtures | .supportFixtures | .supportResources => .fixture
  | .package => .package
  | _ => if isTypings path then .typings else kindOfExtension (Path.extension? ⟨path⟩)

/-- Extensions of sources with those of their outputs, longer ones first. -/
def compiledExtensions : List (String × String) :=
  [(".mts", ".mjs"), (".cts", ".cjs"), (".tsx", ".js"), (".ts", ".js")]

/-- The path of a file's output, below the module's output folder: sources change their extension,
other files keep it. -/
def compiledPath (path : String) (kind : FileKind) : String :=
  if kind = .source then
    (compiledExtensions.findSome? fun (source, compiled) =>
      (Text.dropEnd? path source).map (· ++ compiled)).getD path
  else path

def moduleOutput (outputRoot : Path) (name : String) : Path :=
  (outputRoot.join "node_modules").join name

end WorkspaceBuild
