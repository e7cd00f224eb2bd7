import WorkspaceBuild.BuildError

/-! # Scans of module folders

The files of a module with their categories, kinds, roles and times. What is hidden, installed, left
out by settings or a package of its own is not looked at, and a partial scan enters only the folders
that other modules need.
-/

namespace WorkspaceBuild

/-- A file found by a scan. -/
structure ScannedFile where
  /-- Its path below the scanned folder. -/
  path : String
  category : Category
  kind : FileKind
  /-- The role that its category gives it. -/
  role : Option Role
  /-- When it was last updated, in milliseconds. -/
  updated : Nat
  deriving DecidableEq, Inhabited, Repr

def ScannedFile.toJson (f : ScannedFile) : Json :=
  .object [("path", .string f.path), ("category", .string f.category.name),
    ("type", .string f.kind.name),
    ("role", (f.role.map fun role => Json.string role.name).getD .null),
    ("updated", .whole f.updated)]

namespace Scan

/-- What a scan looks at. -/
structure Scope where
  folder : Path
  full : Bool
  /-- Folders left out, seen from the scanned one. -/
  excluded : List Path
  deriving DecidableEq, Inhabited, Repr

/-- The folders of a module that a partial scan enters. -/
def partialFolders : List String := ["src", "bin", "support"]

/-- The path of an item in a folder, both seen from the scanned folder. -/
def below (folder name : String) : String := if folder = "" then name else folder ++ "/" ++ name

def isSkipped (name : String) : Bool := Text.beginsWith name "." || name = "node_modules"

/-- Whether a folder holds a package of its own. -/
def holdsPackage (entries : List (String × Item)) : Bool :=
  (Item.child? entries descriptorFile).any Item.isFile

/-- Whether a scan enters a folder, by its path and name below the scanned one. -/
def Scope.enters (scope : Scope) (path name : String) (entries : List (String × Item)) : Bool :=
  !(scope.excluded.any fun e => (scope.folder.join path).same (scope.folder.join e.text)) &&
    !holdsPackage entries &&
    (scope.full || path ≠ name || partialFolders.contains name)

/-- Whether a scan looks at an item in a folder. -/
def Scope.keeps (scope : Scope) (path name : String) : Item → Bool
  | .file .. => !isSkipped name
  | .folder entries _ => !isSkipped name && scope.enters path name entries

mutual

/-- The files of an item with their paths and times. -/
def filesOf (scope : Scope) (path : String) : Item → List (String × Nat)
  | .file _ time => [(path, time)]
  | .folder entries _ => filesIn scope path entries

/-- The files of the items of a folder, in the order of names. -/
def filesIn (scope : Scope) (folder : String) : List (String × Item) → List (String × Nat)
  | [] => []
  | (name, item) :: rest =>
      let path := below folder name
      (if scope.keeps path name item then filesOf scope path item else []) ++
        filesIn scope folder rest

end

/-- A file with what its path says of it. -/
def classified (moduleName path : String) (updated : Nat) : Except BuildError ScannedFile :=
  match classify path with
  | some (category, role) => .ok ⟨path, category, fileKind path category, role, updated⟩
  | none =>
      .error (.unexpectedFolder moduleName ((Text.cut? '/' path).elim path Prod.fst) path)

/-- The files of a module. A file without a category stops the scan. -/
def run (disk : Disk) (moduleName : String) (scope : Scope) :
    Except BuildError (List ScannedFile) :=
  match disk.item scope.folder with
  | .error fault => .error (.unscannable scope.folder fault)
  | .ok item =>
      (filesOf scope "" item).mapM fun (path, updated) => classified moduleName path updated

end Scan

end WorkspaceBuild
