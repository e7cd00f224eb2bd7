import WorkspaceBuild.Manifest
import WorkspaceBuild.Package.Descriptor
import WorkspaceBuild.Wildcard

/-! # Workspace members

The packages that a workspace lists by patterns. A package that several patterns stand for, or a
name that several packages bear, counts once: what is found first stays.
-/

namespace WorkspaceBuild

/-- The package manager that a workspace's lock files speak of. -/
def PackageManager.detect (disk : Disk) (root : Path) : PackageManager :=
  if disk.exists? (root.join "pnpm-lock.yaml") then .pnpm
  else if disk.exists? (root.join "yarn.lock") then .yarn
  else if disk.exists? (root.join "bun.lockb") || disk.exists? (root.join "bun.lock") then .bun
  else .npm

/-- The packages of a workspace: their folders by name. -/
structure Members where
  folders : Assoc String Path
  deriving DecidableEq, Inhabited, Repr

namespace Members

def none : Members := ⟨[]⟩

def get? (m : Members) (name : String) : Option Path := m.folders.get? name

/-- Whether a folder is that of a member. -/
def containsFolder (m : Members) (folder : Path) : Bool := m.folders.values.any folder.same

def isMonorepo (m : Members) : Bool := !m.folders.isEmpty

/-- A pattern in the form in which it is matched: below the workspace, without a leading `./`, a
slash at the end, or a way out. -/
def trimmedPattern? (pattern : String) : Option String :=
  let trimmed := Text.trimEnd (Text.trimStart pattern "./") '/'
  let leaves := (Path.mk trimmed).components.any fun c => c = .parent || c = .root
  if trimmed = "" || leaves then .none else some trimmed

/-- A pattern of members that are left out, which is written behind `!`. -/
def exclusion (pattern negated : String) : Except PackageError (List Wildcard.Token) :=
  match (trimmedPattern? negated).bind Wildcard.parse? with
  | some tokens => .ok tokens
  | .none => .error (.invalidPattern pattern)

/-- Whether a component keeps a folder from being a member. -/
def isIgnored (c : Path.Component) : Bool :=
  c.text = "node_modules" || Wildcard.isHidden c.text

/-- The folders that a pattern stands for, in the order of paths. -/
def expand (disk : Disk) (root : Path) (pattern : String) : Except PackageError (List Path) :=
  let folders? := (trimmedPattern? pattern).bind fun trimmed =>
    Wildcard.folders? disk (Wildcard.escape root.text ++ "/" ++ trimmed)
  match folders? with
  | some folders =>
      let kept := folders.filter fun folder =>
        match folder.below? root with
        | some below => !below.components.any isIgnored
        | .none => false
      .ok (Path.sortedDistinct kept)
  | .none => .error (.invalidPattern pattern)

/-- Put a member to those found before, unless its name is taken. -/
def add (m : Members) (name : String) (folder : Path) : Members :=
  if m.folders.has name then m else ⟨m.folders.put name folder⟩

/-- Take a folder as a member if it has a descriptor and no exclusion stands for it. -/
def consider (disk : Disk) (root : Path) (exclusions : List (List Wildcard.Token)) (m : Members)
    (folder : Path) : Except PackageError Members :=
  match folder.below? root with
  | .none => .ok m
  | some below =>
      if exclusions.any (Wildcard.covers · below.text) then .ok m
      else if !disk.isFile (folder.join descriptorFile) then .ok m
      else do
        let descriptor ← Descriptor.load disk folder
        return m.add (descriptor.nameOr folder) folder

/-- The members of the workspace at a root. Exclusions are read before anything is looked for. -/
def discover (disk : Disk) (root : Path) (descriptor : Descriptor) :
    Except PackageError Members := do
  let negated (pattern : String) := Text.dropStart? pattern "!"
  let exclusions ← descriptor.patterns.filterMapM fun pattern =>
    match negated pattern with
    | some rest => (exclusion pattern rest).map some
    | .none => .ok .none
  (descriptor.patterns.filter fun pattern => (negated pattern).isNone).foldlM (fun m pattern => do
    (← expand disk root pattern).foldlM (consider disk root exclusions) m) Members.none

end Members

end WorkspaceBuild
