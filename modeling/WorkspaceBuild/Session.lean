import WorkspaceBuild.Scan

/-! # Sessions

Scans that are kept for the time of a session. A folder is scanned once for each scope; later
changes of the disk are not seen.
-/

namespace WorkspaceBuild

/-- What tells scans apart: the folder, whether it is scanned fully, and what is left out, however
it is spelled. -/
structure ScanKey where
  folder : List Path.Component
  full : Bool
  /-- The components of the folders left out, each once, in the order of paths. -/
  excluded : List (List Path.Component)
  deriving DecidableEq, Inhabited, Repr

def Scan.Scope.key (scope : Scan.Scope) : ScanKey :=
  ⟨scope.folder.components, scope.full,
    (Path.sortedDistinct scope.excluded).map Path.components⟩

/-- The scans of a session. -/
structure Session where
  /-- What was found for each key, latest first. -/
  scans : List (ScanKey × List ScannedFile)
  /-- How many scans were answered from those kept. -/
  hits : Nat
  deriving DecidableEq, Inhabited, Repr

namespace Session

def empty : Session := ⟨[], 0⟩

/-- Forget what is kept. -/
def clear (session : Session) : Session := { session with scans := [], hits := 0 }

/-- The files of a module: those kept for the scope, or else those on the disk. What cannot be
scanned is not kept. -/
def scan (session : Session) (disk : Disk) (moduleName : String) (scope : Scan.Scope) :
    Session × Except BuildError (List ScannedFile) :=
  match session.scans.lookup scope.key with
  | some files => ({ session with hits := session.hits + 1 }, .ok files)
  | none =>
      match Scan.run disk moduleName scope with
      | .ok files => ({ session with scans := (scope.key, files) :: session.scans }, .ok files)
      | .error e => (session, .error e)

end Session

end WorkspaceBuild
