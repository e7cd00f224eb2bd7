import WorkspaceBuild.ManifestIndex

/-! # Manifest files

Manifests on a disk. A file is replaced as a whole, so what is read is what was written last.
-/

namespace WorkspaceBuild

namespace Manifest

def load (disk : Disk) (path : Path) : Except BuildError Manifest :=
  match disk.readText path with
  | .error fault => .error (.unreadableManifest path fault)
  | .ok text => (ofText text).mapError (BuildError.ofManifest path)

/-- The manifest of the build before, if there is one that can be used. -/
def loadPrevious? (disk : Disk) (path : Path) : Option Manifest :=
  if disk.isFile path then (load disk path).toOption else none

def makeFolderOf (disk : Disk) (path : Path) (time : Nat) : Disk × Except BuildError Unit :=
  match path.parent? with
  | some folder =>
      if folder.text = "" then (disk, .ok ())
      else
        let (disk, result) := disk.createFolders folder time
        (disk, result.mapError (BuildError.fileFault folder))
  | none => (disk, .ok ())

/-- Keep a manifest at a path. A folder made for it stays when the file cannot be written. -/
def save (disk : Disk) (m : Manifest) (path : Path) (time : Nat) :
    Disk × Except BuildError Unit :=
  match makeFolderOf disk path time with
  | (disk, .error e) => (disk, .error e)
  | (disk, .ok ()) =>
      match disk.replaceFile path (.text m.text) time with
      | .ok disk => (disk, .ok ())
      | .error fault => (disk, .error (.fileFault path fault))

end Manifest

namespace ManifestIndex

/-- The index of the manifest kept at a path. -/
def load (disk : Disk) (path : Path) : Except BuildError ManifestIndex :=
  (Manifest.load disk path).map (ofManifest path)

/-- The index of the manifest that a package keeps in its tool folder. -/
def forPackage (disk : Disk) (folder toolFolder : Path) : Except BuildError ManifestIndex :=
  load disk ((folder.join toolFolder.text).join Manifest.fileName)

/-- The index of the same file, read again. -/
def reset (index : ManifestIndex) (disk : Disk) : Except BuildError ManifestIndex :=
  load disk index.path

/-- The index of the manifest that a module keeps in its own tool folder. -/
def forModule (index : ManifestIndex) (disk : Disk) (name : String) :
    Except BuildError ManifestIndex :=
  match index.manifest.module? name with
  | some m => forPackage disk m.source index.manifest.paths.tool
  | none => .error (.moduleNotFound name)

end ManifestIndex

end WorkspaceBuild
