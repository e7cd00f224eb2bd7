import Std.Time.DateTime.Timestamp
import WorkspaceBuild.CommandLine
import WorkspaceBuild.Disk.Changes
import WorkspaceBuild.Text.Utf8

/-! # The tool

The command line on a real disk: the folders that a command may look at are read, the command is
done on them, and what it changes is written back.
-/

namespace WorkspaceBuild.Tool

def milliseconds (time : IO.FS.SystemTime) : Nat :=
  (time.sec * 1000).toNat + time.nsec.toNat / 1000000

def contentsOf (bytes : ByteArray) : Contents :=
  match Text.Utf8.decode? bytes.toList with
  | some text => .text text
  | none => .bytes bytes.toList

/-- Read a file or folder. What cannot be read is passed over. -/
partial def readItem (entry : IO.FS.DirEntry) : IO (Option Item) := do
  try
    let metadata ← entry.path.metadata
    let time := milliseconds metadata.modified
    match metadata.type with
    | .dir =>
        let mut entries := []
        for child in ← entry.path.readDir do
          if let some item ← readItem child then
            entries := Item.setChild child.fileName (some item) entries
        return some (.folder entries time)
    | .file => return some (.file (contentsOf (← IO.FS.readBinFile entry.path)) time)
    | _ => return none
  catch _ => return none

/-- Read a folder onto a disk, unless it is there already. -/
def readFolder (disk : Disk) (folder : Path) : IO Disk := do
  if disk.exists? folder then return disk
  match ← readItem ⟨folder.text, ""⟩ with
  | some item =>
      match disk.createFolders folder 0 with
      | (disk, .ok ()) =>
          match disk.place folder with
          | .ok place => return disk.setAt place (some item) 0
          | .error _ => return disk
      | (_, .error _) => return disk
  | none => return disk

/-- The folders that hold packages installed above a workspace. -/
def installedAbove (root : Path) : List Path :=
  root.ancestors.map fun folder => folder.join Workspace.installedFolder

/-- The folders outside a workspace that its settings lead to. -/
def foldersOf (settings : Settings) : List Path :=
  settings.outputRoot :: (settings.manifestPath.parent?).toList

def readDisk (environment : Settings.Environment) (current : Path) : Option Request → IO Disk
  | some (.run root _ _) => do
      let folder := (root.map current.join).getD current
      let disk ← (folder :: installedAbove folder).foldlM readFolder .empty
      match Settings.load disk environment current folder with
      | .ok settings => (foldersOf settings).foldlM readFolder disk
      | .error _ => return disk
  | _ => return .empty

def apply : DiskChange → IO Unit
  | .write path (.text text) => IO.FS.writeFile path text
  | .write path (.bytes bytes) => IO.FS.writeBinFile path ⟨bytes.toArray⟩
  | .makeFolder path => IO.FS.createDirAll path
  | .delete path => IO.FS.removeFile path

def heeded : List String :=
  [Settings.outputVariable, Settings.manifestVariable, Settings.profilesVariable,
    Settings.compilerUrlVariable, Request.jsonVariable]

def readEnvironment : IO Settings.Environment :=
  heeded.filterMapM fun name => do return (← IO.getEnv name).map fun value => (name, value)

end WorkspaceBuild.Tool

open WorkspaceBuild Tool in
def main (arguments : List String) : IO UInt32 := do
  let started ← IO.monoMsNow
  let environment ← readEnvironment
  let current : Path := ⟨(← IO.currentDir).toString⟩
  let disk ← readDisk environment current (Request.parse? environment arguments)
  let now ← Std.Time.Timestamp.now
  let world : CommandLine.World :=
    ⟨environment, current, now.toMillisecondsSinceUnixEpoch.val.toNat⟩
  let (changed, outcome) := CommandLine.run world disk arguments
  (disk.changes changed).forM apply
  IO.print (outcome.output ((← IO.monoMsNow) - started))
  IO.eprint outcome.complaint
  return UInt32.ofNat outcome.code
