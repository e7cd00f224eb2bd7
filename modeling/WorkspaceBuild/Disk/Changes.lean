import WorkspaceBuild.Assoc
import WorkspaceBuild.Disk

/-! # Changes of a disk

What has to be done to one disk so that it becomes another: files to write or to delete, and folders
to make.
-/

namespace WorkspaceBuild

/-- One change of a disk. -/
inductive DiskChange where
  | write (path : String) (contents : Contents)
  | makeFolder (path : String)
  /-- Delete what is at a path. -/
  | delete (path : String)
  deriving DecidableEq, Inhabited, Repr

namespace Item

/-- The items of a folder; a file has none. -/
def entriesOf : Item → List (String × Item)
  | .file .. => []
  | .folder entries _ => entries

/-- What a folder held under names that are gone. -/
def deletions (path : String) (before after : List (String × Item)) : List DiskChange :=
  (before.filter fun (name, _) => !Assoc.has after name).map fun (name, _) =>
    .delete (path ++ "/" ++ name)

/-- Whether an item is a file with the same contents and time. -/
def isSameFile (contents : Contents) (time : Nat) : Item → Bool
  | .file c t => c = contents && t = time
  | .folder .. => false

mutual

/-- The changes that lead from what was at a path to an item. -/
def changes (path : String) (before : Option Item) : Item → List DiskChange
  | .file contents time =>
      if before.any (isSameFile contents time) then [] else [.write path contents]
  | .folder entries _ =>
      let held := (before.map entriesOf).getD []
      (if before.any isFolder then [] else [.makeFolder path]) ++ deletions path held entries ++
        entryChanges path held entries

/-- The changes that lead from what a folder held to several items. -/
def entryChanges (path : String) (held : List (String × Item)) :
    List (String × Item) → List DiskChange
  | [] => []
  | (name, item) :: rest =>
      changes (path ++ "/" ++ name) (child? held name) item ++ entryChanges path held rest

end

end Item

/-- The changes that lead from a disk to another. -/
def Disk.changes (before after : Disk) : List DiskChange :=
  Item.deletions "" before.entries after.entries ++
    Item.entryChanges "" before.entries after.entries

end WorkspaceBuild
