import WorkspaceBuild.Path

/-! # Disk

A file system as a value: a tree of folders and files with the times they were last modified. Every
operation answers with the new tree or with the fault that the system names; one that can fail halfway
answers with both.

Names and paths are text, every file and folder can be read, and nothing is a link.
-/

namespace WorkspaceBuild

/-- What a file holds. -/
inductive Contents where
  | text (text : String)
  /-- Bytes that are no such text. -/
  | bytes (bytes : List UInt8)
  deriving DecidableEq, Inhabited, Repr

/-- A file or folder. Its name is that of its entry in the folder around it; names that are no text
do not occur, and what it holds can always be read. -/
inductive Item where
  | file (contents : Contents) (modified : Nat)
  /-- A folder with what it holds, ascending by name. -/
  | folder (entries : List (String × Item)) (modified : Nat)
  deriving Inhabited, Repr, BEq

/-- Why the system refused. -/
inductive Fault where
  /-- There is nothing at the path. -/
  | notFound
  /-- A file is where a folder is to be made. -/
  | alreadyExists
  /-- The path leads through a file. -/
  | notAFolder
  /-- A folder is where a file is wanted. -/
  | isAFolder
  /-- A text file holds other bytes. -/
  | notText
  /-- Whatever else a system says, as of a disk that is full. -/
  | other (text : String)
  deriving DecidableEq, Inhabited, Repr

def Fault.message : Fault → String
  | .notFound => "No such file or directory (os error 2)"
  | .alreadyExists => "File exists (os error 17)"
  | .notAFolder => "Not a directory (os error 20)"
  | .isAFolder => "Is a directory (os error 21)"
  | .notText => "stream did not contain valid UTF-8"
  | .other text => text

namespace Item

def modified : Item → Nat
  | .file _ time => time
  | .folder _ time => time

def isFile : Item → Bool
  | .file .. => true
  | .folder .. => false

def isFolder (item : Item) : Bool := !item.isFile

def child? (entries : List (String × Item)) (name : String) : Option Item := entries.lookup name

/-- Put an item under a name among items in ascending order, or take away what is there. -/
def setChild (name : String) (item : Option Item) : List (String × Item) → List (String × Item)
  | [] => (item.map fun item => (name, item)).toList
  | (other, present) :: rest =>
      if name < other then (item.map fun item => (name, item)).toList ++ (other, present) :: rest
      else if name = other then (item.map fun item => (name, item)).toList ++ rest
      else (other, present) :: setChild name item rest

mutual

/-- Give every file of an item a time. -/
def touchAll (time : Nat) : Item → Item
  | .file contents _ => .file contents time
  | .folder entries modified => .folder (touchEntries time entries) modified

/-- Give every file of several items a time. -/
def touchEntries (time : Nat) : List (String × Item) → List (String × Item)
  | [] => []
  | (name, item) :: rest => (name, touchAll time item) :: touchEntries time rest

end

mutual

/-- The files of an item with their paths, in the order of the folders. -/
def files (path : String) : Item → List (String × Contents)
  | .file contents _ => [(path, contents)]
  | .folder entries _ => entryFiles path entries

/-- The files of several items with their paths. -/
def entryFiles (path : String) : List (String × Item) → List (String × Contents)
  | [] => []
  | (name, item) :: rest => files (path ++ "/" ++ name) item ++ entryFiles path rest

end

mutual

/-- How many folders an item is made of. -/
def folderCount : Item → Nat
  | .file .. => 0
  | .folder entries _ => 1 + entryFolders entries

/-- How many folders several items are made of. -/
def entryFolders : List (String × Item) → Nat
  | [] => 0
  | (_, item) :: rest => folderCount item + entryFolders rest

end

end Item

/-- A place on a disk: the names that lead to it from the root. -/
abbrev Place := List String

/-- A file system: what its root folder holds. -/
structure Disk where
  /-- The items of the root folder, ascending by name. -/
  entries : List (String × Item)
  deriving Inhabited, Repr, BEq

namespace Disk

def empty : Disk := ⟨[]⟩

/-- How many folders there are, the root among them. -/
def folderCount (disk : Disk) : Nat := 1 + Item.entryFolders disk.entries

def itemIn? (entries : List (String × Item)) : Place → Option Item
  | [] => some (.folder entries 0)
  | [name] => Item.child? entries name
  | name :: rest =>
      match Item.child? entries name with
      | some (.folder inner _) => itemIn? inner rest
      | _ => none

def itemAt? (disk : Disk) (place : Place) : Option Item := itemIn? disk.entries place

/-- The time of a folder after a change below it: only a name that comes or goes counts. -/
def folderTime (entries : List (String × Item)) (item : Option Item) (time modified : Nat) :
    Place → Nat
  | [name] => if (Item.child? entries name).isSome = item.isSome then modified else time
  | _ => modified

/-- Put an item at a place below several items, or take away what is there. -/
def setIn (entries : List (String × Item)) (item : Option Item) (time : Nat) :
    Place → List (String × Item)
  | [] => entries
  | [name] => Item.setChild name item entries
  | name :: rest =>
      match Item.child? entries name with
      | some (.folder inner modified) =>
          let modified := folderTime inner item time modified rest
          Item.setChild name (some (.folder (setIn inner item time rest) modified)) entries
      | _ => entries

/-- Put an item at a place whose folder exists, or take away what is there. -/
def setAt (disk : Disk) (place : Place) (item : Option Item) (time : Nat) : Disk :=
  ⟨setIn disk.entries item time place⟩

/-- Go on from an existing folder along pieces of a path that have to be folders. The place is kept
in reverse. -/
def enter (disk : Disk) (place : Place) : List String → Except Fault Place
  | [] => .ok place
  | piece :: rest =>
      if Path.isVoid piece then enter disk place rest
      else if piece = ".." then enter disk place.tail rest
      else
        match disk.itemAt? (piece :: place).reverse with
        | some (.folder ..) => enter disk (piece :: place) rest
        | some (.file ..) => .error .notAFolder
        | none => .error .notFound

/-- The place that a path names, whose folder exists: the last piece is not looked at. Paths are
taken from the root; one that does not start there leads nowhere. -/
def place (disk : Disk) (path : Path) : Except Fault Place :=
  if path.isAbsolute then
    let pieces := Text.pieces '/' path.text
    match pieces.getLast? with
    | none => .error .notFound
    | some last =>
        match enter disk [] pieces.dropLast with
        | .error fault => .error fault
        | .ok inner =>
            if Path.isVoid last then .ok inner.reverse
            else if last = ".." then .ok inner.tail.reverse
            else .ok (last :: inner).reverse
  else .error .notFound

def item (disk : Disk) (path : Path) : Except Fault Item := do
  let place ← disk.place path
  match disk.itemAt? place with
  | some item => .ok item
  | none => .error .notFound

def exists? (disk : Disk) (path : Path) : Bool := (disk.item path).toOption.isSome

/-- Whether there is a file at a path. -/
def isFile (disk : Disk) (path : Path) : Bool := (disk.item path).toOption.any Item.isFile

/-- Whether there is a folder at a path. -/
def isFolder (disk : Disk) (path : Path) : Bool := (disk.item path).toOption.any Item.isFolder

/-- When what is at a path was last modified; none when it cannot be told. -/
def modified? (disk : Disk) (path : Path) : Option Nat :=
  (disk.item path).toOption.map Item.modified

/-- The path of what is at a path, without detours. -/
def canonical (disk : Disk) (path : Path) : Except Fault Path := do
  let place ← disk.place path
  match disk.itemAt? place with
  | some _ => .ok ⟨"/" ++ Text.joined "/" place⟩
  | none => .error .notFound

def read (disk : Disk) (path : Path) : Except Fault Contents := do
  match ← disk.item path with
  | .file contents _ => .ok contents
  | .folder .. => .error .isAFolder

/-- The text of the file at a path. -/
def readText (disk : Disk) (path : Path) : Except Fault String := do
  match ← disk.read path with
  | .text text => .ok text
  | .bytes _ => .error .notText

/-- What comes of a change: the disk that it leaves, and why it failed if it did. -/
abbrev Outcome := Disk × Except Fault Unit

/-- Make folders along pieces that go on from an existing one. The place is kept in reverse. A file on
the way is in the way: it is found there by the last piece, or once a folder has been made, since the
folders are made one by one from there on; an earlier piece leads through it. -/
def makeFolders (time : Nat) (begun : Bool) (disk : Disk) (place : Place) : List String → Outcome
  | [] => (disk, .ok ())
  | piece :: rest =>
      if Path.isVoid piece then makeFolders time begun disk place rest
      else if piece = ".." then makeFolders time begun disk place.tail rest
      else
        let inner := piece :: place
        match disk.itemAt? inner.reverse with
        | some (.folder ..) => makeFolders time begun disk inner rest
        | some (.file ..) =>
            (disk, .error (if begun || rest.all Path.isVoid then .alreadyExists else .notAFolder))
        | none =>
            makeFolders time true (disk.setAt inner.reverse (some (.folder [] time)) time) inner rest

/-- Make a folder and all above it that is missing. Those that have been made stay. -/
def createFolders (disk : Disk) (path : Path) (time : Nat) : Outcome :=
  if path.isAbsolute then makeFolders time false disk [] (Text.pieces '/' path.text)
  else if path.text = "" then (disk, .ok ())
  else (disk, .error .notFound)

/-- Whether a path ends in a way that only folders answer to. -/
def wantsFolder (path : Path) : Bool :=
  match (Text.pieces '/' path.text).getLast? with
  | some last => Path.isVoid last || last = ".."
  | none => true

/-- Write a file whose folder exists, if nothing interrupts it. -/
def write (disk : Disk) (path : Path) (contents : Contents) (time : Nat) : Except Fault Disk := do
  let place ← disk.place path
  match disk.itemAt? place with
  | some (.folder ..) => .error .isAFolder
  | some (.file ..) => .ok (disk.setAt place (some (.file contents time)) time)
  | none =>
      if wantsFolder path then .error .isAFolder
      else .ok (disk.setAt place (some (.file contents time)) time)

/-- Put a new file, made beside it, in place of what is at a path. A path that only a folder
answers to is refused whatever is there. -/
def replaceFile (disk : Disk) (path : Path) (contents : Contents) (time : Nat) :
    Except Fault Disk :=
  if path.text = "" then .error .notFound
  else
    match disk.place path with
    | .error .notFound => .error (if wantsFolder path then .notAFolder else .notFound)
    | .error fault => .error fault
    | .ok place =>
        match disk.itemAt? place with
        | some (.folder ..) => .error (if wantsFolder path then .notAFolder else .isAFolder)
        | _ => .ok ((disk.setAt place none time).setAt place (some (.file contents time)) time)

def removeFile (disk : Disk) (path : Path) (time : Nat) : Except Fault Disk := do
  let place ← disk.place path
  match disk.itemAt? place with
  | some (.file ..) => .ok (disk.setAt place none time)
  | some (.folder ..) => .error .isAFolder
  | none => .error .notFound

/-- Delete what is at a path with all below it. -/
def removeAll (disk : Disk) (path : Path) (time : Nat) : Except Fault Disk := do
  let place ← disk.place path
  return disk.setAt place none time

/-- Give what is at a path a time. -/
def touch (disk : Disk) (path : Path) (time : Nat) : Except Fault Disk := do
  let place ← disk.place path
  match disk.itemAt? place with
  | some (.file contents _) => return disk.setAt place (some (.file contents time)) time
  | some (.folder entries _) => return disk.setAt place (some (.folder entries time)) time
  | none => .error .notFound

/-- Give every file at or below a path a time. -/
def touchAll (disk : Disk) (path : Path) (time : Nat) : Except Fault Disk := do
  let place ← disk.place path
  match disk.itemAt? place with
  | some item => return disk.setAt place (some (item.touchAll time)) time
  | none => .error .notFound

def filesBelow (disk : Disk) (path : Path) : List (String × Contents) :=
  match disk.item path with
  | .ok item => item.files path.text
  | .error _ => []

end Disk

/-- What can keep a write from going through where nothing on the disk is in its way. -/
inductive Interruption where
  /-- The file is not opened. -/
  | refused (fault : Fault)
  /-- The file has been opened, which makes or empties it, and holds what is made of the contents. -/
  | broken (fault : Fault) (held : Contents → Contents)

/-- A system that disks belong to: when does it interrupt the write of a file? -/
structure System where
  interrupts : Disk → Path → Option Interruption

namespace System

/-- A system that interrupts nothing. -/
def sound : System := ⟨fun _ _ => none⟩

/-- Write a file whose folder exists. -/
def write (system : System) (disk : Disk) (path : Path) (contents : Contents) (time : Nat) :
    Disk.Outcome :=
  match disk.write path contents time with
  | .error fault => (disk, .error fault)
  | .ok written =>
      match system.interrupts disk path with
      | none => (written, .ok ())
      | some (.refused fault) => (disk, .error fault)
      | some (.broken fault held) =>
          ((disk.write path (held contents) time).toOption.getD disk, .error fault)

/-- Copy a file to a path whose folder exists. A file that is copied to its own place is emptied before
it is read. -/
def copy (system : System) (disk : Disk) (source target : Path) (time : Nat) : Disk.Outcome :=
  match disk.read source with
  | .ok contents =>
      let contents :=
        if (disk.place source).toOption = (disk.place target).toOption then .text "" else contents
      system.write disk target contents time
  | .error fault => (disk, .error fault)

end System

end WorkspaceBuild
