import WorkspaceBuild.Disk
import WorkspaceBuild.Json.Writer
import WorkspaceBuild.Manifest

/-! # Deltas

What a build has to do. A file needs its output when that is absent or older than the file; the
manifest of the build before decides what this is called, and which outputs have lost their file.
-/

namespace WorkspaceBuild

/-- What happened to a file since the build before. -/
inductive DeltaAction where
  /-- A new file without an up-to-date output. -/
  | added
  /-- A file updated after its output. -/
  | changed
  /-- A file that is gone, while its output is present. -/
  | removed
  /-- An unchanged file whose output is gone. -/
  | missing
  /-- An unchanged file whose output is older. -/
  | dirty
  deriving DecidableEq, Inhabited, Repr

namespace DeltaAction

def name : DeltaAction → String
  | .added => "added"
  | .changed => "changed"
  | .removed => "removed"
  | .missing => "missing"
  | .dirty => "dirty"

/-- Whether the file's output has to be produced. -/
def needsOutput (action : DeltaAction) : Bool := action ≠ .removed

end DeltaAction

/-- What happened to one file. -/
structure DeltaEvent where
  path : String
  category : Category
  action : DeltaAction
  deriving DecidableEq, Inhabited, Repr

/-- The events of each module. -/
abbrev Delta := Assoc String (List DeltaEvent)

/-- A file whose output is kept up to date. -/
structure TrackedFile where
  category : Category
  entry : FileEntry
  deriving DecidableEq, Inhabited, Repr

/-- The tracked files of a module by path. -/
abbrev TrackedFiles := Assoc String TrackedFile

/-- The tracked files of a module; of several entries with one path the last counts. -/
def Module.tracked (m : Module) : TrackedFiles :=
  .ofPairs ((m.entries.filter fun (category, _) => category.isTracked).map fun (category, entry) =>
    (entry.path, ⟨category, entry⟩))

namespace Delta

/-- The time of a file's output, when there is one. -/
def outputTime? (disk : Disk) (folder : Path) (entry : FileEntry) : Option Nat :=
  disk.modified? (folder.join entry.outputPath)

/-- What happened to a file of the new manifest, by its output and the entry of the build before.
Nothing has to be done when the output is there and not older. -/
def actionOf? (output : Option Nat) (entry : FileEntry) : Option TrackedFile → Option DeltaAction
  | none =>
      match output with
      | some time => if time ≥ entry.updated then none else some .added
      | none => some .added
  | some previous =>
      if previous.entry.updated ≠ entry.updated then
        match output with
        | some time => if entry.updated ≤ time then none else some .changed
        | none => some .changed
      else
        match output with
        | none => some .missing
        | some time => if time < entry.updated then some .dirty else none

/-- The event of a file of the new manifest. -/
def eventOf? (disk : Disk) (folder : Path) (old : TrackedFiles) (path : String)
    (file : TrackedFile) : Option DeltaEvent :=
  (actionOf? (outputTime? disk folder file.entry) file.entry (old.get? path)).map fun action =>
    ⟨path, file.category, action⟩

/-- The event of a file that only the old manifest has. -/
def removalOf? (disk : Disk) (folder : Path) (new : TrackedFiles) (path : String)
    (file : TrackedFile) : Option DeltaEvent :=
  if !new.has path && (outputTime? disk folder file.entry).isSome then
    some ⟨path, file.category, .removed⟩
  else none

/-- The events of a module with a given output folder: first those of its files, then those of
files that are gone, each by path. -/
def ofModule (disk : Disk) (folder : Path) (new old : TrackedFiles) : List DeltaEvent :=
  new.filterMap (fun (path, file) => eventOf? disk folder old path file) ++
    old.filterMap (fun (path, file) => removalOf? disk folder new path file)

/-- The tracked files of a module that may not exist. -/
def trackedOf (m : Option Module) : TrackedFiles := (m.map Module.tracked).getD []

/-- The events of the module of a name. -/
def eventsOf (disk : Disk) (outputRoot : Path) (name : String) (new old : Option Module) :
    List DeltaEvent :=
  ofModule disk (moduleOutput outputRoot name) (trackedOf new) (trackedOf old)

/-- What a build has to do. Every module of the new manifest has its events, if only none; others
are there when they have any. -/
def between (disk : Disk) (outputRoot : Path) (new : Manifest) (old : Option Manifest) : Delta :=
  let oldModules := (old.map Manifest.modules).getD []
  let present := new.modules.map fun (name, m) =>
    (name, eventsOf disk outputRoot name (some m) (oldModules.get? name))
  let gone := (oldModules.filter fun (name, _) => !Assoc.has new.modules name).map
    fun (name, m) => (name, eventsOf disk outputRoot name none (some m))
  .ofPairs (present ++ gone.filter fun (_, events) => !events.isEmpty)

def eventCount (delta : Delta) : Nat := delta.values.flatten.length

def eventJson (event : DeltaEvent) : Json :=
  .object [("path", .string event.path), ("category", .string event.category.name),
    ("action", .string event.action.name)]

def toJson (delta : Delta) : Json :=
  .object (delta.map fun (name, events) => (name, .array (events.map eventJson)))

end Delta

end WorkspaceBuild
