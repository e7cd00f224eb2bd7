import WorkspaceBuild.Session
import WorkspaceBuild.Proofs.Disk.Tree
import WorkspaceBuild.Proofs.Path.Folding
import WorkspaceBuild.Proofs.Results

/-! # Paths of scanned files

The names in a file system are plain: none is empty, dots, or has a slash. So the path of a scanned
file is made of plain names that are not hidden, and says where below the scanned folder it is.
-/

namespace WorkspaceBuild

instance (name : String) : Decidable (Path.IsPlain name) :=
  decidable_of_iff (Path.isVoid name = false ∧ name ≠ ".." ∧ '/' ∉ name.toList)
    ⟨fun h => ⟨h.1, h.2.1, h.2.2⟩, fun h => ⟨h.notVoid, h.notParent, h.noSlash⟩⟩

namespace Item

mutual

/-- Every name in a tree is plain. -/
def HasPlainNames : Item → Prop
  | .file .. => True
  | .folder entries _ => HavePlainNames entries

/-- The names of several items, and all below them, are plain. -/
def HavePlainNames : List (String × Item) → Prop
  | [] => True
  | (name, item) :: rest => Path.IsPlain name ∧ HasPlainNames item ∧ HavePlainNames rest

end

mutual

/-- Whether all names are plain can be computed. -/
def decidePlainNames : (item : Item) → Decidable item.HasPlainNames
  | .file .. => inferInstanceAs (Decidable True)
  | .folder entries _ => decideAllPlainNames entries

/-- Whether all names of several items are plain can be computed. -/
def decideAllPlainNames : (entries : List (String × Item)) → Decidable (HavePlainNames entries)
  | [] => inferInstanceAs (Decidable True)
  | (name, item) :: rest =>
      have := decidePlainNames item
      have := decideAllPlainNames rest
      inferInstanceAs (Decidable (Path.IsPlain name ∧ HasPlainNames item ∧ HavePlainNames rest))

end

theorem havePlainNames_iff {entries : List (String × Item)} : HavePlainNames entries ↔
    ∀ pair ∈ entries, Path.IsPlain pair.1 ∧ pair.2.HasPlainNames := by
  induction entries with
  | nil => simp [HavePlainNames]
  | cons pair rest ih => simp [HavePlainNames, ih, and_assoc]

end Item

namespace Disk

/-- A disk as file systems have them: every folder holds its items ascending by name, and all names
are plain. -/
structure IsProper (disk : Disk) : Prop where
  ordered : disk.IsOrdered
  plain : Item.HavePlainNames disk.entries

instance (disk : Disk) : Decidable disk.IsProper :=
  have := Item.decideAllPlainNames disk.entries
  decidable_of_iff (disk.IsOrdered ∧ Item.HavePlainNames disk.entries)
    ⟨fun h => ⟨h.1, h.2⟩, fun h => ⟨h.ordered, h.plain⟩⟩

theorem hasPlainNames_of_child? {entries : List (String × Item)} {name : String} {item : Item}
    (plain : Item.HavePlainNames entries) (found : Item.child? entries name = some item) :
    item.HasPlainNames :=
  (Item.havePlainNames_iff.mp plain _ (Assoc.mem_of_get? found)).2

theorem hasPlainNames_of_itemIn? {entries : List (String × Item)} {place : Place} {item : Item}
    (plain : Item.HavePlainNames entries) (found : itemIn? entries place = some item) :
    item.HasPlainNames := by
  induction place generalizing entries with
  | nil =>
      cases found
      exact plain
  | cons name rest ih =>
      cases rest with
      | nil => exact hasPlainNames_of_child? plain found
      | cons next rest =>
          rw [itemIn?] at found
          · split at found
            · rename_i inner _ child
              have innerPlain := hasPlainNames_of_child? plain child
              exact ih innerPlain found
            · cases found
          · simp

theorem IsProper.hasPlainNames {disk : Disk} (proper : disk.IsProper) {path : Path} {item : Item}
    (found : disk.item path = .ok item) : item.HasPlainNames := by
  obtain ⟨place, _, there⟩ := bind_eq_ok.mp found
  split at there
  · rename_i present
    cases there
    exact hasPlainNames_of_itemIn? proper.plain present
  · cases there

end Disk

namespace Scan

/-- A name that a scan looks at. -/
structure IsSeen (name : String) : Prop extends Path.IsPlain name where
  notSkipped : isSkipped name = false

/-- A path below a scanned folder. -/
def IsSeenPath (path : String) : Prop :=
  ∃ names, names ≠ [] ∧ path = Path.spell names ∧ ∀ name ∈ names, IsSeen name

theorem below_spell {folders : List String} (plain : ∀ name ∈ folders, Path.IsPlain name)
    (name : String) : below (Path.spell folders) name = Path.spell (folders ++ [name]) := by
  cases folders with
  | nil => simp [below, Path.spell, Text.joined]
  | cons folder rest =>
      have nonempty : Path.spell (folder :: rest) ≠ "" := by
        intro empty
        have pieces := Path.pieces_spell (by simp) plain
        rw [empty] at pieces
        cases pieces
        exact (plain "" List.mem_cons_self).ne_empty rfl
      rw [below, if_neg nonempty, Path.spell, Path.spell, Text.joined_append_singleton (by simp)]

theorem isSeen_of_keeps {scope : Scope} {path name : String} {item : Item}
    (plain : Path.IsPlain name) (kept : scope.keeps path name item = true) : IsSeen name := by
  refine ⟨plain, ?_⟩
  cases item <;> simp_all [Scope.keeps]

variable {scope : Scope}

mutual

theorem paths_filesOf {item : Item} (plain : item.HasPlainNames) {folders : List String}
    (seen : ∀ name ∈ folders, IsSeen name) :
    ∀ file ∈ filesOf scope (Path.spell folders) item, ∃ names,
      file.1 = Path.spell (folders ++ names) ∧ ∀ name ∈ names, IsSeen name := by
  cases item with
  | file contents time =>
      intro file listed
      obtain rfl : file = (Path.spell folders, time) := by simpa [filesOf] using listed
      exact ⟨[], by simp, by simp⟩
  | folder entries time =>
      intro file listed
      obtain ⟨names, _, below⟩ := paths_filesIn plain seen file listed
      exact ⟨names, below⟩

theorem paths_filesIn {entries : List (String × Item)} (plain : Item.HavePlainNames entries)
    {folders : List String} (seen : ∀ name ∈ folders, IsSeen name) :
    ∀ file ∈ filesIn scope (Path.spell folders) entries, ∃ names, names ≠ [] ∧
      file.1 = Path.spell (folders ++ names) ∧ ∀ name ∈ names, IsSeen name := by
  cases entries with
  | nil =>
      intro file listed
      cases listed
  | cons entry rest =>
      obtain ⟨plainName, plainItem, plainRest⟩ := plain
      intro file listed
      rcases List.mem_append.mp listed with here | later
      · split at here
        · rename_i kept
          have seenName := isSeen_of_keeps plainName kept
          rw [below_spell fun name listed => (seen name listed).toIsPlain] at here
          have seenFolders : ∀ name ∈ folders ++ [entry.1], IsSeen name := by
            simpa [or_imp, forall_and] using ⟨seen, seenName⟩
          obtain ⟨names, path, seenNames⟩ := paths_filesOf plainItem seenFolders file here
          refine ⟨entry.1 :: names, by simp, by simpa using path, ?_⟩
          exact List.forall_mem_cons.mpr ⟨seenName, seenNames⟩
        · cases here
      · exact paths_filesIn plainRest seen file later

end

/-- The paths of a scan lie below the scanned folder. Only where a file stands in its place there is
one path, which is empty. -/
def ListsBelow (files : List ScannedFile) : Prop :=
  (∀ file ∈ files, IsSeenPath file.path) ∨ ∀ file ∈ files, file.path = ""

end Scan

/-- The category and the kind of a scanned file are those of its path. -/
structure ScannedFile.IsFiled (file : ScannedFile) : Prop where
  category : (classify file.path).map Prod.fst = some file.category
  kind : file.kind = fileKind file.path file.category

namespace Scan

/-- What a scan answers with. -/
structure IsFound (files : List ScannedFile) : Prop where
  filed : ∀ file ∈ files, file.IsFiled
  below : ListsBelow files

theorem isFiled_of_classified {moduleName path : String} {time : Nat} {file : ScannedFile}
    (found : classified moduleName path time = .ok file) : file.IsFiled ∧ file.path = path := by
  unfold classified at found
  split at found
  · rename_i category role said
    cases found
    exact ⟨⟨by rw [said]; rfl, rfl⟩, rfl⟩
  · cases found

theorem isFound_of_run {disk : Disk} (proper : disk.IsProper) {moduleName : String} {scope : Scope}
    {files : List ScannedFile} (found : run disk moduleName scope = .ok files) :
    IsFound files := by
  rw [run] at found
  split at found
  · cases found
  · rename_i item there
    constructor
    · exact forall_of_mapM (fun entry _ file said => (isFiled_of_classified said).1) found
    · cases item with
      | file contents time =>
          refine .inr (forall_of_mapM (fun entry listed file said => ?_) found)
          obtain rfl : entry = ("", time) := by simpa [filesOf] using listed
          exact (isFiled_of_classified said).2
      | folder entries time =>
          refine .inl (forall_of_mapM (fun entry listed file said => ?_) found)
          have plain : Item.HavePlainNames entries := proper.hasPlainNames there
          have inside : entry ∈ filesIn scope (Path.spell []) entries := listed
          obtain ⟨names, some, path, seen⟩ := paths_filesIn plain (by simp) entry inside
          exact ⟨names, some, (isFiled_of_classified said).2.trans path, seen⟩

end Scan

end WorkspaceBuild
