import WorkspaceBuild.Proofs.Disk.Changes
import WorkspaceBuild.Proofs.Disk.Spellings
import WorkspaceBuild.Proofs.Results

/-! # What changes are confined to

A change of a disk writes or deletes some files, makes some folders, and leaves all else as it is. So
the time of a folder is another one only where a name has come or gone in it.
-/

namespace WorkspaceBuild

/-- It counts for a path whether there is a folder at a place: the path leads through it, but it is
not one of those that the target is in. -/
def Path.Crosses (path : Path) (place : Place) : Prop :=
  place ∈ path.way ∧ ¬ place <+: path.target.dropLast

namespace Disk

/-- When what is at a place was last modified. -/
def timeAt? (disk : Disk) (place : Place) : Option Nat := (disk.itemAt? place).map Item.modified

/-- Folders keep their times unless they hold one of some files or a folder that is new. -/
def KeepsTimes (before after : Disk) (files : List Place) : Prop :=
  ∀ place, before.HoldsFolder place →
    (∀ name, place ++ [name] ∉ files ∧
      (after.HoldsFolder (place ++ [name]) → before.HoldsFolder (place ++ [name]))) →
    after.timeAt? place = before.timeAt? place

/-- A disk has become another by changing some files and making some folders. -/
structure Confined (before after : Disk) (files folders : List Place) : Prop where
  ordered : after.IsOrdered
  keepsFolders : KeepsFolders before after
  keepsFiles : KeepsFiles before after files
  made : ∀ place, after.HoldsFolder place → before.HoldsFolder place ∨ place ∈ folders
  times : KeepsTimes before after files

namespace Confined

variable {before middle after : Disk} {files folders moreFiles moreFolders : List Place}

theorem refl (ordered : before.IsOrdered) : Confined before before files folders :=
  ⟨ordered, fun _ folder => folder, .refl _ _, fun _ folder => .inl folder, fun _ _ _ => rfl⟩

theorem mono (h : Confined before after files folders) (moreFile : files ⊆ moreFiles)
    (moreFolder : folders ⊆ moreFolders) : Confined before after moreFiles moreFolders where
  ordered := h.ordered
  keepsFolders := h.keepsFolders
  keepsFiles place other := h.keepsFiles place fun listed => other (moreFile listed)
  made place folder := (h.made place folder).imp_right (moreFolder ·)
  times place folder apart := h.times place folder fun name =>
    ⟨fun listed => (apart name).1 (moreFile listed), (apart name).2⟩

theorem trans (first : Confined before middle files folders)
    (second : Confined middle after moreFiles moreFolders) :
    Confined before after (files ++ moreFiles) (folders ++ moreFolders) where
  ordered := second.ordered
  keepsFolders place folder := second.keepsFolders place (first.keepsFolders place folder)
  keepsFiles := first.keepsFiles.trans second.keepsFiles
  made := by
    intro place folder
    rw [List.mem_append]
    rcases second.made place folder with held | new
    · exact (first.made place held).imp_right .inl
    · exact .inr (.inr new)
  times := by
    intro place folder apart
    -- a folder that is new at one of the changes is new after both
    rw [second.times place (first.keepsFolders place folder), first.times place folder]
    · intro name
      obtain ⟨other, notNew⟩ := apart name
      exact ⟨fun listed => other (List.mem_append_left _ listed),
        fun held => notNew (second.keepsFolders _ held)⟩
    · intro name
      obtain ⟨other, notNew⟩ := apart name
      exact ⟨fun listed => other (List.mem_append_right _ listed),
        fun held => first.keepsFolders _ (notNew held)⟩

end Confined

section Times

variable {entries : List (String × Item)} {item : Option Item} {time : Nat}

/-- Below a folder only a change of what stands right in it counts for its time. -/
theorem exists_setIn_eq {name : String} {inner : List (String × Item)} {modified : Nat}
    (present : Item.child? entries name = some (.folder inner modified)) (item : Option Item)
    (time : Nat) (next further : String) (rest : Place) :
    setIn entries item time (name :: next :: further :: rest) = Item.setChild name
      (some (.folder (setIn inner item time (next :: further :: rest)) modified)) entries := by
  rw [setIn]
  · rw [present]
    rfl
  · exact List.cons_ne_nil _ _

/-- What is under another name is as it was. -/
theorem itemIn?_setChild_of_ne (ordered : Item.InOrder entries) {name first : String}
    (different : first ≠ name) (item : Option Item) (others : Place) :
    itemIn? (Item.setChild name item entries) (first :: others) = itemIn? entries (first :: others) := by
  have same : Item.child? (Item.setChild name item entries) first = Item.child? entries first := by
    rw [Item.child?_setChild ordered.1, if_neg different]
  cases others with
  | nil => rw [itemIn?, itemIn?, same]
  | cons next others => rw [itemIn?_cons, itemIn?_cons, heldIn, heldIn, same]

/-- The first name that leads to a folder is one of a folder. -/
theorem kindIn?_singleton_of_folder {first : String} {others : Place}
    (folder : kindIn? entries (first :: others) = some false) :
    kindIn? entries [first] = some false := by
  cases others with
  | nil => exact folder
  | cons next others =>
      obtain ⟨inner, modified, present, _⟩ := child?_of_folder_above
        (kindIn?_dropLast (List.cons_ne_nil _ _) (Option.isSome_of_eq_some folder))
      exact kindIn?_of_folder present []

/-- A change at a place leaves the time of every folder but the one that it stands in. -/
theorem timeIn?_setIn (ordered : Item.InOrder entries) (place : Place) (inside : place ≠ [])
    (above : kindIn? entries place.dropLast = some false)
    (noFolder : kindIn? entries place ≠ some false) {other : Place}
    (folder : kindIn? entries other = some false) (apart : other ≠ place.dropLast) :
    (itemIn? (setIn entries item time place) other).map Item.modified =
      (itemIn? entries other).map Item.modified := by
  induction place generalizing entries other with
  | nil => exact absurd rfl inside
  | cons name rest ih =>
      cases other with
      | nil => rfl
      | cons first others =>
          cases rest with
          | nil =>
              rw [setIn, itemIn?_setChild_of_ne ordered]
              rintro rfl
              exact noFolder (kindIn?_singleton_of_folder folder)
          | cons next rest =>
              obtain ⟨inner, modified, present, innerAbove⟩ := child?_of_folder_above above
              obtain ⟨changed, put⟩ := setIn_cons present item time next rest
              by_cases same : first = name
              · subst same
                have innerOrdered : Item.InOrder inner := Item.IsOrdered.child? ordered.2 present
                cases others with
                | nil =>
                    cases rest with
                    | nil => exact absurd rfl apart
                    | cons further rest =>
                        rw [exists_setIn_eq present, itemIn?, itemIn?,
                          Item.child?_setChild ordered.1, if_pos rfl, present]
                        rfl
                | cons last others =>
                    rw [kindIn?_of_folder present] at noFolder folder
                    have innerApart : last :: others ≠ (next :: rest).dropLast := by
                      rw [List.dropLast_cons_cons] at apart
                      exact fun same => apart (congrArg _ same)
                    have later := ih innerOrdered (List.cons_ne_nil _ _) innerAbove noFolder folder
                      innerApart
                    rw [put, itemIn?_cons, itemIn?_cons, heldIn, heldIn,
                      Item.child?_setChild ordered.1, if_pos rfl, present]
                    exact later
              · rw [put, itemIn?_setChild_of_ne ordered same]

end Times

section Operations

variable {disk next : Disk} {path : Path} {time : Nat}

theorem keepsTimes_setAt (ordered : disk.IsOrdered) {place : Place} (inside : place ≠ [])
    (above : disk.HoldsFolder place.dropLast) (noFolder : ¬ disk.HoldsFolder place)
    (item : Option Item) (time : Nat) : KeepsTimes disk (disk.setAt place item time) [place] := by
  intro other folder apart
  refine timeIn?_setIn ordered place inside above noFolder folder ?_
  rintro rfl
  have named := (apart (place.getLast inside)).1
  rw [List.dropLast_append_getLast, List.mem_singleton] at named
  exact named rfl

/-- Putting a file at a place, or taking it away, changes this file alone. -/
theorem confined_setAt (ordered : disk.IsOrdered) {place : Place} (inside : place ≠ [])
    (above : disk.HoldsFolder place.dropLast) (noFolder : ¬ disk.HoldsFolder place)
    {item : Option Item} (isFile : ∀ inner, item = some inner → inner.isFile = true) (time : Nat) :
    Confined disk (disk.setAt place item time) [place] [] := by
  have fresh : ∀ inner, item = some inner → IsFresh inner := by
    intro inner same
    cases inner with
    | file contents modified => trivial
    | folder entries modified => cases isFile _ same
  have kinds := kindAt?_setAt ordered inside above noFolder fresh time
  refine
    { ordered := isOrdered_setAt ordered above fresh time
      keepsFolders := fun other folder => ?_
      keepsFiles := keepsFiles_setAt ordered inside above noFolder fresh time
      made := fun other folder => .inl ?_
      times := keepsTimes_setAt ordered inside above noFolder item time }
  · rw [HoldsFolder, kinds, if_neg (by rintro rfl; exact noFolder folder)]
    exact folder
  · rw [HoldsFolder, kinds] at folder
    split at folder
    · cases item with
      | none => cases folder
      | some inner =>
          rw [Option.map_some, isFile inner rfl] at folder
          cases folder
    · exact folder

theorem write_confined (ordered : disk.IsOrdered) {contents : Contents}
    (written : disk.write path contents time = .ok next) : Confined disk next [path.target] [] := by
  obtain ⟨reaches, noFolder, rfl⟩ := eq_setAt_of_write written
  have named := reaches.endsInName noFolder
  refine confined_setAt ordered named.trail_eq.2.1 (reaches.above named) noFolder ?_ time
  rintro inner ⟨⟩
  rfl

theorem removeFile_confined (ordered : disk.IsOrdered)
    (removed : disk.removeFile path time = .ok next) : Confined disk next [path.target] [] := by
  obtain ⟨reaches, isFile, rfl⟩ := eq_setAt_of_removeFile removed
  have noFolder := not_holdsFolder_of_file isFile
  have named := reaches.endsInName noFolder
  refine confined_setAt ordered named.trail_eq.2.1 (reaches.above named) noFolder ?_ time
  rintro inner ⟨⟩

theorem makeFolders_keepsTimes {begun : Bool} {place : Place} {pieces : List String}
    (ordered : disk.IsOrdered) (folder : disk.HoldsFolder place.reverse)
    (made : (makeFolders time begun disk place pieces).1 = next) : KeepsTimes disk next [] := by
  induction pieces generalizing begun disk place with
  | nil =>
      cases made
      exact fun _ _ _ => rfl
  | cons piece rest ih =>
      simp only [makeFolders] at made
      split at made
      · exact ih ordered folder made
      split at made
      · exact ih ordered folder.tail made
      split at made
      · rename_i entries modified found
        exact ih ordered (holdsFolder_iff.mpr ⟨entries, modified, found⟩) made
      · cases made
        exact fun _ _ _ => rfl
      · rename_i nothing
        have noFolder : ¬ disk.HoldsFolder (piece :: place).reverse := by
          rw [holdsFolder_iff, nothing]
          rintro ⟨_, _, found⟩
          cases found
        have above : disk.HoldsFolder (piece :: place).reverse.dropLast := by simpa using folder
        have fresh : ∀ inner, some (Item.folder [] time) = some inner → IsFresh inner := by
          rintro inner ⟨⟩
          rfl
        have kinds := kindAt?_setAt ordered (by simp) above noFolder fresh time
        have orderedNext := isOrdered_setAt ordered above fresh time
        have isFolder : (disk.setAt (piece :: place).reverse (some (.folder [] time)) time).HoldsFolder
            (piece :: place).reverse := by
          rw [HoldsFolder, kinds, if_pos rfl]
          rfl
        have keeps : KeepsFolders disk
            (disk.setAt (piece :: place).reverse (some (.folder [] time)) time) := by
          intro other held
          rw [HoldsFolder, kinds, if_neg (by rintro rfl; exact noFolder held)]
          exact held
        obtain ⟨⟨_, _, adds⟩, _⟩ := makeFolders_adds orderedNext isFolder made
        have stays := adds.keepsFolders
        have first := keepsTimes_setAt ordered (by simp) above noFolder (some (.folder [] time)) time
        intro other held apart
        rw [ih orderedNext isFolder made other (keeps other held), first other held]
        · intro name
          refine ⟨fun listed => ?_, fun new => (apart name).2 (stays _ new)⟩
          -- the folder that is made is new
          have same := List.mem_singleton.mp listed
          exact noFolder (same ▸ (apart name).2 (same ▸ stays _ isFolder))
        · exact fun name => ⟨List.not_mem_nil, fun new => keeps _ ((apart name).2 new)⟩

/-- Making the folder of a path makes folders on its way. -/
theorem createParent_confined (ordered : disk.IsOrdered) (absolute : path.isAbsolute = true)
    {folder : Path} (found : path.parent? = some folder)
    (made : (disk.createFolders folder time).1 = next) : Confined disk next [] path.way := by
  have folderAbsolute := Path.isAbsolute_folder absolute found
  obtain ⟨⟨places, within, adds⟩, files⟩ := createFolders_adds ordered folderAbsolute made
  rw [createFolders, if_pos folderAbsolute] at made
  refine ⟨adds.ordered, adds.keepsFolders, files, fun place held => ?_,
    makeFolders_keepsTimes ordered holdsFolder_root made⟩
  rcases (adds.holds_iff place).mp held.holds with was | new
  · exact .inl ((adds.keeps place was).symm.trans held)
  · exact .inr (Path.way_of_parent? absolute found (within new))

end Operations

section Outputs

variable {before after : Disk} {files folders : List Place} {path : Path}

theorem timeAt?_of_fileAt? {place : Place} (file : before.kindAt? place = some true)
    (same : after.fileAt? place = before.fileAt? place) :
    after.timeAt? place = before.timeAt? place := by
  obtain ⟨item, there⟩ := Option.isSome_iff_exists.mp (kindAt?_eq_true_iff.mp file)
  cases item with
  | file contents time =>
      rw [timeAt?, timeAt?, fileAt?_eq_some_iff.mp there, fileAt?_eq_some_iff.mp (same.trans there)]
  | folder entries time => cases (Option.filter_eq_some_iff.mp there).2

theorem modified?_eq_some_iff {disk : Disk} {time : Nat} : disk.modified? path = some time ↔
    disk.Reaches path ∧ disk.timeAt? path.target = some time := by
  rw [modified?, Option.map_eq_some_iff, timeAt?, Option.map_eq_some_iff]
  constructor
  · rintro ⟨item, found, rfl⟩
    obtain ⟨reaches, there⟩ := item_eq_ok_iff.mp (eq_ok_of_toOption found)
    exact ⟨reaches, item, there, rfl⟩
  · rintro ⟨reaches, item, there, rfl⟩
    exact ⟨item, by rw [item_eq_ok_iff.mpr ⟨reaches, there⟩]; rfl, rfl⟩

theorem isSome_timeAt?_iff {disk : Disk} {place : Place} :
    (disk.timeAt? place).isSome ↔ disk.Holds place := by
  rw [timeAt?, Option.isSome_map, Option.isSome_iff_exists, holds_iff]

theorem holds_cases {disk : Disk} {place : Place} (h : disk.Holds place) :
    disk.kindAt? place = some true ∨ disk.HoldsFolder place := by
  obtain ⟨isFile, kind⟩ := Option.isSome_iff_exists.mp h
  cases isFile with
  | true => exact .inl kind
  | false => exact .inr kind

/-- Where changes keep away from a path, what is at it has the time that it had. -/
theorem Confined.modified?_eq (h : Confined before after files folders)
    (unchanged : ∀ place ∈ files, ¬ path.target <+: place)
    (unmade : ∀ place, path.target <+: place → after.HoldsFolder place → before.HoldsFolder place)
    (uncrossed : ∀ place, path.Crosses place → after.HoldsFolder place → before.HoldsFolder place) :
    after.modified? path = before.modified? path := by
  have file : after.fileAt? path.target = before.fileAt? path.target :=
    h.keepsFiles _ fun listed => unchanged _ listed List.prefix_rfl
  refine Option.ext fun time => ?_
  rw [modified?_eq_some_iff, modified?_eq_some_iff]
  by_cases held : before.Holds path.target
  · have times : after.timeAt? path.target = before.timeAt? path.target := by
      rcases holds_cases held with isFile | folder
      · exact timeAt?_of_fileAt? isFile file
      · refine h.times _ folder fun name => ⟨fun listed => ?_, unmade _ (List.prefix_append _ _)⟩
        exact unchanged _ listed (List.prefix_append _ _)
    have reaches : after.Reaches path ↔ before.Reaches path := by
      refine ⟨fun reaches => ⟨reaches.1, fun place onWay => ?_⟩, h.keepsFolders.reaches⟩
      by_cases above : place <+: path.target.dropLast
      · obtain ⟨more, same⟩ := above
        by_cases root : path.target = []
        · rw [root] at same
          obtain ⟨rfl, _⟩ := List.append_eq_nil_iff.mp same
          exact holdsFolder_root
        · have inFolder : before.Holds (place ++ (more ++ [path.target.getLast root])) := by
            rwa [← List.append_assoc, same, List.dropLast_append_getLast root]
          exact .of_append inFolder (by simp)
      · exact uncrossed place ⟨onWay, above⟩ (reaches.2 place onWay)
    rw [reaches, times]
  · have notHeld : ¬ after.Holds path.target := by
      intro holds
      rcases holds_cases holds with isFile | folder
      · rw [kindAt?_eq_true_iff, file, ← kindAt?_eq_true_iff] at isFile
        exact held (by rw [Holds, isFile]; rfl)
      · exact held (unmade _ List.prefix_rfl folder).holds
    rw [← isSome_timeAt?_iff, Option.not_isSome_iff_eq_none] at held notHeld
    rw [held, notHeld]
    simp

end Outputs

end Disk

end WorkspaceBuild
