import WorkspaceBuild.Proofs.Disk.Files

/-! # Changes of a disk

What each operation of a build does to a disk. Making folders and writing files add the places of a
trail and change nothing that is there; deleting takes one file away. So folders stay, and with them
every way that is there.
-/

namespace WorkspaceBuild.Disk

/-- A disk has become another by adding places, of which some may have been there. -/
structure Adds (before after : Disk) (places : List Place) : Prop where
  ordered : after.IsOrdered
  keeps : ∀ place, before.Holds place → after.kindAt? place = before.kindAt? place
  holds_iff : ∀ place, after.Holds place ↔ before.Holds place ∨ place ∈ places

/-- A disk has become another by deleting the file at a place. -/
structure Drops (before after : Disk) (gone : Place) : Prop where
  ordered : after.IsOrdered
  wasFile : before.kindAt? gone = some true
  kindAt?_eq : ∀ place, after.kindAt? place = if place = gone then none else before.kindAt? place

/-- Every folder of a disk is one of another. -/
def KeepsFolders (before after : Disk) : Prop :=
  ∀ place, before.HoldsFolder place → after.HoldsFolder place

theorem KeepsFolders.reaches {before after : Disk} (h : KeepsFolders before after) {path : Path}
    (reaches : before.Reaches path) : after.Reaches path :=
  ⟨reaches.1, fun place member => h place (reaches.2 place member)⟩

namespace Adds

variable {before middle after : Disk} {places more : List Place}

theorem refl (ordered : before.IsOrdered) : Adds before before [] :=
  ⟨ordered, fun _ _ => rfl, fun _ => by simp⟩

theorem trans (first : Adds before middle places) (second : Adds middle after more) :
    Adds before after (places ++ more) where
  ordered := second.ordered
  keeps := by
    intro place held
    rw [second.keeps place ((first.holds_iff place).mpr (.inl held)), first.keeps place held]
  holds_iff := by
    intro place
    rw [second.holds_iff, first.holds_iff, List.mem_append, or_assoc]

/-- Places that are there already need not be counted. -/
theorem congr (h : Adds before after places)
    (same : ∀ place, ¬ before.Holds place → (place ∈ places ↔ place ∈ more)) :
    Adds before after more := by
  refine ⟨h.ordered, h.keeps, fun place => (h.holds_iff place).trans ?_⟩
  by_cases held : before.Holds place
  · simp [held]
  · simp only [held, false_or, same place held]

/-- What is added first may be part of what is added then. -/
theorem trans_of_subset (first : Adds before middle places) (second : Adds middle after more)
    (within : places ⊆ more) : Adds before after more := by
  refine (first.trans second).congr fun place _ => ?_
  rw [List.mem_append, or_iff_right_of_imp (fun member => within member)]

theorem keepsFolders (h : Adds before after places) : KeepsFolders before after :=
  fun place folder => (h.keeps place folder.holds).trans folder

end Adds

namespace Drops

variable {before after : Disk} {gone : Place}

theorem holds_iff (h : Drops before after gone) (place : Place) :
    after.Holds place ↔ before.Holds place ∧ place ≠ gone := by
  rw [Holds, h.kindAt?_eq]
  by_cases same : place = gone <;> simp [same, Holds]

theorem keepsFolders (h : Drops before after gone) : KeepsFolders before after := by
  intro place folder
  have other : place ≠ gone := by
    rintro rfl
    rw [HoldsFolder, h.wasFile] at folder
    cases folder
  rw [HoldsFolder, h.kindAt?_eq, if_neg other]
  exact folder

end Drops

section Operations

variable {disk next : Disk} {path : Path} {time : Nat}

/-- Something fresh is put where there is nothing, or a file in place of a file. -/
theorem setAt_adds (ordered : disk.IsOrdered) {place : Place} (inside : place ≠ [])
    (above : disk.HoldsFolder place.dropLast) {item : Item} (fresh : IsFresh item)
    (replaces : ∀ kind, disk.kindAt? place = some kind → kind = true ∧ item.isFile = true)
    (time : Nat) :
    Adds disk (disk.setAt place (some item) time) [place] ∧
      (disk.setAt place (some item) time).kindAt? place = some item.isFile := by
  have noFolder : ¬ disk.HoldsFolder place := fun folder =>
    Bool.false_ne_true (replaces false folder).1
  have isFresh : ∀ inner, some item = some inner → IsFresh inner := by
    rintro inner ⟨⟩
    exact fresh
  have kinds := kindAt?_setAt ordered inside above noFolder isFresh time
  refine ⟨⟨isOrdered_setAt ordered above isFresh time, fun other held => ?_, fun other => ?_⟩,
    by simp [kinds]⟩
  · rw [kinds]
    split
    · rename_i same
      subst same
      obtain ⟨kind, present⟩ := Option.isSome_iff_exists.mp held
      obtain ⟨rfl, isFile⟩ := replaces kind present
      rw [present, Option.map_some, isFile]
    · rfl
  · rw [Holds, kinds]
    by_cases same : other = place <;> simp [same, Holds]

/-- However it ends, making folders adds some of the places of a trail and changes no file. -/
theorem makeFolders_adds {begun : Bool} {place : Place} {pieces : List String}
    (ordered : disk.IsOrdered) (folder : disk.HoldsFolder place.reverse)
    (made : (makeFolders time begun disk place pieces).1 = next) :
    (∃ places, places ⊆ place.trail pieces ∧ Adds disk next places) ∧ KeepsFiles disk next [] := by
  induction pieces generalizing begun disk place with
  | nil =>
      cases made
      exact ⟨⟨[], List.nil_subset _, .refl ordered⟩, .refl _ []⟩
  | cons piece rest ih =>
      simp only [makeFolders, Place.trail] at made ⊢
      split at made
      · rename_i isVoid
        rw [if_pos isVoid]
        exact ih ordered folder made
      rename_i notVoid
      rw [if_neg notVoid]
      split at made
      · rename_i isParent
        rw [if_pos isParent]
        exact ih ordered folder.tail made
      rename_i isName
      rw [if_neg isName]
      split at made
      · rename_i entries modified found
        obtain ⟨⟨places, within, adds⟩, files⟩ :=
          ih ordered (holdsFolder_iff.mpr ⟨entries, modified, found⟩) made
        exact ⟨⟨places, List.subset_cons_of_subset _ within, adds⟩, files⟩
      · cases made
        exact ⟨⟨[], List.nil_subset _, .refl ordered⟩, .refl _ []⟩
      · rename_i nothing
        have empty : disk.kindAt? (piece :: place).reverse = none := by
          change (disk.itemAt? _).map Item.isFile = none
          rw [nothing]
          rfl
        have replaces : ∀ kind, disk.kindAt? (piece :: place).reverse = some kind →
            kind = true ∧ (Item.folder [] time).isFile = true := by
          intro kind present
          rw [empty] at present
          cases present
        obtain ⟨first, isFolder⟩ := setAt_adds ordered (by simp) (by simpa using folder)
          (show IsFresh (.folder [] time) from rfl) replaces time
        obtain ⟨⟨places, within, adds⟩, files⟩ := ih first.ordered isFolder made
        have kept := keepsFiles_setAt_folder ordered (by simp) (by simpa using folder) nothing time
        exact ⟨⟨_, List.cons_subset_cons _ within, first.trans adds⟩, kept.trans files⟩

theorem createFolders_adds (ordered : disk.IsOrdered) (absolute : path.isAbsolute = true)
    (made : (disk.createFolders path time).1 = next) :
    (∃ places, places ⊆ path.trail ∧ Adds disk next places) ∧ KeepsFiles disk next [] := by
  rw [createFolders, if_pos absolute] at made
  exact makeFolders_adds ordered holdsFolder_root made

/-- A path that does not start at the root leads to no folder that could be made. -/
theorem createFolders_of_not_absolute (relative : path.isAbsolute ≠ true) :
    (disk.createFolders path time).1 = disk := by
  rw [createFolders, if_neg relative]
  split <;> rfl

/-- Making the folder of a path adds places on its way. -/
theorem createParent_adds (ordered : disk.IsOrdered) (absolute : path.isAbsolute = true)
    {folder : Path} (found : path.parent? = some folder)
    (made : (disk.createFolders folder time).1 = next) :
    (∃ places, places ⊆ path.trail ∧ Adds disk next places) ∧ KeepsFiles disk next [] := by
  have folderAbsolute := Path.isAbsolute_folder absolute found
  obtain ⟨⟨places, within, adds⟩, files⟩ := createFolders_adds ordered folderAbsolute made
  have onTrail : folder.trail ⊆ path.trail := fun place member =>
    path.way_subset_trail (Path.way_of_parent? absolute found member)
  exact ⟨⟨places, List.Subset.trans within onTrail, adds⟩, files⟩

/-- A file is put at the target of a path. -/
theorem Reaches.setAt_adds (reaches : disk.Reaches path) (ordered : disk.IsOrdered)
    (noFolder : ¬ disk.HoldsFolder path.target) (contents : Contents) (time : Nat) :
    Adds disk (disk.setAt path.target (some (.file contents time)) time) path.trail ∧
      (disk.setAt path.target (some (.file contents time)) time).kindAt? path.target = some true := by
  have named := reaches.endsInName noFolder
  obtain ⟨trail, inside, _⟩ := named.trail_eq
  have replaces : ∀ kind, disk.kindAt? path.target = some kind →
      kind = true ∧ (Item.file contents time).isFile = true := by
    intro kind present
    cases kind with
    | true => exact ⟨rfl, rfl⟩
    | false => exact absurd present noFolder
  obtain ⟨adds, isFile⟩ := Disk.setAt_adds ordered inside (reaches.above named)
    (show IsFresh (.file contents time) from trivial) replaces time
  refine ⟨adds.congr fun place missing => ?_, isFile⟩
  have notOnWay : place ∉ path.way := fun onWay => missing (reaches.2 place onWay).holds
  rw [trail, List.mem_append, or_iff_right notOnWay]

/-- What is written stands at the target of a path whose way is there. -/
theorem eq_setAt_of_write {contents : Contents}
    (written : disk.write path contents time = .ok next) : disk.Reaches path ∧
      ¬ disk.HoldsFolder path.target ∧
        next = disk.setAt path.target (some (.file contents time)) time := by
  rw [write] at written
  cases found : disk.place path with
  | error fault =>
      rw [found] at written
      cases written
  | ok place =>
      obtain ⟨reaches, rfl⟩ := place_eq_ok_iff.mp found
      rw [found] at written
      simp only [bind, Except.bind] at written
      refine ⟨reaches, fun folder => ?_, ?_⟩
      · obtain ⟨entries, modified, present⟩ := holdsFolder_iff.mp folder
        rw [present] at written
        cases written
      · split at written
        · cases written
        · exact (Except.ok.inj written).symm
        · split at written
          · cases written
          · exact (Except.ok.inj written).symm

theorem write_adds (ordered : disk.IsOrdered) {contents : Contents}
    (written : disk.write path contents time = .ok next) : Disk.Adds disk next path.trail := by
  obtain ⟨reaches, noFolder, rfl⟩ := eq_setAt_of_write written
  exact (reaches.setAt_adds ordered noFolder contents time).1

/-- What is written is on the trail of its path. -/
theorem target_mem_trail_of_write {contents : Contents}
    (written : disk.write path contents time = .ok next) : path.target ∈ path.trail := by
  obtain ⟨reaches, noFolder, _⟩ := eq_setAt_of_write written
  have named := reaches.endsInName noFolder
  simp [named.trail_eq.1]

/-- Whether a file can be written does not depend on what is to be written. -/
theorem exists_write {contents other : Contents}
    (written : disk.write path contents time = .ok next) :
    ∃ left, disk.write path other time = .ok left := by
  rw [write] at written ⊢
  cases found : disk.place path with
  | error fault =>
      rw [found] at written
      cases written
  | ok place =>
      rw [found] at written
      simp only [bind, Except.bind] at written ⊢
      split at written
      · cases written
      · exact ⟨_, rfl⟩
      · split at written
        · cases written
        · rename_i allowed
          exact ⟨_, if_neg allowed⟩

/-- What comes of asking a system for a file. -/
inductive Puts (system : System) (disk : Disk) (path : Path) (time : Nat) : Outcome → Prop where
  | written {contents : Contents} {next : Disk} (put : disk.write path contents time = .ok next) :
      Puts system disk path time (next, .ok ())
  | refused {fault : Fault} : Puts system disk path time (disk, .error fault)
  /-- It broke off once the file had been opened, and something is in it. -/
  | broken {contents : Contents} {left : Disk} {fault : Fault} {held : Contents → Contents}
      (interrupted : system.interrupts disk path = some (.broken fault held))
      (put : disk.write path (held contents) time = .ok left) :
      Puts system disk path time (left, .error fault)

theorem puts_write (system : System) (contents : Contents) :
    Puts system disk path time (system.write disk path contents time) := by
  unfold System.write
  split
  · exact .refused
  · rename_i written put
    split
    · exact .written put
    · exact .refused
    · rename_i fault held interrupted
      obtain ⟨left, broken⟩ : ∃ left, disk.write path (held contents) time = .ok left := exists_write put
      rw [broken]
      exact .broken interrupted broken

theorem puts_copy (system : System) (source : Path) :
    Puts system disk path time (system.copy disk source path time) := by
  unfold System.copy
  split
  · exact puts_write system _
  · exact .refused

theorem noItem_isFresh (inner : Item) (same : none = some inner) : IsFresh inner := by
  cases same

/-- What is deleted is the file at the target of a path whose way is there. -/
theorem eq_setAt_of_removeFile (removed : disk.removeFile path time = .ok next) :
    disk.Reaches path ∧ disk.kindAt? path.target = some true ∧
      next = disk.setAt path.target none time := by
  rw [removeFile] at removed
  cases found : disk.place path with
  | error fault =>
      rw [found] at removed
      cases removed
  | ok place =>
      obtain ⟨reaches, rfl⟩ := place_eq_ok_iff.mp found
      rw [found] at removed
      simp only [bind, Except.bind] at removed
      split at removed
      · rename_i contents modified present
        cases removed
        refine ⟨reaches, ?_, rfl⟩
        change (disk.itemAt? _).map Item.isFile = _
        rw [present]
        rfl
      · cases removed
      · cases removed

theorem not_holdsFolder_of_file {place : Place} (isFile : disk.kindAt? place = some true) :
    ¬ disk.HoldsFolder place := by
  rw [HoldsFolder, isFile]
  simp

/-- Deleting takes the file at the target of a path away. -/
theorem removeFile_drops (ordered : disk.IsOrdered)
    (removed : disk.removeFile path time = .ok next) : Drops disk next path.target := by
  obtain ⟨reaches, isFile, rfl⟩ := eq_setAt_of_removeFile removed
  have noFolder := not_holdsFolder_of_file isFile
  have named := reaches.endsInName noFolder
  exact ⟨isOrdered_setAt ordered (reaches.above named) noItem_isFresh time, isFile,
    kindAt?_setAt ordered named.trail_eq.2.1 (reaches.above named) noFolder noItem_isFresh time⟩

/-- Where the way of a path is there, nothing to delete means that nothing is there. -/
theorem not_holds_of_removeFile (reaches : disk.Reaches path)
    (missing : disk.removeFile path time = .error .notFound) : ¬ disk.Holds path.target := by
  rw [removeFile, place_eq_ok_iff.mpr ⟨reaches, rfl⟩] at missing
  simp only [bind, Except.bind] at missing
  rintro held
  obtain ⟨item, present⟩ := holds_iff.mp held
  rw [present] at missing
  cases item <;> cases missing

/-- When the file at a path is taken away, its way stays. -/
theorem Reaches.setAt_none (reaches : disk.Reaches path) (ordered : disk.IsOrdered)
    (noFolder : ¬ disk.HoldsFolder path.target) (time : Nat) :
    (disk.setAt path.target none time).IsOrdered ∧ (disk.setAt path.target none time).Reaches path ∧
      ¬ (disk.setAt path.target none time).HoldsFolder path.target := by
  have named := reaches.endsInName noFolder
  have kinds := kindAt?_setAt ordered named.trail_eq.2.1 (reaches.above named) noFolder
    noItem_isFresh time
  refine ⟨isOrdered_setAt ordered (reaches.above named) noItem_isFresh time,
    KeepsFolders.reaches (fun place folder => ?_) reaches, by simp [HoldsFolder, kinds]⟩
  rw [HoldsFolder, kinds, if_neg]
  · exact folder
  · rintro rfl
    exact noFolder folder

/-- A file that is taken away and put again at once is a file that is put. -/
theorem Reaches.replace_adds (reaches : disk.Reaches path) (ordered : disk.IsOrdered)
    (noFolder : ¬ disk.HoldsFolder path.target) (contents : Contents) (time : Nat) :
    Adds disk ((disk.setAt path.target none time).setAt path.target (some (.file contents time)) time)
      path.trail := by
  have named := reaches.endsInName noFolder
  have kinds := kindAt?_setAt ordered named.trail_eq.2.1 (reaches.above named) noFolder
    noItem_isFresh time
  obtain ⟨stillOrdered, reachesAgain, stillNoFolder⟩ := reaches.setAt_none ordered noFolder time
  obtain ⟨adds, isFile⟩ := reachesAgain.setAt_adds stillOrdered stillNoFolder contents time
  have atTarget : path.target ∈ path.trail := by simp [named.trail_eq.1]
  refine ⟨adds.ordered, fun place held => ?_, fun place => ?_⟩
  · by_cases same : place = path.target
    · subst same
      obtain ⟨kind, present⟩ := Option.isSome_iff_exists.mp held
      cases kind with
      | true => rw [isFile, present]
      | false => exact absurd present noFolder
    · have heldBetween : (disk.setAt path.target none time).Holds place := by
        rw [Holds, kinds, if_neg same]
        exact held
      rw [adds.keeps place heldBetween, kinds, if_neg same]
  · rw [adds.holds_iff, Holds, kinds]
    by_cases same : place = path.target
    · simp [same, atTarget]
    · rw [if_neg same]
      rfl

theorem eq_setAt_of_replaceFile {contents : Contents}
    (replaced : disk.replaceFile path contents time = .ok next) :
    disk.Reaches path ∧ ¬ disk.HoldsFolder path.target ∧
      next = (disk.setAt path.target none time).setAt path.target (some (.file contents time)) time := by
  rw [replaceFile] at replaced
  split at replaced
  · cases replaced
  split at replaced
  · cases replaced
  · cases replaced
  rename_i place found
  obtain ⟨reaches, rfl⟩ := place_eq_ok_iff.mp found
  split at replaced
  · cases replaced
  · rename_i noFolder
    cases replaced
    refine ⟨reaches, fun folder => ?_, rfl⟩
    obtain ⟨entries, modified, present⟩ := holdsFolder_iff.mp folder
    exact noFolder entries modified present

/-- A file replaced as a whole stands at the target of its path. -/
theorem replaceFile_adds (ordered : disk.IsOrdered) {contents : Contents}
    (replaced : disk.replaceFile path contents time = .ok next) : Adds disk next path.trail := by
  obtain ⟨reaches, noFolder, rfl⟩ := eq_setAt_of_replaceFile replaced
  exact reaches.replace_adds ordered noFolder contents time

/-- A change at the target of a path whose way is there changes no other file. -/
theorem Reaches.setAt_files (reaches : disk.Reaches path) (ordered : disk.IsOrdered)
    (noFolder : ¬ disk.HoldsFolder path.target) {item : Option Item}
    (fresh : ∀ inner, item = some inner → IsFresh inner) (time : Nat) :
    KeepsFiles disk (disk.setAt path.target item time) [path.target] ∧
      (disk.setAt path.target item time).fileAt? path.target = item.filter Item.isFile := by
  have named := reaches.endsInName noFolder
  obtain ⟨_, inside, _⟩ := named.trail_eq
  have above := reaches.above named
  refine ⟨keepsFiles_setAt ordered inside above noFolder fresh time, ?_⟩
  rw [fileAt?_setAt ordered inside above noFolder fresh, if_pos rfl]

theorem file_isFresh (contents : Contents) (time : Nat) (inner : Item)
    (same : some (.file contents time) = some inner) : IsFresh inner := by
  cases same
  trivial

theorem write_files (ordered : disk.IsOrdered) {contents : Contents}
    (written : disk.write path contents time = .ok next) :
    KeepsFiles disk next [path.target] ∧
      next.fileAt? path.target = some (.file contents time) := by
  obtain ⟨reaches, noFolder, rfl⟩ := eq_setAt_of_write written
  exact reaches.setAt_files ordered noFolder (file_isFresh contents time) time

theorem removeFile_files (ordered : disk.IsOrdered)
    (removed : disk.removeFile path time = .ok next) : KeepsFiles disk next [path.target] := by
  obtain ⟨reaches, isFile, rfl⟩ := eq_setAt_of_removeFile removed
  exact (reaches.setAt_files ordered (not_holdsFolder_of_file isFile) noItem_isFresh time).1

theorem replaceFile_files (ordered : disk.IsOrdered) {contents : Contents}
    (replaced : disk.replaceFile path contents time = .ok next) :
    KeepsFiles disk next [path.target] ∧
      next.fileAt? path.target = some (.file contents time) := by
  obtain ⟨reaches, noFolder, rfl⟩ := eq_setAt_of_replaceFile replaced
  have taken := (reaches.setAt_files ordered noFolder noItem_isFresh time).1
  obtain ⟨stillOrdered, reachesAgain, stillNoFolder⟩ := reaches.setAt_none ordered noFolder time
  obtain ⟨put, present⟩ :=
    reachesAgain.setAt_files stillOrdered stillNoFolder (file_isFresh contents time) time
  refine ⟨fun place other => ?_, present⟩
  rw [put place other, taken place other]

end Operations

end WorkspaceBuild.Disk
