import WorkspaceBuild.Disk.Changes
import WorkspaceBuild.Proofs.Disk.Trails

/-! # Files of a disk

A disk as the files it holds, each with its contents and time. Putting a file at a place, or taking
one away, changes what is at this place alone.
-/

namespace WorkspaceBuild

namespace Disk

/-- The file at names below several items. -/
def fileIn? (entries : List (String × Item)) (place : Place) : Option Item :=
  (shownIn? entries place).filter Item.isFile

/-- The file at a place, with its contents and time. -/
def fileAt? (disk : Disk) (place : Place) : Option Item := fileIn? disk.entries place

/-- What a folder holds under a name; a file and an absent folder hold nothing. -/
def heldIn (entries : List (String × Item)) (name : String) : List (String × Item) :=
  ((Item.child? entries name).map Item.entriesOf).getD []

section Below

variable {entries : List (String × Item)} {name : String}

theorem itemIn?_empty (name : String) (rest : Place) : itemIn? [] (name :: rest) = none := by
  cases rest with
  | nil => rfl
  | cons next rest => simp [itemIn?, Item.child?]

theorem itemIn?_cons (name next : String) (rest : Place) :
    itemIn? entries (name :: next :: rest) = itemIn? (heldIn entries name) (next :: rest) := by
  rw [itemIn?, heldIn]
  · cases Item.child? entries name with
    | none => exact (itemIn?_empty next rest).symm
    | some item =>
        cases item with
        | file contents modified => exact (itemIn?_empty next rest).symm
        | folder inner modified => rfl
  · exact List.cons_ne_nil _ _

theorem fileIn?_cons (name next : String) (rest : Place) :
    fileIn? entries (name :: next :: rest) = fileIn? (heldIn entries name) (next :: rest) := by
  rw [fileIn?, fileIn?, shownIn?, shownIn?, itemIn?_cons]

theorem fileIn?_singleton (entries : List (String × Item)) (name : String) :
    fileIn? entries [name] = (Item.child? entries name).filter Item.isFile := by
  rw [fileIn?, shownIn?, itemIn?]
  cases Item.child? entries name with
  | none => rfl
  | some item => cases item <;> rfl

theorem itemIn?_append {place names : Place} {inner : List (String × Item)} {modified : Nat}
    (found : itemIn? entries place = some (.folder inner modified)) (some : names ≠ []) :
    itemIn? entries (place ++ names) = itemIn? inner names := by
  induction place generalizing entries with
  | nil =>
      cases found
      rfl
  | cons name rest ih =>
      obtain ⟨next, others, rfl⟩ := List.exists_cons_of_ne_nil some
      cases rest with
      | nil =>
          rw [List.cons_append, List.nil_append, itemIn?_cons, heldIn,
            show Item.child? entries name = _ from found]
          rfl
      | cons last rest =>
          rw [itemIn?_cons] at found
          rw [List.cons_append, List.cons_append, itemIn?_cons]
          exact ih found

theorem fileAt?_append {disk : Disk} {place names : Place} {inner : List (String × Item)}
    {modified : Nat} (found : disk.itemAt? place = some (.folder inner modified))
    (some : names ≠ []) : disk.fileAt? (place ++ names) = fileIn? inner names := by
  rw [fileAt?, fileIn?, fileIn?, shownIn?, shownIn?, itemIn?_append found some]

theorem inOrder_heldIn (ordered : Item.InOrder entries) (name : String) :
    Item.InOrder (heldIn entries name) := by
  rw [heldIn]
  cases found : Item.child? entries name with
  | none => exact ⟨List.Pairwise.nil, trivial⟩
  | some item =>
      cases item with
      | file contents modified => exact ⟨List.Pairwise.nil, trivial⟩
      | folder inner modified => exact Item.IsOrdered.child? ordered.2 found

theorem isOrdered_itemIn? {place : Place} {item : Item} (ordered : Item.InOrder entries)
    (found : itemIn? entries place = some item) : item.IsOrdered := by
  induction place generalizing entries with
  | nil =>
      cases found
      exact ordered
  | cons name rest ih =>
      cases rest with
      | nil => exact Item.IsOrdered.child? ordered.2 found
      | cons next rest =>
          rw [itemIn?_cons] at found
          exact ih (inOrder_heldIn ordered name) found

theorem inOrder_itemAt? {disk : Disk} {place : Place} {inner : List (String × Item)}
    {modified : Nat} (ordered : disk.IsOrdered)
    (found : disk.itemAt? place = some (.folder inner modified)) : Item.InOrder inner :=
  isOrdered_itemIn? ordered found

end Below

section Paths

variable {disk : Disk} {path : Path}

theorem item_eq_ok_iff {item : Item} :
    disk.item path = .ok item ↔ disk.Reaches path ∧ disk.itemAt? path.target = some item := by
  rw [Disk.item]
  cases named : disk.place path with
  | error fault =>
      simp [not_reaches_of_place named, bind, Except.bind]
  | ok place =>
      obtain ⟨reaches, rfl⟩ := place_eq_ok_iff.mp named
      simp only [bind, Except.bind, reaches, true_and]
      cases disk.itemAt? path.target <;> simp

theorem fileAt?_eq_some_iff {place : Place} {contents : Contents} {time : Nat} :
    disk.fileAt? place = some (.file contents time) ↔
      disk.itemAt? place = some (.file contents time) := by
  change ((disk.itemAt? place).map surface).filter Item.isFile = _ ↔ _
  cases disk.itemAt? place with
  | none => simp
  | some item => cases item <;> simp [surface, Item.isFile]

theorem kindAt?_eq_true_iff {place : Place} :
    disk.kindAt? place = some true ↔ (disk.fileAt? place).isSome := by
  rw [kindAt?_eq]
  change _ ↔ ((disk.shownAt? place).filter Item.isFile).isSome
  cases disk.shownAt? place with
  | none => simp
  | some item => cases item <;> simp [Item.isFile, Option.filter]

end Paths

/-- The files of a disk are those of another, but for those at some places. -/
def KeepsFiles (before after : Disk) (changed : List Place) : Prop :=
  ∀ place, place ∉ changed → after.fileAt? place = before.fileAt? place

namespace KeepsFiles

variable {before middle after : Disk} {changed more : List Place}

theorem refl (disk : Disk) (changed : List Place) : KeepsFiles disk disk changed := fun _ _ => rfl

theorem trans (first : KeepsFiles before middle changed) (second : KeepsFiles middle after more) :
    KeepsFiles before after (changed ++ more) := by
  intro place other
  rw [List.mem_append, not_or] at other
  rw [second place other.2, first place other.1]

end KeepsFiles

section SetAt

variable {disk : Disk} {place : Place} {item : Option Item}

theorem fileAt?_setAt (ordered : disk.IsOrdered) (inside : place ≠ [])
    (above : disk.HoldsFolder place.dropLast) (noFolder : ¬ disk.HoldsFolder place)
    (fresh : ∀ inner, item = some inner → IsFresh inner) (time : Nat) (other : Place) :
    (disk.setAt place item time).fileAt? other =
      if other = place then item.filter Item.isFile else disk.fileAt? other := by
  have shown := shownAt?_setAt ordered inside above noFolder fresh time other
  change ((disk.setAt place item time).shownAt? other).filter Item.isFile = _
  rw [shown]
  split
  · cases item with
    | none => rfl
    | some inner => cases inner <;> rfl
  · rfl

theorem keepsFiles_setAt (ordered : disk.IsOrdered) (inside : place ≠ [])
    (above : disk.HoldsFolder place.dropLast) (noFolder : ¬ disk.HoldsFolder place)
    (fresh : ∀ inner, item = some inner → IsFresh inner) (time : Nat) :
    KeepsFiles disk (disk.setAt place item time) [place] := by
  intro other different
  rw [fileAt?_setAt ordered inside above noFolder fresh, if_neg (by simpa using different)]

/-- A new folder is no file. -/
theorem keepsFiles_setAt_folder (ordered : disk.IsOrdered) (inside : place ≠ [])
    (above : disk.HoldsFolder place.dropLast) (nothing : disk.itemAt? place = none) (time : Nat) :
    KeepsFiles disk (disk.setAt place (some (.folder [] time)) time) [] := by
  have noFolder : ¬ disk.HoldsFolder place := by
    intro folder
    obtain ⟨entries, modified, found⟩ := holdsFolder_iff.mp folder
    rw [nothing] at found
    cases found
  have fresh : ∀ inner, some (Item.folder [] time) = some inner → IsFresh inner := by
    rintro inner ⟨⟩
    rfl
  intro other _
  rw [fileAt?_setAt ordered inside above noFolder fresh]
  split
  · rename_i same
    have empty : disk.fileAt? place = none := by
      change ((disk.itemAt? place).map surface).filter Item.isFile = none
      rw [nothing]
      rfl
    rw [same, empty]
    rfl
  · rfl

end SetAt

end Disk

end WorkspaceBuild
