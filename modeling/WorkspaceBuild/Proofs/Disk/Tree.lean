import WorkspaceBuild.Disk
import WorkspaceBuild.Proofs.Assoc
import Mathlib.Data.String.Basic

/-! # Items of a disk after a change

A file, or a folder that is still empty, is put at a place whose folder exists, or a file is taken
away from it. Then the disk holds at this place what was put there, and at every other place what it
held before.
-/

namespace WorkspaceBuild

namespace Item

mutual

/-- All folders hold their items ascending by name. -/
def IsOrdered : Item → Prop
  | .file .. => True
  | .folder entries _ => (entries.map Prod.fst).Pairwise (· < ·) ∧ AreOrdered entries

/-- The items of several names are ordered. -/
def AreOrdered : List (String × Item) → Prop
  | [] => True
  | (_, item) :: rest => IsOrdered item ∧ AreOrdered rest

end

mutual

/-- Whether an item is ordered can be computed. -/
def decideOrdered : (item : Item) → Decidable item.IsOrdered
  | .file .. => inferInstanceAs (Decidable True)
  | .folder entries _ =>
      have := decideAllOrdered entries
      inferInstanceAs (Decidable ((entries.map Prod.fst).Pairwise (· < ·) ∧ AreOrdered entries))

/-- Whether several items are ordered can be computed. -/
def decideAllOrdered : (entries : List (String × Item)) → Decidable (AreOrdered entries)
  | [] => inferInstanceAs (Decidable True)
  | (_, item) :: rest =>
      have := decideOrdered item
      have := decideAllOrdered rest
      inferInstanceAs (Decidable (IsOrdered item ∧ AreOrdered rest))

end

instance (item : Item) : Decidable item.IsOrdered := decideOrdered item

mutual

/-- Whether items are the same can be computed. -/
def decideEq : (first second : Item) → Decidable (first = second)
  | .file contents time, .file others otherTime =>
      decidable_of_iff (contents = others ∧ time = otherTime) (by rw [Item.file.injEq])
  | .folder entries time, .folder others otherTime =>
      have := decideAllEq entries others
      decidable_of_iff (entries = others ∧ time = otherTime) (by rw [Item.folder.injEq])
  | .file .., .folder .. => .isFalse fun same => by cases same
  | .folder .., .file .. => .isFalse fun same => by cases same

/-- Whether several items are the same can be computed. -/
def decideAllEq : (first second : List (String × Item)) → Decidable (first = second)
  | [], [] => .isTrue rfl
  | [], _ :: _ => .isFalse fun same => by cases same
  | _ :: _, [] => .isFalse fun same => by cases same
  | (name, item) :: rest, (otherName, other) :: others =>
      have := decideEq item other
      have := decideAllEq rest others
      decidable_of_iff (name = otherName ∧ item = other ∧ rest = others)
        (by rw [List.cons.injEq, Prod.mk.injEq, and_assoc])

end

instance : DecidableEq Item := decideEq

/-- The names of a folder ascend. -/
def NamesAscend (entries : List (String × Item)) : Prop := (entries.map Prod.fst).Pairwise (· < ·)

/-- What a folder holds stands in order, and so on below it. -/
def InOrder (entries : List (String × Item)) : Prop := NamesAscend entries ∧ AreOrdered entries

section Children

variable {entries : List (String × Item)}

theorem areOrdered_iff : AreOrdered entries ↔ ∀ pair ∈ entries, pair.2.IsOrdered := by
  induction entries with
  | nil => simp [AreOrdered]
  | cons pair rest ih => simp [AreOrdered, ih]

theorem child?_cons (first : String) (item : Item) (name : String) :
    child? ((first, item) :: entries) name =
      if name = first then some item else child? entries name := by
  change Assoc.get? ((first, item) :: entries) name = _
  rw [Assoc.get?_cons]
  simp only [beq_iff_eq]
  rfl

theorem child?_eq_none {name : String} (above : ∀ other ∈ Assoc.keys entries, name < other) :
    child? entries name = none :=
  Assoc.get?_eq_none_iff.mpr fun member => lt_irrefl name (above name member)

theorem IsOrdered.child? {name : String} {item : Item} (ordered : AreOrdered entries)
    (found : child? entries name = some item) : item.IsOrdered :=
  areOrdered_iff.mp ordered _ (Assoc.mem_of_get? found)

/-- Putting an item under a name, or taking it away, changes what is under this name alone. -/
theorem child?_setChild (ascend : NamesAscend entries) (name : String) (item : Option Item)
    (other : String) :
    child? (setChild name item entries) other =
      if other = name then item else child? entries other := by
  induction entries with
  | nil =>
      cases item with
      | none => simp [setChild, child?]
      | some item => simp [setChild, child?_cons]
  | cons pair rest ih =>
      obtain ⟨first, present⟩ := pair
      obtain ⟨lower, tail⟩ := List.pairwise_cons.mp ascend
      rw [setChild]
      split
      · rename_i less
        have absent : child? ((first, present) :: rest) name = none := by
          refine child?_eq_none fun o member => ?_
          rcases List.mem_cons.mp member with rfl | member
          · exact less
          · exact less.trans (lower o member)
        cases item with
        | some item => simp [child?_cons]
        | none =>
            by_cases same : other = name
            · simpa [same] using absent
            · simp [same]
      · split
        · rename_i same
          subst same
          have absent : child? rest name = none := child?_eq_none lower
          cases item with
          | some item => by_cases same : other = name <;> simp [child?_cons, same]
          | none =>
              by_cases same : other = name
              · simpa [same] using absent
              · simp [child?_cons, same]
        · rename_i different
          rw [child?_cons, child?_cons, ih tail]
          by_cases same : other = first
          · subst same
            simp [Ne.symm different]
          · simp [same]

theorem mem_setChild {name : String} {item : Option Item} {pair : String × Item}
    (member : pair ∈ setChild name item entries) : some pair = item.map (name, ·) ∨ pair ∈ entries := by
  induction entries with
  | nil =>
      cases item with
      | none => simp [setChild] at member
      | some item => simpa [setChild] using member
  | cons first rest ih =>
      obtain ⟨other, present⟩ := first
      rw [setChild] at member
      split at member
      · rcases List.mem_append.mp member with new | old
        · exact .inl (Option.mem_toList.mp new).symm
        · exact .inr old
      · split at member
        · rcases List.mem_append.mp member with new | old
          · exact .inl (Option.mem_toList.mp new).symm
          · exact .inr (List.mem_cons_of_mem _ old)
        · rcases List.mem_cons.mp member with rfl | member
          · exact .inr List.mem_cons_self
          · exact (ih member).imp_right (List.mem_cons_of_mem _)

theorem namesAscend_setChild (ascend : NamesAscend entries) (name : String) (item : Option Item) :
    NamesAscend (setChild name item entries) := by
  induction entries with
  | nil => cases item <;> simp [setChild, NamesAscend]
  | cons pair rest ih =>
      obtain ⟨first, present⟩ := pair
      obtain ⟨lower, tail⟩ := List.pairwise_cons.mp ascend
      rw [setChild]
      split
      · rename_i less
        cases item with
        | none => exact ascend
        | some item =>
            refine ascend.cons fun other member => ?_
            rcases List.mem_cons.mp member with rfl | member
            · exact less
            · exact less.trans (lower other member)
      · split
        · rename_i same
          subst same
          cases item with
          | none => exact tail
          | some item => exact tail.cons lower
        · rename_i notLess different
          refine (ih tail).cons fun other member => ?_
          obtain ⟨pair, present, rfl⟩ := List.mem_map.mp member
          rcases mem_setChild present with new | old
          · cases item with
            | none => cases new
            | some item =>
                obtain rfl := Option.some_inj.mp new
                exact lt_of_le_of_ne (not_lt.mp notLess) (Ne.symm different)
          · exact lower pair.1 (List.mem_map_of_mem old)

theorem areOrdered_setChild (ordered : AreOrdered entries) {name : String} {item : Option Item}
    (new : ∀ inner, item = some inner → inner.IsOrdered) :
    AreOrdered (setChild name item entries) := by
  rw [areOrdered_iff] at ordered ⊢
  intro pair member
  rcases mem_setChild member with put | old
  · cases item with
    | none => cases put
    | some item =>
        obtain rfl := Option.some_inj.mp put
        exact new item rfl
  · exact ordered pair old

end Children

end Item

namespace Disk

instance : DecidableEq Disk := fun disk other =>
  decidable_of_iff (disk.entries = other.entries) (by cases disk; cases other; rw [Disk.mk.injEq])

/-- All folders of a disk hold their items ascending by name. -/
def IsOrdered (disk : Disk) : Prop := Item.InOrder disk.entries

instance (disk : Disk) : Decidable disk.IsOrdered :=
  inferInstanceAs (Decidable (Item.folder disk.entries 0).IsOrdered)

/-- Whether there is a file at names below several items; none when there is nothing. -/
def kindIn? (entries : List (String × Item)) (place : Place) : Option Bool :=
  (itemIn? entries place).map Item.isFile

/-- Whether there is a file at a place; none when there is nothing. -/
def kindAt? (disk : Disk) (place : Place) : Option Bool := kindIn? disk.entries place

/-- There is something at a place. -/
def Holds (disk : Disk) (place : Place) : Prop := (disk.kindAt? place).isSome

/-- There is a folder at a place. -/
def HoldsFolder (disk : Disk) (place : Place) : Prop := disk.kindAt? place = some false

/-- A file, or a folder that is empty. -/
def IsFresh : Item → Prop
  | .file .. => True
  | .folder entries _ => entries = []

/-- What a look at an item shows: all of a file, but nothing in a folder. -/
def surface : Item → Item
  | .file contents modified => .file contents modified
  | .folder .. => .folder [] 0

/-- What shows at names below several items. -/
def shownIn? (entries : List (String × Item)) (place : Place) : Option Item :=
  (itemIn? entries place).map surface

/-- What shows at a place. -/
def shownAt? (disk : Disk) (place : Place) : Option Item := shownIn? disk.entries place

/-- What shows at names below an item. -/
def below? (item : Item) : Place → Option Item
  | [] => some (surface item)
  | next :: rest =>
      match item with
      | .folder inner _ => shownIn? inner (next :: rest)
      | .file .. => none

section Changes

variable {entries : List (String × Item)} {item : Option Item} {time : Nat}

@[simp] theorem isFile_surface (item : Item) : (surface item).isFile = item.isFile := by
  cases item <;> rfl

theorem kindIn?_eq (entries : List (String × Item)) (place : Place) :
    kindIn? entries place = (shownIn? entries place).map Item.isFile := by
  simp [kindIn?, shownIn?, Function.comp_def]

theorem shownIn?_cons (name : String) (rest : Place) :
    shownIn? entries (name :: rest) = (Item.child? entries name).bind (below? · rest) := by
  cases rest with
  | nil =>
      rw [shownIn?, itemIn?]
      cases Item.child? entries name <;> rfl
  | cons next rest =>
      rw [shownIn?, itemIn?]
      · cases Item.child? entries name with
        | none => rfl
        | some item => cases item <;> rfl
      · exact List.cons_ne_nil _ _

theorem kindIn?_cons (name : String) (rest : Place) : kindIn? entries (name :: rest) =
    (Item.child? entries name).bind fun item => (below? item rest).map Item.isFile := by
  rw [kindIn?_eq, shownIn?_cons, Option.map_bind]
  rfl

theorem map_isFile_below? (inner : List (String × Item)) (modified : Nat) (place : Place) :
    (below? (.folder inner modified) place).map Item.isFile = kindIn? inner place := by
  cases place with
  | nil => rfl
  | cons next rest => exact (kindIn?_eq inner _).symm

/-- Below the name of a folder is what the folder holds. -/
theorem kindIn?_of_folder {name : String} {inner : List (String × Item)} {modified : Nat}
    (present : Item.child? entries name = some (.folder inner modified)) (place : Place) :
    kindIn? entries (name :: place) = kindIn? inner place := by
  rw [kindIn?_cons, present, Option.bind_some, map_isFile_below?]

/-- Where there is a folder, each name that leads to it is one of a folder. -/
theorem child?_of_folder_above {name next : String} {rest : Place}
    (above : kindIn? entries (name :: next :: rest).dropLast = some false) :
    ∃ inner modified, Item.child? entries name = some (.folder inner modified) ∧
      kindIn? inner (next :: rest).dropLast = some false := by
  rw [List.dropLast_cons_cons, kindIn?_cons, Option.bind_eq_some_iff] at above
  obtain ⟨found, present, isFolder⟩ := above
  cases found with
  | file contents modified => cases rest <;> cases isFolder
  | folder inner modified =>
      rw [map_isFile_below?] at isFolder
      exact ⟨inner, modified, present, isFolder⟩

/-- What is somewhere is in a folder. -/
theorem kindIn?_dropLast {place : Place} (inside : place ≠ [])
    (present : (kindIn? entries place).isSome) : kindIn? entries place.dropLast = some false := by
  induction place generalizing entries with
  | nil => exact absurd rfl inside
  | cons name rest ih =>
      cases rest with
      | nil => rfl
      | cons next rest =>
          rw [kindIn?_cons, Option.isSome_bind, Option.any_eq_true] at present
          obtain ⟨item, found, below⟩ := present
          cases item with
          | file contents modified => cases below
          | folder inner modified =>
              rw [map_isFile_below?] at below
              rw [List.dropLast_cons_cons, kindIn?_of_folder found]
              exact ih (List.cons_ne_nil _ _) below

theorem setIn_cons {name : String} {inner : List (String × Item)} {modified : Nat}
    (present : Item.child? entries name = some (.folder inner modified)) (item : Option Item)
    (time : Nat) (next : String) (rest : Place) : ∃ changed, setIn entries item time (name :: next :: rest) =
      Item.setChild name (some (.folder (setIn inner item time (next :: rest)) changed)) entries := by
  rw [setIn]
  · rw [present]
    exact ⟨_, rfl⟩
  · exact List.cons_ne_nil _ _

theorem inOrder_setIn (ordered : Item.InOrder entries)
    (new : ∀ inner, item = some inner → inner.IsOrdered) (place : Place)
    (above : kindIn? entries place.dropLast = some false) :
    Item.InOrder (setIn entries item time place) := by
  induction place generalizing entries with
  | nil => exact ordered
  | cons name rest ih =>
      cases rest with
      | nil =>
          exact ⟨Item.namesAscend_setChild ordered.1 name item, Item.areOrdered_setChild ordered.2 new⟩
      | cons next rest =>
          obtain ⟨inner, modified, present, innerAbove⟩ := child?_of_folder_above above
          obtain ⟨changed, same⟩ := setIn_cons present item time next rest
          have innerOrdered : Item.InOrder (setIn inner item time (next :: rest)) :=
            ih (Item.IsOrdered.child? ordered.2 present) innerAbove
          rw [same]
          refine ⟨Item.namesAscend_setChild ordered.1 name _,
            Item.areOrdered_setChild ordered.2 fun put isPut => ?_⟩
          obtain rfl := Option.some_inj.mp isPut
          exact innerOrdered

/-- Nothing is below a file or an empty folder. -/
theorem below?_of_fresh {inner : Item} (fresh : IsFresh inner) (next : String) (rest : Place) :
    below? inner (next :: rest) = none := by
  cases inner with
  | file contents modified => rfl
  | folder entries modified =>
      obtain rfl : entries = [] := fresh
      exact shownIn?_cons next rest

/-- Putting something fresh at a place, or taking a file away from it, changes this place alone. -/
theorem shownIn?_setIn (ordered : Item.InOrder entries) (place : Place) (inside : place ≠ [])
    (above : kindIn? entries place.dropLast = some false)
    (noFolder : kindIn? entries place ≠ some false)
    (fresh : ∀ inner, item = some inner → IsFresh inner) (other : Place) :
    shownIn? (setIn entries item time place) other =
      if other = place then item.map surface else shownIn? entries other := by
  induction place generalizing entries other with
  | nil => exact absurd rfl inside
  | cons name rest ih =>
      cases other with
      | nil => simp [shownIn?, itemIn?, surface]
      | cons first others =>
          cases rest with
          | nil =>
              rw [setIn, shownIn?_cons, shownIn?_cons, Item.child?_setChild ordered.1]
              by_cases same : first = name
              · subst same
                cases others with
                | nil => cases item <;> simp [below?]
                | cons next others =>
                    have nothing : (Item.child? entries first).bind (below? · (next :: others)) = none := by
                      rw [kindIn?_cons] at noFolder
                      cases present : Item.child? entries first with
                      | none => rfl
                      | some found =>
                          cases found with
                          | file contents modified => rfl
                          | folder inner modified =>
                              simp [present, below?, surface, Item.isFile] at noFolder
                    cases item with
                    | none => simp [nothing]
                    | some put => simp [nothing, below?_of_fresh (fresh put rfl)]
              · simp [same]
          | cons next rest =>
              obtain ⟨inner, modified, present, innerAbove⟩ := child?_of_folder_above above
              obtain ⟨changed, put⟩ := setIn_cons present item time next rest
              rw [put, shownIn?_cons, shownIn?_cons, Item.child?_setChild ordered.1]
              by_cases same : first = name
              · subst same
                cases others with
                | nil => simp [present, below?, surface]
                | cons last others =>
                    rw [kindIn?_of_folder present] at noFolder
                    have innerOrdered : Item.InOrder inner := Item.IsOrdered.child? ordered.2 present
                    have changes := ih innerOrdered (List.cons_ne_nil _ _) innerAbove
                      noFolder (last :: others)
                    simpa [present, below?] using changes
              · simp [same]

end Changes

variable {disk : Disk}

theorem holdsFolder_iff {place : Place} : disk.HoldsFolder place ↔
    ∃ entries modified, disk.itemAt? place = some (.folder entries modified) := by
  change (disk.itemAt? place).map Item.isFile = some false ↔ _
  cases disk.itemAt? place with
  | none => simp
  | some item => cases item <;> simp [Item.isFile]

theorem holds_iff {place : Place} : disk.Holds place ↔ ∃ item, disk.itemAt? place = some item := by
  change ((disk.itemAt? place).map Item.isFile).isSome ↔ _
  rw [Option.isSome_map, Option.isSome_iff_exists]

theorem holdsFolder_root : disk.HoldsFolder [] := rfl

theorem Holds.above {place : Place} (h : disk.Holds place) (inside : place ≠ []) :
    disk.HoldsFolder place.dropLast := kindIn?_dropLast inside h

theorem HoldsFolder.holds {place : Place} (h : disk.HoldsFolder place) : disk.Holds place := by
  rw [Holds, h]
  rfl

theorem HoldsFolder.above {place : Place} (h : disk.HoldsFolder place) :
    disk.HoldsFolder place.dropLast := by
  cases place with
  | nil => rfl
  | cons name rest => exact h.holds.above (List.cons_ne_nil _ _)

theorem kindAt?_eq (disk : Disk) (place : Place) :
    disk.kindAt? place = (disk.shownAt? place).map Item.isFile := kindIn?_eq _ _

/-- What a change at one place leaves elsewhere: the form in which the operations use it. -/
theorem shownAt?_setAt (ordered : disk.IsOrdered) {place : Place} (inside : place ≠ [])
    (above : disk.HoldsFolder place.dropLast) (noFolder : ¬ disk.HoldsFolder place)
    {item : Option Item} (fresh : ∀ inner, item = some inner → IsFresh inner) (time : Nat)
    (other : Place) : (disk.setAt place item time).shownAt? other =
      if other = place then item.map surface else disk.shownAt? other :=
  shownIn?_setIn ordered place inside above noFolder fresh other

theorem kindAt?_setAt (ordered : disk.IsOrdered) {place : Place} (inside : place ≠ [])
    (above : disk.HoldsFolder place.dropLast) (noFolder : ¬ disk.HoldsFolder place)
    {item : Option Item} (fresh : ∀ inner, item = some inner → IsFresh inner) (time : Nat)
    (other : Place) : (disk.setAt place item time).kindAt? other =
      if other = place then item.map Item.isFile else disk.kindAt? other := by
  rw [kindAt?_eq, kindAt?_eq, shownAt?_setAt ordered inside above noFolder fresh]
  split <;> simp [Function.comp_def]

theorem isOrdered_setAt (ordered : disk.IsOrdered) {place : Place}
    (above : disk.HoldsFolder place.dropLast) {item : Option Item}
    (fresh : ∀ inner, item = some inner → IsFresh inner) (time : Nat) :
    (disk.setAt place item time).IsOrdered := by
  refine inOrder_setIn ordered (fun inner put => ?_) place above
  have plain := fresh inner put
  cases inner with
  | file contents modified => trivial
  | folder entries modified =>
      obtain rfl : entries = [] := plain
      exact ⟨List.Pairwise.nil, trivial⟩

end Disk

end WorkspaceBuild
