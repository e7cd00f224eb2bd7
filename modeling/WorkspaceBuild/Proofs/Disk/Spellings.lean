import WorkspaceBuild.Package.Descriptor
import WorkspaceBuild.Proofs.Disk.Files
import WorkspaceBuild.Proofs.Path.Parents
import WorkspaceBuild.Proofs.Results

/-! # Spellings of a place

Paths with the same components find the same folders, and the same files in them. Below a folder
plain names lead to what it holds under them.
-/

namespace WorkspaceBuild

namespace Place

/-- Where components lead from a place. Both are in reverse. -/
def under (place : Place) : List Path.Component → Place
  | [] => place
  | .name name :: rest => under (name :: place) rest
  | .parent :: rest => under place.tail rest
  | _ :: rest => under place rest

theorem follow_eq_under (place : Place) (pieces : List String) :
    follow place pieces = under place (pieces.filterMap Path.componentOf) := by
  induction pieces generalizing place with
  | nil => rfl
  | cons piece rest ih =>
      rw [follow]
      split
      · rename_i void
        rw [ih, List.filterMap_cons_none (by simp [Path.componentOf, void])]
      · rename_i notVoid
        split
        · rename_i parent
          rw [ih, List.filterMap_cons_some (b := .parent) (by simp [Path.componentOf, parent, Path.isVoid])]
          rfl
        · rename_i notParent
          rw [ih, List.filterMap_cons_some (b := .name piece) (by
            simp [Path.componentOf, notVoid, notParent])]
          rfl

theorem under_append (place : Place) (first second : List Path.Component) :
    under place (first ++ second) = under (under place first) second := by
  induction first generalizing place with
  | nil => rfl
  | cons c rest ih => cases c <;> exact ih _

theorem along_append (place : Place) (first second : List Path.Component) :
    along place (first ++ second) = along place first ++ along (under place first) second := by
  induction first generalizing place with
  | nil => rfl
  | cons c rest ih =>
      cases c with
      | name name => exact congrArg (_ :: ·) (ih _)
      | root => exact ih _
      | current => exact ih _
      | parent => exact ih _

theorem under_names (place : Place) (names : List String) :
    under place (names.map .name) = names.reverse ++ place := by
  induction names generalizing place with
  | nil => rfl
  | cons name rest ih =>
      rw [List.reverse_cons, List.append_assoc]
      exact ih (name :: place)

theorem mem_along_names {place other : Place} {names : List String}
    (member : other ∈ along place (names.map .name)) :
    ∃ start, start <+: names ∧ other = place.reverse ++ start := by
  induction names generalizing place with
  | nil => cases member
  | cons name rest ih =>
      rcases List.mem_cons.mp member with rfl | later
      · exact ⟨[name], ⟨rest, rfl⟩, by simp⟩
      · obtain ⟨start, ⟨more, rfl⟩, rfl⟩ := ih later
        exact ⟨name :: start, ⟨more, rfl⟩, by simp⟩

end Place

namespace Path

variable {path other base : Path} {names : List String}

theorem target_eq_under (absolute : path.isAbsolute = true) :
    path.target = (Place.under [] path.components).reverse := by
  obtain ⟨marks, split⟩ := pieces_of_isAbsolute absolute
  rw [target, pieces, split, components, marks, Place.follow_eq_under]
  rfl

/-- Names below a path lead to what is under them at its target. -/
theorem target_of_below (absolute : base.isAbsolute = true)
    (below : path.components = base.components ++ names.map Component.name) :
    path.target = base.target ++ names := by
  have pathAbsolute : path.isAbsolute = true := by
    rw [← root_mem_components_iff, below]
    exact List.mem_append_left _ (root_mem_components_iff.mpr absolute)
  rw [target_eq_under pathAbsolute, target_eq_under absolute, below, Place.under_append,
    Place.under_names, List.reverse_append, List.reverse_reverse]

/-- The way of names below a path is its trail, and then the places in between. -/
theorem way_join_spell {folders : List String} {last : String} (absolute : base.isAbsolute = true)
    (plain : ∀ name ∈ folders ++ [last], IsPlain name) :
    (base.join (spell (folders ++ [last]))).way =
      base.trail ++ Place.along base.target.reverse (folders.map .name) := by
  have some := text_ne_empty absolute
  have joined := components_join_spell base plain
  have pathAbsolute : (base.join (spell (folders ++ [last]))).isAbsolute = true := by
    rw [isAbsolute_join (isAbsolute_spell plain) some]
    exact absolute
  have named : (base.join (spell (folders ++ [last]))).EndsInName := by
    obtain ⟨before, _, _, _, _, split⟩ := pieces_join (isAbsolute_spell plain) some
    rw [pieces_spell (by simp) plain, ← List.append_assoc] at split
    have plainLast := plain last (by simp)
    refine ⟨last, ?_, plainLast.notVoid, plainLast.notParent⟩
    rw [pieces, split, List.getLast?_concat]
  have whole := named.trail_eq.1
  rw [trail_eq_along pathAbsolute, joined, List.map_append, List.map_singleton,
    ← List.append_assoc, Place.along_append, Place.along_append, Place.under_append,
    Place.under_names, ← trail_eq_along absolute] at whole
  rw [target_eq_under absolute, List.reverse_reverse]
  have ending : Place.along (folders.reverse ++ Place.under [] base.components) [.name last] =
      [(base.join (spell (folders ++ [last]))).target] := by
    rw [target_of_below absolute joined, target_eq_under absolute]
    simp [Place.along]
  rw [ending] at whole
  exact (List.append_cancel_right whole).symm

end Path

namespace Disk

variable {disk : Disk} {path other base : Path} {name : String} {names : List String}

theorem HoldsFolder.of_append {place more : Place} (holds : disk.Holds (place ++ more))
    (some : more ≠ []) : disk.HoldsFolder place := by
  induction more using List.reverseRec with
  | nil => exact absurd rfl some
  | append_singleton more last ih =>
      have above : disk.HoldsFolder (place ++ more) := by
        have dropped := holds.above (by simp)
        rwa [← List.append_assoc, List.dropLast_concat] at dropped
      cases more with
      | nil => rwa [List.append_nil] at above
      | cons first rest => exact ih above.holds (List.cons_ne_nil _ _)

theorem isFolder_spelled (same : path.components = other.components)
    (found : disk.isFolder path = true) : disk.isFolder other = true :=
  (isFolder_congr (decide_eq_true same.symm)).trans found

/-- Paths with the same components that find something find the same. -/
theorem item_respelled {item : Item} (same : path.components = other.components)
    (found : disk.item path = .ok item) (there : disk.exists? other = true) :
    disk.item other = .ok item := by
  obtain ⟨reaches, atTarget⟩ := item_eq_ok_iff.mp found
  obtain ⟨item', there⟩ := Option.isSome_iff_exists.mp there
  have named := eq_ok_of_toOption there
  have alike : other.target = path.target := by
    rw [Path.target_eq_under reaches.1,
      Path.target_eq_under (Path.isAbsolute_congr same ▸ reaches.1), same]
  have found' := (item_eq_ok_iff.mp named).2
  rw [alike, atTarget] at found'
  cases found'
  exact named

/-- A folder is found by any path with its components. -/
theorem item_spelled {entries : List (String × Item)} {modified : Nat}
    (same : path.components = other.components)
    (found : disk.item path = .ok (.folder entries modified)) :
    disk.item other = .ok (.folder entries modified) :=
  item_respelled same found (exists?_of_isFolder (isFolder_spelled same (isFolder_of_item found)))

/-- What names below a folder lead to is a file just when the folder holds a file under them. -/
theorem isFile_join_spell {entries : List (String × Item)} {modified : Nat}
    (found : disk.item base = .ok (.folder entries modified))
    (plain : ∀ name ∈ names, Path.IsPlain name) (some : names ≠ []) :
    disk.isFile (base.join (Path.spell names)) = (fileIn? entries names).isSome := by
  obtain ⟨absolute, trail⟩ := isFolder_iff.mp (isFolder_of_item found)
  have there := (item_eq_ok_iff.mp found).2
  have target := Path.target_of_below absolute (Path.components_join_spell base plain)
  rw [Bool.eq_iff_iff, ← fileAt?_append there some, ← kindAt?_eq_true_iff, isFile, exists_item_iff,
    target]
  constructor
  · rintro ⟨_, item, held, file⟩
    change (disk.itemAt? _).map Item.isFile = _
    rw [held, Option.map_some, file]
  · intro kind
    have holds : disk.Holds (base.target ++ names) := by
      rw [Holds, kind]
      rfl
    obtain ⟨item, held⟩ := holds_iff.mp holds
    refine ⟨⟨?_, fun place member => ?_⟩, item, held, ?_⟩
    · rw [Path.isAbsolute_join (Path.isAbsolute_spell plain) (Path.text_ne_empty absolute)]
      exact absolute
    · obtain ⟨folders, last, rfl⟩ := List.eq_nil_or_concat names |>.resolve_left some
      rw [List.concat_eq_append] at *
      rw [Path.way_join_spell absolute plain, List.mem_append] at member
      rcases member with above | between
      · exact trail place above
      · obtain ⟨start, ⟨more, rfl⟩, rfl⟩ := Place.mem_along_names between
        rw [List.reverse_reverse]
        have further : disk.Holds ((base.target ++ start) ++ (more ++ [last])) := by
          simpa using holds
        exact .of_append further (by simp)
    · change (disk.itemAt? _).map Item.isFile = _ at kind
      rw [held, Option.map_some] at kind
      exact Option.some_inj.mp kind

theorem contents?_eq_some_iff {contents : Contents} : disk.contents? path = some contents ↔
    ∃ time, disk.item path = .ok (.file contents time) := by
  rw [contents?, read]
  cases disk.item path with
  | error fault => simp [bind, Except.bind, Except.toOption]
  | ok item => cases item <;> simp [bind, Except.bind, Except.toOption]

/-- A file is found in its folder by any spelling of the folder. -/
theorem contents?_spelled (same : path.components = other.components) (plain : Path.IsPlain name)
    {contents : Contents} (found : disk.contents? (path.join name) = some contents) :
    disk.contents? (other.join name) = some contents := by
  obtain ⟨time, found⟩ := contents?_eq_some_iff.mp found
  obtain ⟨reaches, there⟩ := item_eq_ok_iff.mp found
  have relative := Path.isAbsolute_of_noSlash plain.noSlash
  have folder : disk.isFolder path = true := by
    refine isFolder_of_exists? relative ?_
    rw [exists?, found]
    rfl
  have absolute := (isFolder_iff.mp folder).1
  obtain ⟨alsoAbsolute, trail⟩ := isFolder_iff.mp (isFolder_spelled same folder)
  have alsoSome := Path.text_ne_empty alsoAbsolute
  refine contents?_eq_some_iff.mpr ⟨time, item_eq_ok_iff.mpr ⟨⟨?_, ?_⟩, ?_⟩⟩
  · rw [Path.isAbsolute_join relative alsoSome]
    exact alsoAbsolute
  · rw [(Path.join_plain plain alsoSome).1]
    exact trail
  · rw [(Path.join_plain plain alsoSome).2.1, ← there,
      (Path.join_plain plain (Path.text_ne_empty absolute)).2.1, Path.target_eq_under absolute,
      Path.target_eq_under alsoAbsolute, same]

end Disk

namespace Descriptor

theorem isPlain_descriptorFile : Path.IsPlain descriptorFile := by
  refine ⟨?_, ?_, ?_⟩ <;> decide

theorem load_eq_ok_iff {disk : Disk} {folder : Path} {descriptor : Descriptor} :
    load disk folder = .ok descriptor ↔
      ∃ text, disk.contents? (folder.join descriptorFile) = some (.text text) ∧
        (Json.readLoosely? text).bind ofJson? = some descriptor := by
  rw [load, Disk.isFile_eq]
  cases found : disk.contents? (folder.join descriptorFile) with
  | none => simp
  | some contents =>
      rw [Option.isSome_some, if_pos rfl, Disk.readText, Disk.read_eq_ok_iff.mpr found]
      cases contents with
      | bytes bytes => simp [bind, Except.bind]
      | text text =>
          simp only [bind, Except.bind, parse]
          cases read : (Json.readLoosely? text).bind ofJson? <;> simp [read]

/-- A descriptor is read in its folder, which is there. -/
theorem isFolder_of_load {disk : Disk} {folder : Path} {descriptor : Descriptor}
    (loaded : load disk folder = .ok descriptor) :
    disk.isFolder folder = true ∧ disk.isFile (folder.join descriptorFile) = true := by
  obtain ⟨text, found, _⟩ := load_eq_ok_iff.mp loaded
  have file : disk.isFile (folder.join descriptorFile) = true := by
    rw [Disk.isFile_eq, found]
    rfl
  refine ⟨?_, file⟩
  by_contra absent
  have nothing := Disk.contents?_eq_none
    (Path.isAbsolute_of_noSlash isPlain_descriptorFile.noSlash) (Bool.not_eq_true _ ▸ absent)
  rw [nothing] at found
  cases found

/-- A package has one descriptor and one name, however its folder is spelled. -/
theorem load_spelled {disk : Disk} {folder other : Path} {descriptor : Descriptor}
    (same : folder.components = other.components) (loaded : load disk folder = .ok descriptor) :
    load disk other = .ok descriptor ∧ descriptor.nameOr other = descriptor.nameOr folder := by
  obtain ⟨text, found, read⟩ := load_eq_ok_iff.mp loaded
  refine ⟨load_eq_ok_iff.mpr ⟨text, Disk.contents?_spelled same isPlain_descriptorFile found, read⟩, ?_⟩
  rw [nameOr, nameOr, Path.fileName?, Path.fileName?, same]

end Descriptor

end WorkspaceBuild
