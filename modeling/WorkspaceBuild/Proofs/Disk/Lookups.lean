import WorkspaceBuild.Proofs.Disk.Changes
import WorkspaceBuild.Proofs.Path.Folding

/-! # Looking paths up

There is a folder at a path just when all of its trail are folders. So to find anything below a path
is to find a folder at it, and where folders stay they are found again.
-/

namespace WorkspaceBuild

namespace Place

/-- The places that components lead through. -/
def along (place : Place) : List Path.Component → List Place
  | [] => []
  | .name name :: rest => (name :: place).reverse :: along (name :: place) rest
  | .parent :: rest => along place.tail rest
  | _ :: rest => along place rest

theorem trail_eq_along (place : Place) (pieces : List String) :
    trail place pieces = along place (pieces.filterMap Path.componentOf) := by
  induction pieces generalizing place with
  | nil => rfl
  | cons piece rest ih =>
      rw [trail]
      split
      · rename_i void
        rw [ih, List.filterMap_cons_none (by simp [Path.componentOf, void])]
      · rename_i notVoid
        split
        · rename_i parent
          rw [ih, List.filterMap_cons_some (b := .parent) (by simp [Path.componentOf, parent, Path.isVoid])]
          rfl
        · rename_i notParent
          rw [ih, List.filterMap_cons_some (b := .name piece) (by
            simp [Path.componentOf, notVoid, notParent])]
          rfl

end Place

namespace Path

variable {path : Path} {further name : String}

/-- Pieces that say nothing change neither where a path leads nor its trail. -/
theorem follow_append_voids (place : Place) (before : List String) {voids : List String}
    (void : ∀ piece ∈ voids, isVoid piece = true) :
    Place.follow place (before ++ voids) = Place.follow place before ∧
      Place.trail place (before ++ voids) = Place.trail place before := by
  have nothing : ∀ place, Place.follow place voids = place ∧ Place.trail place voids = [] := by
    induction voids with
    | nil => exact fun place => ⟨rfl, rfl⟩
    | cons piece rest ih =>
        obtain ⟨here, later⟩ := List.forall_mem_cons.mp void
        intro place
        simp only [Place.follow, Place.trail, if_pos here]
        exact ih later place
  rw [Place.follow_append, Place.trail_append, (nothing _).1, (nothing _).2, List.append_nil]
  exact ⟨rfl, rfl⟩

/-- All of the trail of a path is on the way of a path that goes on from it. -/
theorem trail_subset_way_join (relative : isAbsolute ⟨further⟩ = false) (some : path.text ≠ "") :
    path.trail ⊆ (path.join further).way := by
  obtain ⟨before, voids, base, _, void, joined⟩ := pieces_join relative some
  have pieces : (path.join further).pieces = before ++ Text.pieces '/' further := joined
  have nonempty : Text.pieces '/' further ≠ [] := Text.pieces_ne_nil _ _
  intro place member
  rw [trail, show path.pieces = before ++ voids from base, (follow_append_voids [] before void).2]
    at member
  rw [way, pieces, List.dropLast_append_of_ne_nil nonempty, Place.trail_append]
  exact List.mem_append_left _ member

theorem isAbsolute_of_noSlash (noSlash : '/' ∉ name.toList) : isAbsolute ⟨name⟩ = false := by
  have same := isAbsolute_append "" noSlash
  rwa [String.empty_append] at same

/-- A plain name leads to what is held under it. -/
theorem join_plain (plain : IsPlain name) (some : path.text ≠ "") :
    (path.join name).way = path.trail ∧ (path.join name).target = path.target ++ [name] ∧
      (path.join name).trail = path.trail ++ [path.target ++ [name]] := by
  obtain ⟨before, voids, base, _, void, joined⟩ := pieces_join (isAbsolute_of_noSlash plain.noSlash) some
  obtain ⟨follows, trails⟩ := follow_append_voids [] before void
  rw [Text.pieces_eq_singleton plain.noSlash] at joined
  have pieces : (path.join name).pieces = before ++ [name] := joined
  have basePieces : path.pieces = before ++ voids := base
  have target : path.target = (Place.follow [] before).reverse := by
    rw [Path.target, basePieces, follows]
  have notVoid := plain.notVoid
  have notParent := plain.notParent
  refine ⟨?_, ?_, ?_⟩
  · rw [way, pieces, List.dropLast_concat, trail, basePieces, trails]
  · rw [Path.target, pieces, Place.follow_append, target]
    simp [Place.follow, notVoid, notParent]
  · rw [trail, trail, pieces, basePieces, trails, Place.trail_append, target]
    simp [Place.trail, notVoid, notParent]

/-- A path starts at the root just when its components say so. -/
theorem root_mem_components_iff : Component.root ∈ path.components ↔ path.isAbsolute = true := by
  have noRoot (parts : List String) : Component.root ∉ parts.filterMap componentOf := by
    rw [List.mem_filterMap]
    rintro ⟨piece, _, same⟩
    rw [componentOf] at same
    split at same
    · cases same
    · split at same <;> cases same
  rw [components, List.mem_append, or_iff_left (noRoot _)]
  cases absolute : path.isAbsolute with
  | true => simp [(pieces_of_isAbsolute absolute).1]
  | false =>
      simp only [marked, absolute]
      split
      · simp
      · rw [if_neg Bool.false_ne_true]
        split <;> simp

/-- The trail of a path goes by its components. -/
theorem trail_eq_along (absolute : path.isAbsolute = true) :
    path.trail = Place.along [] path.components := by
  obtain ⟨marks, split⟩ := pieces_of_isAbsolute absolute
  rw [trail, pieces, split, components, marks, Place.trail_eq_along]
  rfl

theorem text_ne_empty (absolute : path.isAbsolute = true) : path.text ≠ "" := by
  intro empty
  rw [isAbsolute, empty] at absolute
  cases absolute

end Path

namespace Disk

variable {disk : Disk} {path : Path} {further name : String}

/-- What a path finds is what is at its target, once its way is there. -/
theorem exists_item_iff {p : Item → Bool} : (disk.item path).toOption.any p = true ↔
    disk.Reaches path ∧ ∃ item, disk.itemAt? path.target = some item ∧ p item = true := by
  rw [Option.any_eq_true]
  constructor
  · rintro ⟨item, found, holds⟩
    cases looked : disk.item path with
    | error fault =>
        rw [looked] at found
        cases found
    | ok other =>
        rw [looked] at found
        cases found
        obtain ⟨reaches, there⟩ := item_eq_ok_iff.mp looked
        exact ⟨reaches, item, there, holds⟩
  · rintro ⟨reaches, item, there, holds⟩
    exact ⟨item, by rw [item_eq_ok_iff.mpr ⟨reaches, there⟩]; rfl, holds⟩

/-- There is a folder at a path when all of its trail are folders. -/
theorem isFolder_iff : disk.isFolder path = true ↔
    path.isAbsolute = true ∧ ∀ place ∈ path.trail, disk.HoldsFolder place := by
  rw [isFolder, exists_item_iff]
  constructor
  · rintro ⟨reaches, item, there, folder⟩
    have target : disk.HoldsFolder path.target := by
      rw [HoldsFolder, kindAt?, kindIn?, ← itemAt?, there]
      simpa [Item.isFolder] using folder
    refine ⟨reaches.1, fun place member => ?_⟩
    obtain ⟨last, split, isLast⟩ := path.pieces_eq_append
    by_cases named : path.EndsInName
    · rw [named.trail_eq.1, List.mem_append, List.mem_singleton] at member
      rcases member with onWay | rfl
      · exact reaches.2 place onWay
      · exact target
    · -- the last piece says nothing of its own
      rw [Path.trail, split, Place.trail_append, List.mem_append] at member
      refine reaches.2 place (member.resolve_right fun behind => ?_)
      simp only [Place.trail] at behind
      split at behind
      · cases behind
      · rename_i notVoid
        split at behind
        · cases behind
        · rename_i notParent
          exact named ⟨last, isLast, by simpa using notVoid, notParent⟩
  · rintro ⟨absolute, all⟩
    have entered : disk.enter [] path.pieces = .ok (Place.follow [] path.pieces) :=
      enter_eq_ok_iff.mpr ⟨rfl, all⟩
    have target : disk.HoldsFolder path.target := HoldsFolder.follow (by exact holdsFolder_root) entered
    obtain ⟨entries, modified, there⟩ := holdsFolder_iff.mp target
    exact ⟨⟨absolute, fun place member => all place (path.way_subset_trail member)⟩, _, there, rfl⟩

theorem isFolder_congr {other : Path} (same : path.same other = true) :
    disk.isFolder path = disk.isFolder other := by
  have alike : path.components = other.components := of_decide_eq_true same
  have absolute : path.isAbsolute = true ↔ other.isAbsolute = true := by
    rw [← Path.root_mem_components_iff, ← Path.root_mem_components_iff, alike]
  rw [Bool.eq_iff_iff, isFolder_iff, isFolder_iff, absolute]
  refine and_congr_right fun holds => ?_
  rw [Path.trail_eq_along holds, Path.trail_eq_along (absolute.mpr holds), alike]

theorem reaches_of_exists? (found : disk.exists? path = true) : disk.Reaches path := by
  rw [exists?, Option.isSome_iff_exists] at found
  obtain ⟨item, found⟩ := found
  have any : (disk.item path).toOption.any (fun _ => true) = true := by
    rw [found]
    rfl
  exact (exists_item_iff.mp any).1

theorem exists?_of_isFolder (found : disk.isFolder path = true) : disk.exists? path = true := by
  rw [isFolder, Option.any_eq_true] at found
  obtain ⟨item, there, _⟩ := found
  rw [exists?, there]
  rfl

/-- Nothing is found below a path but in a folder. -/
theorem isFolder_of_exists? (relative : Path.isAbsolute ⟨further⟩ = false)
    (found : disk.exists? (path.join further) = true) : disk.isFolder path = true := by
  have reaches := reaches_of_exists? found
  have some : path.text ≠ "" := by
    intro empty
    have joined : path.join further = ⟨further⟩ := by
      rw [Path.join, relative, empty]
      simp
    rw [joined, Reaches, relative] at reaches
    exact absurd reaches.1 Bool.false_ne_true
  have absolute : path.isAbsolute = true := (Path.isAbsolute_join relative some).symm.trans reaches.1
  exact isFolder_iff.mpr ⟨absolute, fun _ member =>
    reaches.2 _ (Path.trail_subset_way_join relative some member)⟩

/-- What is at a path behind a name is what the folder before it holds under this name. -/
theorem itemAt?_join {entries : List (String × Item)} {modified : Nat}
    (found : disk.isFolder path = true)
    (there : disk.itemAt? path.target = some (.folder entries modified)) (plain : Path.IsPlain name) :
    disk.itemAt? (path.join name).target = Item.child? entries name := by
  have some := Path.text_ne_empty (isFolder_iff.mp found).1
  rw [(Path.join_plain plain some).2.1]
  exact itemIn?_append there (List.cons_ne_nil _ _)

theorem isFolder_join_iff {entries : List (String × Item)} {modified : Nat}
    (found : disk.isFolder path = true)
    (there : disk.itemAt? path.target = some (.folder entries modified)) (plain : Path.IsPlain name) :
    disk.isFolder (path.join name) = true ↔
      ∃ inner time, Item.child? entries name = some (.folder inner time) := by
  obtain ⟨absolute, all⟩ := isFolder_iff.mp found
  have some := Path.text_ne_empty absolute
  obtain ⟨_, target, trail⟩ := Path.join_plain plain some
  rw [← itemAt?_join found there plain, ← holdsFolder_iff, isFolder_iff, trail, target,
    Path.isAbsolute_join (Path.isAbsolute_of_noSlash plain.noSlash) some, and_iff_right absolute,
    List.forall_mem_append, and_iff_right all, List.forall_mem_singleton]

theorem exists_entries_of_isFolder (found : disk.isFolder path = true) :
    ∃ entries modified, disk.item path = .ok (.folder entries modified) ∧
      disk.itemAt? path.target = some (.folder entries modified) := by
  obtain ⟨reaches, item, there, folder⟩ := exists_item_iff.mp found
  cases item with
  | file contents time => cases folder
  | folder entries modified =>
      exact ⟨entries, modified, item_eq_ok_iff.mpr ⟨reaches, there⟩, there⟩

theorem isFolder_of_item {entries : List (String × Item)} {modified : Nat}
    (found : disk.item path = .ok (.folder entries modified)) : disk.isFolder path = true := by
  rw [isFolder, found]
  rfl

/-- What the file at a path holds; none when there is no file. -/
def contents? (disk : Disk) (path : Path) : Option Contents := (disk.read path).toOption

theorem isFile_eq (disk : Disk) (path : Path) : disk.isFile path = (disk.contents? path).isSome := by
  rw [isFile, contents?, read]
  cases disk.item path with
  | error fault => rfl
  | ok item => cases item <;> rfl

theorem read_eq_ok_iff {contents : Contents} :
    disk.read path = .ok contents ↔ disk.contents? path = some contents := by
  rw [contents?]
  cases disk.read path <;> simp [Except.toOption]

theorem readText_congr {other : Disk} (same : other.contents? path = disk.contents? path)
    (present : disk.isFile path = true) : other.readText path = disk.readText path := by
  rw [isFile_eq, Option.isSome_iff_exists] at present
  obtain ⟨contents, found⟩ := present
  rw [readText, readText, read_eq_ok_iff.mpr found, read_eq_ok_iff.mpr (same.trans found)]

/-- There is no file but in a folder. -/
theorem contents?_eq_none (relative : Path.isAbsolute ⟨further⟩ = false)
    (absent : disk.isFolder path = false) : disk.contents? (path.join further) = none := by
  rw [← Option.not_isSome_iff_eq_none, ← isFile_eq]
  intro file
  have found : disk.exists? (path.join further) = true := by
    rw [isFile, Option.any_eq_true] at file
    obtain ⟨item, there, _⟩ := file
    rw [exists?, there]
    rfl
  rw [isFolder_of_exists? relative found] at absent
  cases absent

theorem KeepsFolders.isFolder {before after : Disk} (folders : KeepsFolders before after)
    (found : before.isFolder path = true) : after.isFolder path = true := by
  obtain ⟨absolute, all⟩ := isFolder_iff.mp found
  exact isFolder_iff.mpr ⟨absolute, fun place member => folders place (all place member)⟩

end Disk

end WorkspaceBuild
