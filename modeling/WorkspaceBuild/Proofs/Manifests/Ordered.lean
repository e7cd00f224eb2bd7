import Mathlib.Data.List.Pairwise
import WorkspaceBuild.Proofs.Looks.Listings
import WorkspaceBuild.Proofs.Manifests

/-! # The order of files

A scan goes through a folder name by name, and a snapshot groups what it finds by category. So the
files of a module come in the order of their categories, and within one in the order of the names that
lead to them. As a file is no folder, none of them lies behind another.
-/

namespace WorkspaceBuild

namespace Path

/-- Neither of two paths leads through the other. -/
structure LeadApart (path other : String) : Prop where
  notThrough : ¬ Text.pieces '/' path <+: Text.pieces '/' other
  notBehind : ¬ Text.pieces '/' other <+: Text.pieces '/' path

theorem LeadApart.symm {path other : String} (apart : LeadApart path other) : LeadApart other path :=
  ⟨apart.notBehind, apart.notThrough⟩

/-- Text behind a slash leads on from a path. -/
theorem pieces_prefix_append (path more : String) :
    Text.pieces '/' path <+: Text.pieces '/' (path ++ "/" ++ more) := by
  rw [Text.pieces_append_slash]
  exact List.prefix_append _ _

end Path

namespace Disk

variable {entries : List (String × Item)} {names others : Place}

/-- Nothing stands behind a file. -/
theorem eq_of_fileIn?_prefix (some : names ≠ []) (found : (fileIn? entries names).isSome)
    (alsoFound : (fileIn? entries others).isSome) (leads : names <+: others) : names = others := by
  obtain ⟨rest, rfl⟩ := leads
  obtain ⟨folders, last, rfl⟩ := (List.eq_nil_or_concat names).resolve_left some
  rw [List.concat_eq_append] at *
  cases rest with
  | nil => rw [List.append_nil]
  | cons next rest =>
      rw [← fileIn?_heldAt folders (by simp)] at found
      rw [List.append_assoc, ← fileIn?_heldAt folders (by simp), List.singleton_append, fileIn?_cons,
        heldIn_of_fileIn? found, fileIn?_empty] at alsoFound
      cases alsoFound

end Disk

namespace Scan

/-- Files come in the order of the names that lead to them, and none lies behind another. -/
def IsInOrder (files : List ScannedFile) : Prop :=
  files.Pairwise fun file other =>
    Text.pieces '/' file.path < Text.pieces '/' other.path ∧ Path.LeadApart file.path other.path

theorem isInOrder_of_run {disk : Disk} (proper : disk.IsProper) {moduleName : String} {scope : Scope}
    {files : List ScannedFile} (ran : run disk moduleName scope = .ok files) : IsInOrder files := by
  cases there : disk.item scope.folder with
  | error fault => simp [run, there] at ran
  | ok item =>
      cases item with
      | file contents time =>
          rw [run, there] at ran
          obtain ⟨file, rest, _, none, rfl⟩ := mapM_cons_eq_ok.mp ran
          cases none
          exact List.pairwise_singleton _ _
      | folder entries modified =>
          have ordered : Item.InOrder entries :=
            Disk.inOrder_itemAt? proper.ordered (Disk.item_eq_ok_iff.mp there).2
          have plain : Item.HavePlainNames entries := proper.hasPlainNames there
          obtain ⟨kept, keeps, listed⟩ := exists_keeps scope ordered plain
          have keepsFile {file : Place × Nat} (member : file ∈ kept) :=
            (keeps.mem_iff file.1 file.2).mp member
          have found {file : Place × Nat} (member : file ∈ kept) :
              (Disk.fileIn? entries file.1).isSome := by
            obtain ⟨contents, there⟩ := (keepsFile member).file
            exact Option.isSome_of_eq_some there
          have apart {file other : Place × Nat} (member : file ∈ kept) (also : other ∈ kept)
              (different : file.1 ≠ other.1) : ¬ file.1 <+: other.1 := fun leads =>
            different (Disk.eq_of_fileIn?_prefix (keepsFile member).ne_nil (found member) (found also) leads)
          have pieces {file : Place × Nat} (member : file ∈ kept) :
              Text.pieces '/' (Path.spell file.1) = file.1 :=
            Path.pieces_spell (keepsFile member).ne_nil ((keepsFile member).isPlain plain)
          have paths := congrArg (List.map Prod.fst) (listed ▸ found_of_run there ran)
          rw [List.map_map, List.map_map] at paths
          have spelled : files.map ScannedFile.path = kept.map fun file => Path.spell file.1 := paths
          have sorted : (files.map ScannedFile.path).Pairwise fun path other =>
              Text.pieces '/' path < Text.pieces '/' other ∧ Path.LeadApart path other := by
            rw [spelled, List.pairwise_map]
            refine (List.pairwise_map.mp keeps.sorted).imp_of_mem fun member also less => ?_
            refine ⟨by rwa [pieces member, pieces also], ?_, ?_⟩
            · rw [pieces member, pieces also]
              exact apart member also less.ne
            · rw [pieces member, pieces also]
              exact apart also member less.ne'
          exact List.pairwise_map.mp sorted

end Scan

namespace Module

/-- A file of a module comes before another: its category does, or the names that lead to it. -/
structure Precedes (first second : Category × FileEntry) : Prop where
  order : compare first.1 second.1 = .lt ∨ first.1 = second.1 ∧
    Text.pieces '/' first.2.path < Text.pieces '/' second.2.path
  apart : Path.LeadApart first.2.path second.2.path

/-- Each file of a module comes before those behind it. -/
def IsInOrder (m : Module) : Prop := m.entries.Pairwise Precedes

/-- Files are told apart by their paths. -/
theorem IsInOrder.eq_of_path {m : Module} (inOrder : m.IsInOrder) {first second : Category × FileEntry}
    (listed : first ∈ m.entries) (also : second ∈ m.entries) (same : first.2.path = second.2.path) :
    first = second := by
  by_contra different
  have : Std.Symm fun first second : Category × FileEntry =>
      Path.LeadApart first.2.path second.2.path := ⟨fun _ _ => Path.LeadApart.symm⟩
  have apart := (inOrder.imp Precedes.apart).forall listed also different
  exact apart.notThrough (same ▸ List.prefix_refl _)

end Module

theorem Snapshot.isInOrder_moduleOf (settings : Settings) (node : GraphNode) {files : List ScannedFile}
    (inOrder : Scan.IsInOrder files) : (moduleOf settings node files).IsInOrder := by
  have ascending := (entriesOf_spec node files).1
  rw [Module.IsInOrder, show (moduleOf settings node files).entries =
    (entriesOf node files).flatMap fun pair => pair.2.map fun entry => (pair.1, entry) from rfl,
    List.pairwise_flatMap]
  constructor
  · intro pair listed
    rw [eq_of_mem_entriesOf listed, List.map_map, List.pairwise_map]
    exact (inOrder.sublist List.filter_sublist).imp fun ⟨less, apart⟩ => ⟨.inr ⟨rfl, less⟩, apart⟩
  · refine (List.pairwise_map.mp ascending).imp_of_mem fun {first second} listed also less => ?_
    intro entry here other there
    rw [eq_of_mem_entriesOf listed, List.map_map, List.mem_map] at here
    rw [eq_of_mem_entriesOf also, List.map_map, List.mem_map] at there
    obtain ⟨file, member, rfl⟩ := here
    obtain ⟨another, alsoMember, rfl⟩ := there
    obtain ⟨scanned, category⟩ := List.mem_filter.mp member
    obtain ⟨alsoScanned, alsoCategory⟩ := List.mem_filter.mp alsoMember
    have different : file ≠ another := by
      rintro rfl
      rw [← of_decide_eq_true category, ← of_decide_eq_true alsoCategory] at less
      simp [Std.ReflCmp.compare_self] at less
    have : Std.Symm fun file other : ScannedFile => Path.LeadApart file.path other.path :=
      ⟨fun _ _ => Path.LeadApart.symm⟩
    exact ⟨.inl less, (inOrder.imp And.right).forall scanned alsoScanned different⟩

theorem Manifest.IsTaken.isInOrder {manifest : Manifest} (taken : manifest.IsTaken) {name : String}
    {m : Module} (named : manifest.module? name = some m) : m.IsInOrder := by
  obtain ⟨_, settings, node, files, inOrder, _, rfl⟩ :=
    taken.exists_files Scan.isInOrder_of_run named
  exact Snapshot.isInOrder_moduleOf settings node inOrder

end WorkspaceBuild
