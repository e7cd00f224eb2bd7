import WorkspaceBuild.Proofs.Delta
import WorkspaceBuild.Proofs.Graph.Homes
import WorkspaceBuild.Proofs.Looks.Listings
import WorkspaceBuild.Proofs.Looks.Sessions
import WorkspaceBuild.Proofs.Manifests

/-! # Modules as they stand

A snapshot of the modules that a workspace has on a disk lists the files that scanning their folders
finds there: all of them, each once, and no others.
-/

namespace WorkspaceBuild

namespace Module

/-- What is scanned for a module. -/
def scope (m : Module) (settings : Settings) (full : Bool) : Scan.Scope :=
  ⟨m.source, full || m.main, if m.main then settings.excluded else []⟩

/-- A module is the package in its folder, with the files that a scan finds there. -/
structure IsCurrent (m : Module) (disk : Disk) (settings : Settings) (full : Bool) : Prop where
  packaged : ∃ descriptor, Descriptor.load disk m.source = .ok descriptor ∧
    descriptor.nameOr m.source = m.name
  once : m.ListsOnce
  filed : ∀ category entry, (category, entry) ∈ m.entries →
    (classify entry.path).map Prod.fst = some category ∧ entry.kind = fileKind entry.path category
  files : ∀ entries modified, disk.item m.source = .ok (.folder entries modified) →
    ∀ path time, (∃ category entry, (category, entry) ∈ m.entries ∧ entry.path = path ∧
        entry.updated = time) ↔
      (path, time) ∈ Scan.filesIn (m.scope settings full) (Path.spell []) entries

end Module

namespace Snapshot

variable {disk : Disk} {settings : Settings} {full : Bool}

theorem listsOnce_moduleOf (settings : Settings) (node : GraphNode) {files : List ScannedFile}
    (once : (files.map ScannedFile.path).Nodup) : (moduleOf settings node files).ListsOnce := by
  have ascending := (entriesOf_spec node files).1
  let pathsOf (pair : Category × List FileEntry) : List String :=
    (pair.2.map fun entry => (pair.1, entry)).map fun entry => entry.2.path
  have paths {pair : Category × List FileEntry} (listed : pair ∈ entriesOf node files) :
      pathsOf pair = (files.filter (·.category = pair.1)).map ScannedFile.path := by
    simp only [pathsOf]
    rw [eq_of_mem_entriesOf listed, List.map_map, List.map_map]
    rfl
  have whole : (moduleOf settings node files).entries.map (fun entry => entry.2.path) =
      (entriesOf node files).flatMap pathsOf := List.map_flatMap ..
  rw [Module.ListsOnce, whole, List.nodup_flatMap]
  constructor
  · intro pair listed
    rw [paths listed]
    exact (List.filter_sublist.map ScannedFile.path).nodup once
  · have distinct : (entriesOf node files).Pairwise fun first second => first.1 ≠ second.1 :=
      List.pairwise_map.mp ascending.nodup
    refine distinct.imp_of_mem fun {first second} listed listedToo different => ?_
    change List.Disjoint (pathsOf first) (pathsOf second)
    rw [List.disjoint_left]
    intro path here there
    rw [paths listed] at here
    rw [paths listedToo] at there
    obtain ⟨file, member, rfl⟩ := List.mem_map.mp here
    obtain ⟨other, memberToo, same⟩ := List.mem_map.mp there
    obtain ⟨scanned, category⟩ := List.mem_filter.mp member
    obtain ⟨scannedToo, categoryToo⟩ := List.mem_filter.mp memberToo
    cases List.inj_on_of_nodup_map once scannedToo scanned same
    exact different ((of_decide_eq_true category).symm.trans (of_decide_eq_true categoryToo))

/-- The modules of a snapshot are those of the workspace, as they stand on the disk. -/
theorem isCurrent_of_take (proper : disk.IsProper) {graph : ModuleGraph} (housed : graph.IsHoused disk)
    {session : Session} (isOf : session.IsOf disk) {now : Nat} {manifest : Manifest}
    (taken : (take disk settings full now graph session).2 = .ok manifest) {name : String} {m : Module}
    (named : manifest.module? name = some m) : m.name = name ∧ m.IsCurrent disk settings full := by
  have homes {node : GraphNode} (listed : node ∈ graph.inOrder) : ∃ descriptor,
      Descriptor.load disk node.dir = .ok descriptor ∧ descriptor.nameOr node.dir = node.name := by
    obtain ⟨key, _, found⟩ := List.mem_filterMap.mp listed
    rw [housed.consistent.named key node found]
    exact housed.homes key node found
  have folders : ∀ node ∈ graph.inOrder, disk.isFolder node.dir = true := fun _ => housed.isFolder
  obtain ⟨node, listed, files, ran, rfl, same⟩ := exists_run_of_take isOf folders taken named
  obtain ⟨inside, modified, there, _⟩ := Disk.exists_entries_of_isFolder (folders node listed)
  have ordered : Item.InOrder inside :=
    Disk.inOrder_itemAt? proper.ordered (Disk.item_eq_ok_iff.mp there).2
  have plain : Item.HavePlainNames inside := proper.hasPlainNames there
  have found := Scan.found_of_run
    (show disk.item (scopeOf settings full node).folder = .ok (.folder inside modified) from there) ran
  have once : (files.map ScannedFile.path).Nodup := by
    have paths := congrArg (List.map Prod.fst) found
    rw [List.map_map] at paths
    exact (paths : files.map ScannedFile.path = _) ▸ Scan.nodup_filesIn ordered plain
  have source : (moduleOf settings node files).source = node.dir := rfl
  have filed := (isScanned_moduleOf settings node (Scan.isFound_of_run proper ran)).filed
  refine ⟨same, homes listed, listsOnce_moduleOf settings node once, filed, ?_⟩
  intro entries time here path updated
  rw [source] at here
  cases there.symm.trans here
  change _ ↔ (path, updated) ∈ Scan.filesIn (scopeOf settings full node) (Path.spell []) inside
  rw [← found, List.mem_map]
  constructor
  · rintro ⟨category, entry, member, rfl, rfl⟩
    obtain ⟨file, scanned, _, rfl⟩ := mem_entries_moduleOf.mp member
    exact ⟨file, scanned, rfl⟩
  · rintro ⟨file, scanned, same⟩
    cases same
    exact ⟨_, _, mem_entries_moduleOf.mpr ⟨file, scanned, rfl, rfl⟩, rfl, rfl⟩

end Snapshot

/-- The modules of a manifest are listed once, under their names, as they stand. -/
structure Manifest.IsCurrent (manifest : Manifest) (disk : Disk) (settings : Settings)
    (full : Bool) : Prop where
  ascending : IsAscending manifest.modules.keys
  modules : ∀ name m, manifest.module? name = some m →
    m.name = name ∧ m.IsCurrent disk settings full

theorem Snapshot.isCurrent_manifest {disk : Disk} {settings : Settings} {full : Bool} {now : Nat}
    {graph : ModuleGraph} {session : Session} {manifest : Manifest} (proper : disk.IsProper)
    (housed : graph.IsHoused disk) (isOf : session.IsOf disk)
    (taken : (take disk settings full now graph session).2 = .ok manifest) :
    manifest.IsCurrent disk settings full := by
  refine ⟨?_, fun name m named => isCurrent_of_take proper housed isOf taken named⟩
  obtain ⟨main, modules, _, _, rfl⟩ := take_eq_ok taken
  exact Assoc.isAscending_ofPairs _

namespace Module

variable {m : Module} {disk : Disk} {settings : Settings} {full : Bool}

/-- The folder of a module is there, with names that a file system has. -/
theorem IsCurrent.exists_entries (h : m.IsCurrent disk settings full) (proper : disk.IsProper) :
    ∃ entries modified, disk.item m.source = .ok (.folder entries modified) ∧
      Item.InOrder entries ∧ Item.HavePlainNames entries := by
  obtain ⟨descriptor, loaded, _⟩ := h.packaged
  obtain ⟨entries, modified, there, _⟩ :=
    Disk.exists_entries_of_isFolder (Descriptor.isFolder_of_load loaded).1
  exact ⟨entries, modified, there,
    Disk.inOrder_itemAt? proper.ordered (Disk.item_eq_ok_iff.mp there).2, proper.hasPlainNames there⟩

/-- The files of a module are those in its folder to which its scan goes. -/
theorem IsCurrent.mem_entries_iff (h : m.IsCurrent disk settings full)
    {entries : List (String × Item)} {modified : Nat}
    (there : disk.item m.source = .ok (.folder entries modified)) (ordered : Item.InOrder entries)
    (plain : Item.HavePlainNames entries) {path : String} :
    (∃ category entry, (category, entry) ∈ m.entries ∧ entry.path = path) ↔
      ∃ names, path = Path.spell names ∧ (Disk.fileIn? entries names).isSome ∧
        Scan.Admits (m.scope settings full) [] entries names := by
  have each (time : Nat) := (h.files entries modified there path time).trans
    (Scan.mem_filesIn_iff ordered plain (by simp))
  constructor
  · rintro ⟨category, entry, member, same⟩
    obtain ⟨names, contents, path, found, admits⟩ := (each entry.updated).mp ⟨category, entry, member, same, rfl⟩
    exact ⟨names, path, by rw [found]; rfl, admits⟩
  · rintro ⟨names, path, some, admits⟩
    obtain ⟨item, found⟩ := Option.isSome_iff_exists.mp some
    obtain ⟨contents, time, rfl⟩ := Disk.isFile_of_fileIn? found
    obtain ⟨category, entry, member, same, _⟩ := (each time).mpr ⟨names, contents, path, found, admits⟩
    exact ⟨category, entry, member, same⟩

end Module

end WorkspaceBuild
