import WorkspaceBuild.Proofs.Graph.Homes
import Mathlib.Data.List.Perm.Subperm
import Mathlib.Data.List.ProdSigma

/-! # How many modules there are

A module bears the name of its descriptor, or that of its folder or of none. So there are at most
two modules for each folder of a disk, and a walk that may take twice as many modules as there are
folders comes to its end.
-/

namespace WorkspaceBuild

namespace Item

mutual

/-- The places of the folders that an item at a place is made of. -/
def folderPlaces (place : Place) : Item → List Place
  | .file .. => []
  | .folder entries _ => place :: foldersWithin place entries

/-- The places of the folders that several items in the folder at a place are made of. -/
def foldersWithin (place : Place) : List (String × Item) → List Place
  | [] => []
  | (name, item) :: rest => folderPlaces (place ++ [name]) item ++ foldersWithin place rest

end

mutual

theorem length_folderPlaces (place : Place) (item : Item) :
    (folderPlaces place item).length = folderCount item := by
  cases item with
  | file contents modified => rfl
  | folder entries modified =>
      rw [folderPlaces, List.length_cons, length_foldersWithin, folderCount, Nat.add_comm]

theorem length_foldersWithin (place : Place) (entries : List (String × Item)) :
    (foldersWithin place entries).length = entryFolders entries := by
  cases entries with
  | nil => rfl
  | cons entry rest =>
      obtain ⟨name, item⟩ := entry
      rw [foldersWithin, List.length_append, length_folderPlaces, length_foldersWithin, entryFolders]

end

theorem folderPlaces_subset {place : Place} {name : String} {item : Item}
    {entries : List (String × Item)} (listed : (name, item) ∈ entries) :
    folderPlaces (place ++ [name]) item ⊆ foldersWithin place entries := by
  induction entries with
  | nil => cases listed
  | cons entry rest ih =>
      obtain ⟨other, first⟩ := entry
      rw [foldersWithin]
      rcases List.mem_cons.mp listed with same | later
      · cases same
        exact List.subset_append_left _ _
      · exact List.subset_append_of_subset_right _ (ih later)

end Item

namespace Disk

variable {disk : Disk}

theorem mem_foldersWithin {entries inner : List (String × Item)} {modified : Nat}
    {place names : Place} (some : names ≠ [])
    (found : itemIn? entries names = .some (.folder inner modified)) :
    place ++ names ∈ Item.foldersWithin place entries := by
  induction names generalizing entries place with
  | nil => exact absurd rfl some
  | cons name rest ih =>
      cases rest with
      | nil =>
          have listed : (name, Item.folder inner modified) ∈ entries := Assoc.mem_of_get? found
          exact Item.folderPlaces_subset listed List.mem_cons_self
      | cons next rest =>
          rw [itemIn?_cons] at found
          have within : (place ++ [name]) ++ next :: rest ∈
              Item.foldersWithin (place ++ [name]) (heldIn entries name) :=
            ih (List.cons_ne_nil _ _) found
          rw [List.append_assoc, List.singleton_append] at within
          rw [heldIn] at within
          cases child : Item.child? entries name with
          | none =>
              rw [child] at within
              cases within
          | some item =>
              have listed : (name, item) ∈ entries := Assoc.mem_of_get? child
              refine Item.folderPlaces_subset listed ?_
              rw [child] at within
              cases item with
              | file contents time => cases within
              | folder held time => exact List.mem_cons_of_mem _ within

/-- The places of all folders, the root among them. -/
def folderPlaces (disk : Disk) : List Place := [] :: Item.foldersWithin [] disk.entries

theorem length_folderPlaces (disk : Disk) : disk.folderPlaces.length = disk.folderCount := by
  rw [folderPlaces, List.length_cons, Item.length_foldersWithin, folderCount, Nat.add_comm]

theorem HoldsFolder.mem_folderPlaces {place : Place} (h : disk.HoldsFolder place) :
    place ∈ disk.folderPlaces := by
  obtain ⟨entries, modified, found⟩ := holdsFolder_iff.mp h
  cases place with
  | nil => exact List.mem_cons_self
  | cons name rest =>
      have within : [] ++ name :: rest ∈ Item.foldersWithin [] disk.entries :=
        mem_foldersWithin (List.cons_ne_nil _ _) found
      exact List.mem_cons_of_mem _ within

end Disk

namespace Descriptor

variable {disk : Disk} {folder other : Path} {descriptor otherDescriptor : Descriptor}

/-- Where a folder is decides what its descriptor says. -/
theorem eq_of_target (loaded : load disk folder = .ok descriptor)
    (alsoLoaded : load disk other = .ok otherDescriptor) (same : folder.target = other.target) :
    descriptor = otherDescriptor := by
  have placed {folder : Path} {descriptor : Descriptor} (loaded : load disk folder = .ok descriptor) :
      ∃ text time, disk.itemAt? (folder.target ++ [descriptorFile]) = some (.file (.text text) time) ∧
        (Json.readLoosely? text).bind ofJson? = some descriptor := by
    obtain ⟨text, found, read⟩ := load_eq_ok_iff.mp loaded
    obtain ⟨time, item⟩ := Disk.contents?_eq_some_iff.mp found
    have absolute := (Disk.isFolder_iff.mp (isFolder_of_load loaded).1).1
    rw [← (Path.join_plain isPlain_descriptorFile (Path.text_ne_empty absolute)).2.1]
    exact ⟨text, time, (Disk.item_eq_ok_iff.mp item).2, read⟩
  obtain ⟨text, time, there, read⟩ := placed loaded
  obtain ⟨otherText, otherTime, alsoThere, alsoRead⟩ := placed alsoLoaded
  rw [same, alsoThere] at there
  cases there
  exact Option.some_inj.mp (read.symm.trans alsoRead)

end Descriptor

/-- The name of a path's file is the last one of its target. -/
theorem Path.getLast?_target {path : Path} (absolute : path.isAbsolute = true) {name : String}
    (named : path.fileName? = some name) : path.target.getLast? = some name := by
  rw [fileName?] at named
  split at named
  · rename_i text last
    cases named
    obtain ⟨before, split⟩ := List.getLast?_eq_some_iff.mp last
    rw [target_eq_under absolute, split, Place.under_append, List.getLast?_reverse]
    rfl
  · cases named

/-- Where a module lives, and whether its folder has a name. -/
def GraphNode.home (node : GraphNode) : Place × Bool :=
  (node.dir.target, node.dir.fileName?.isSome)

theorem Assoc.length_put_of_not_mem {κ α : Type} [Ord κ] [Std.LawfulEqOrd κ] {key : κ} {value : α}
    {table : Assoc κ α} (absent : key ∉ table.keys) :
    (table.put key value).length = table.length + 1 := by
  induction table with
  | nil => rfl
  | cons first rest ih =>
      obtain ⟨k, v⟩ := first
      simp only [keys_cons, List.mem_cons, not_or] at absent
      rw [put]
      split
      · rfl
      · rename_i same
        exact absurd (Std.LawfulEqOrd.eq_of_compare same) absent.1
      · rw [List.length_cons, ih absent.2, List.length_cons]

namespace ModuleGraph

variable {disk : Disk} {g next : ModuleGraph}

/-- Modules of one home bear one name. -/
theorem IsHoused.eq_of_home (h : g.IsHoused disk) {name other : String} {node otherNode : GraphNode}
    (found : g.get? name = some node) (alsoFound : g.get? other = some otherNode)
    (same : node.home = otherNode.home) : name = other := by
  obtain ⟨target, has⟩ := Prod.mk.inj same
  obtain ⟨descriptor, loaded, rfl⟩ := h.homes name node found
  obtain ⟨otherDescriptor, alsoLoaded, rfl⟩ := h.homes other otherNode alsoFound
  obtain rfl := Descriptor.eq_of_target loaded alsoLoaded target
  have files : node.dir.fileName? = otherNode.dir.fileName? := by
    have absolute {folder : Path} {d : Descriptor} (loaded : Descriptor.load disk folder = .ok d) :
        folder.isAbsolute = true := (Disk.isFolder_iff.mp (Descriptor.isFolder_of_load loaded).1).1
    cases file : node.dir.fileName? with
    | none =>
        rw [file] at has
        exact (Option.not_isSome_iff_eq_none.mp (has ▸ Bool.false_ne_true)).symm
    | some text =>
        rw [file] at has
        obtain ⟨otherText, otherFile⟩ := Option.isSome_iff_exists.mp has.symm
        rw [otherFile, ← Path.getLast?_target (absolute loaded) file,
          ← Path.getLast?_target (absolute alsoLoaded) otherFile, target]
  rw [Descriptor.nameOr, Descriptor.nameOr, files]

/-- There are at most two modules for each folder. -/
theorem IsHoused.size_le (h : g.IsHoused disk) : g.size ≤ 2 * disk.folderCount := by
  have distinct := h.consistent.ascending.nodup
  have found {pair : String × GraphNode} (listed : pair ∈ g.nodes) : g.get? pair.1 = some pair.2 :=
    Assoc.get?_of_mem distinct listed
  have homes : (g.nodes.map fun pair => pair.2.home).Nodup := by
    refine List.Nodup.map_on (fun first listed second listedToo same => ?_) distinct.of_map
    exact List.inj_on_of_nodup_map distinct listed listedToo
      (h.eq_of_home (found listed) (found listedToo) same)
  have within : (g.nodes.map fun pair => pair.2.home) ⊆ disk.folderPlaces ×ˢ [true, false] := by
    intro home member
    obtain ⟨pair, listed, rfl⟩ := List.mem_map.mp member
    obtain ⟨descriptor, loaded, _⟩ := h.homes pair.1 pair.2 (found listed)
    have folder : disk.HoldsFolder pair.2.dir.target := by
      obtain ⟨entries, modified, _, there⟩ :=
        Disk.exists_entries_of_isFolder (Descriptor.isFolder_of_load loaded).1
      exact Disk.holdsFolder_iff.mpr ⟨entries, modified, there⟩
    exact List.pair_mem_product.mpr ⟨folder.mem_folderPlaces, by
      cases pair.2.dir.fileName?.isSome <;> simp⟩
  have bound := (List.subperm_of_subset homes within).length_le
  rwa [List.length_map, List.length_product, Disk.length_folderPlaces, Nat.mul_comm] at bound

theorem size_of_keys (same : next.nodes.keys = g.nodes.keys) : next.size = g.size := by
  have lengths := congrArg List.length same
  rwa [Assoc.keys, Assoc.keys, List.length_map, List.length_map] at lengths

theorem size_addNode {node : GraphNode} (fresh : g.contains node.name = false) :
    (g.addNode node).2.size = g.size + 1 := by
  rw [addNode, if_neg (by simp [fresh])]
  refine Assoc.length_put_of_not_mem fun listed => ?_
  rw [contains, Assoc.has_iff.mpr listed] at fresh
  cases fresh

end ModuleGraph

namespace Workspace

variable {w : Workspace} {disk : Disk}

theorem size_revisit {graph next : ModuleGraph} {visit : Visit} {name : String}
    (done : revisit graph visit name = .ok next) : next.size = graph.size := by
  obtain ⟨linked, added, same⟩ := bind_eq_ok.mp done
  cases same
  refine ModuleGraph.size_of_keys ?_
  rw [ModuleGraph.keys_update, (ModuleGraph.Grows.addEdge added).2]

theorem size_expand {graph next : ModuleGraph} {visit : Visit} {descriptor : Descriptor}
    {visits : List Visit} (fresh : graph.contains (descriptor.nameOr visit.folder) = false)
    (done : w.expand disk graph visit descriptor = .ok (next, visits)) :
    next.size = graph.size + 1 := by
  obtain ⟨linked, added, same⟩ := bind_eq_ok.mp done
  cases same
  rw [ModuleGraph.size_of_keys (ModuleGraph.Grows.addEdge added).2]
  exact ModuleGraph.size_addNode fresh

/-- A walk that may take more modules than there can be visits all that it comes to. -/
theorem pending_of_walkOn {allowed : Nat} {graph : ModuleGraph} {pruned : List String}
    {pending : List Visit} (housed : graph.IsHoused disk)
    (enough : 2 * disk.folderCount < graph.size + allowed) {walk : Walk}
    (walked : w.walkOn disk allowed graph pruned pending = .ok walk) : walk.pending = [] := by
  fun_induction walkOn w disk allowed graph pruned pending with
  | case1 =>
      cases walked
      rfl
  | case2 => cases walked
  | case3 => cases walked
  | case4 allowed graph pruned visit rest descriptor loaded name known next revisited ih =>
      exact ih (isHoused_revisit housed revisited) (size_revisit revisited ▸ enough) walked
  | case5 allowed graph pruned visit rest descriptor loaded name fresh left ih =>
      exact ih housed enough walked
  | case6 allowed graph pruned visit rest descriptor loaded name fresh kept refused ih =>
      exact ih housed enough walked
  | case7 =>
      -- there are no more modules than there can be
      exact absurd housed.size_le (not_le_of_gt enough)
  | case8 => cases walked
  | case9 graph pruned visit rest descriptor loaded name fresh kept accepted allowed next visits
      expanded ih =>
      have one : next.size = graph.size + 1 := size_expand (by simpa using fresh) expanded
      exact ih (isHoused_expand housed loaded expanded) (by omega) walked

/-- The walk from a workspace is not cut off. -/
theorem pending_of_start (own : Descriptor.load disk w.root = .ok w.descriptor) {walk : Walk}
    (walked : w.walkOn disk (mostModules disk) (w.start disk).graph (w.start disk).pruned
      (w.start disk).pending = .ok walk) : walk.pending = [] := by
  have housed : (w.start disk).graph.IsHoused disk := .single rfl rfl own rfl
  refine pending_of_walkOn housed ?_ walked
  change 2 * disk.folderCount < 1 + 2 * disk.folderCount
  omega

end Workspace

end WorkspaceBuild
