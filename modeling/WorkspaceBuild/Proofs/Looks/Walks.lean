import WorkspaceBuild.Package.Discovery
import WorkspaceBuild.Proofs.Graph.Consistent
import WorkspaceBuild.Proofs.Looks.Members

/-! # What is read along dependencies

The walk from a workspace reads the descriptors of its modules, and those in the folders where their
dependencies are looked for. Where these are the same it finds the same modules. No walk is cut off:
it finds at most two modules for each folder of the disk.
-/

namespace WorkspaceBuild

namespace ModuleGraph

/-- Modules stay in a graph, in their folders. -/
def Grows (g next : ModuleGraph) : Prop :=
  ∀ name node, g.get? name = some node →
    ∃ later, next.get? name = some later ∧ later.dir = node.dir ∧ later.main = node.main

namespace Grows

variable {g next last : ModuleGraph}

theorem refl (g : ModuleGraph) : Grows g g := fun _ node found => ⟨node, found, rfl, rfl⟩

theorem trans (first : Grows g next) (second : Grows next last) : Grows g last := by
  intro name node found
  obtain ⟨middle, there, dir, main⟩ := first name node found
  obtain ⟨later, thereToo, dirToo, mainToo⟩ := second name middle there
  exact ⟨later, thereToo, dirToo.trans dir, mainToo.trans main⟩

theorem update (name : String) {change : GraphNode → GraphNode}
    (kept : ∀ node, (change node).dir = node.dir ∧ (change node).main = node.main) :
    Grows g (g.update name change) := by
  intro other node found
  rw [get?_update, found]
  split
  · exact ⟨_, rfl, kept node⟩
  · exact ⟨node, rfl, rfl, rfl⟩

theorem addEdge {parent child : String} {kind : DependencyKind}
    (added : g.addEdge parent child kind = .ok next) :
    Grows g next ∧ next.nodes.keys = g.nodes.keys := by
  by_cases same : parent = child
  · rw [ModuleGraph.addEdge, if_pos same] at added
    cases added
    exact ⟨.refl g, rfl⟩
  · obtain ⟨_, _, keys, each⟩ := get?_addEdge added same
    refine ⟨fun name node found => ?_, keys⟩
    rw [each, found]
    split
    · exact ⟨_, rfl, rfl, rfl⟩
    · split
      · exact ⟨_, rfl, rfl, rfl⟩
      · exact ⟨node, rfl, rfl, rfl⟩

theorem addNode {node : GraphNode} (fresh : g.contains node.name = false) :
    Grows g (g.addNode node).2 := by
  intro name other found
  rw [get?_addNode fresh, if_neg ?_]
  · exact ⟨other, found, rfl, rfl⟩
  · rintro rfl
    rw [contains, get?] at *
    simp_all [Assoc.has]

end Grows

end ModuleGraph

namespace Workspace

variable {w : Workspace} {disk before after : Disk}

/-- To find a dependency is to look for a descriptor in a folder: the member's, or an installed
one, unless a nearer one has a descriptor. -/
inductive Probes (w : Workspace) (disk : Disk) (source : Path) (name : String) : Path → Prop where
  | member {folder : Path} (found : w.members.get? name = some folder) : Probes w disk source name folder
  | installed {nearer further : List Path} {folder : Path} (none : w.members.get? name = .none)
      (split : (source.ancestors.map fun above => (above.join installedFolder).join name) =
        nearer ++ folder :: further)
      (without : ∀ other ∈ nearer, disk.isFile (other.join descriptorFile) = false) :
      Probes w disk source name folder

/-- A walk that has found the modules of a graph has looked into a folder, for a dependency of one
of them. -/
def FollowsTo (w : Workspace) (disk : Disk) (graph : ModuleGraph) (folder : Path) : Prop :=
  ∃ name node descriptor, graph.get? name = some node ∧
    Descriptor.load disk node.dir = .ok descriptor ∧
      ∃ edge ∈ dependenciesOf descriptor node.main, w.Probes disk node.dir edge.name folder

/-- The descriptor in a folder is as it was. -/
def SameDescriptor (before after : Disk) (folder : Path) : Prop :=
  after.contents? (folder.join descriptorFile) = before.contents? (folder.join descriptorFile)

theorem SameDescriptor.isFile {folder : Path} (same : SameDescriptor before after folder) :
    after.isFile (folder.join descriptorFile) = before.isFile (folder.join descriptorFile) := by
  rw [Disk.isFile_eq, Disk.isFile_eq, same]

theorem find?_congr_of_first {α : Type} {p q : α → Bool} {xs : List α}
    (same : ∀ nearer x further, xs = nearer ++ x :: further → (∀ y ∈ nearer, p y = false) →
      q x = p x) : xs.find? q = xs.find? p := by
  induction xs with
  | nil => rfl
  | cons x rest ih =>
      rw [List.find?_cons, List.find?_cons, same [] x rest rfl (by simp)]
      cases found : p x with
      | true => rfl
      | false =>
          refine ih fun nearer y further split before => ?_
          exact same (x :: nearer) y further (by rw [split]; rfl)
            (List.forall_mem_cons.mpr ⟨found, before⟩)

/-- Where the descriptors that are looked for are the same, a dependency is found in one folder. -/
theorem folderOf?_congr {source : Path} {name : String}
    (same : ∀ folder, w.Probes before source name folder → SameDescriptor before after folder) :
    w.folderOf? after source name = w.folderOf? before source name := by
  rw [folderOf?, folderOf?]
  cases none : w.members.get? name with
  | some folder => rw [Option.some_or, Option.some_or]
  | none =>
      exact find?_congr_of_first fun nearer folder further split without =>
        (same folder (.installed none split without)).isFile

theorem probes_of_folderOf? {source folder : Path} {name : String}
    (found : w.folderOf? disk source name = some folder) : w.Probes disk source name folder := by
  rw [folderOf?] at found
  cases none : w.members.get? name with
  | some member =>
      rw [none] at found
      cases found
      exact .member none
  | none =>
      rw [none, Option.none_or, List.find?_eq_some_iff_append] at found
      obtain ⟨_, nearer, further, split, without⟩ := found
      exact .installed none split fun other listed => by simpa using without other listed

theorem visitsOf_congr {descriptor : Descriptor} {source : Path} {name : String} {main : Bool}
    {roles : List Role}
    (same : ∀ edge ∈ dependenciesOf descriptor main, ∀ folder,
      w.Probes before source edge.name folder → SameDescriptor before after folder) :
    w.visitsOf after descriptor source name main roles =
      w.visitsOf before descriptor source name main roles := by
  rw [visitsOf, visitsOf]
  refine List.filterMap_congr fun edge listed => ?_
  rw [folderOf?_congr (same edge listed)]

theorem probes_of_mem_visitsOf {descriptor : Descriptor} {source : Path} {name : String}
    {main : Bool} {roles : List Role} {visit : Visit}
    (listed : visit ∈ w.visitsOf disk descriptor source name main roles) :
    ∃ edge ∈ dependenciesOf descriptor main, w.Probes disk source edge.name visit.folder := by
  obtain ⟨edge, member, found⟩ := List.mem_filterMap.mp listed
  obtain ⟨folder, there, rfl⟩ := Option.map_eq_some_iff.mp found
  exact ⟨edge, member, probes_of_folderOf? there⟩

end Workspace

end WorkspaceBuild
