import WorkspaceBuild.Package.Discovery
import WorkspaceBuild.Proofs.Disk.Spellings
import WorkspaceBuild.Proofs.Graph.Rounds
import WorkspaceBuild.Proofs.Looks.Walks

/-! # Where modules live

Every module that a walk finds is the package in its folder, and bears the name that the descriptor
there gives it. So a folder is that of one module at most.
-/

namespace WorkspaceBuild

namespace ModuleGraph

/-- The modules of a graph are the packages in their folders. -/
structure IsHoused (disk : Disk) (g : ModuleGraph) : Prop where
  consistent : g.Consistent
  homes : ∀ name node, g.get? name = some node →
    ∃ descriptor, Descriptor.load disk node.dir = .ok descriptor ∧ descriptor.nameOr node.dir = name

/-- Only the module at a root is the workspace's own. -/
def IsRooted (root : Path) (g : ModuleGraph) : Prop :=
  ∀ name node, g.get? name = some node → node.main = true → node.dir = root

section Shapes

variable {g next : ModuleGraph}

/-- A dependency brings no module in, and moves none. -/
theorem exists_get?_of_addEdge {parent child : String} {kind : DependencyKind}
    (added : g.addEdge parent child kind = .ok next) {name : String} {node : GraphNode}
    (found : next.get? name = some node) :
    ∃ old, g.get? name = some old ∧ node.dir = old.dir ∧ node.main = old.main := by
  obtain ⟨grows, keys⟩ := Grows.addEdge added
  have known : name ∈ g.nodes.keys := keys ▸ Assoc.mem_keys_of_get? found
  obtain ⟨old, present⟩ := Option.isSome_iff_exists.mp (Assoc.get?_isSome_iff.mpr known)
  obtain ⟨later, there, dir, main⟩ := grows name old present
  cases there.symm.trans found
  exact ⟨old, present, dir, main⟩

theorem sameShape_update (name : String) {change : GraphNode → GraphNode}
    (kept : ∀ node, (change node).bare = node.bare) : SameShape g (g.update name change) := by
  refine ⟨rfl, rfl, keys_update _ _, fun other => ?_⟩
  rw [get?_update]
  split
  · rw [Option.map_map]
    exact congrArg (Option.map · _) (funext kept)
  · rfl

end Shapes

namespace IsHoused

variable {disk : Disk} {g next : ModuleGraph}

theorem single {node : GraphNode} {descriptor : Descriptor} (noParents : node.parents = [])
    (alone : node.dependencies = []) (loaded : Descriptor.load disk node.dir = .ok descriptor)
    (named : descriptor.nameOr node.dir = node.name) : IsHoused disk (.single node) where
  consistent := .single node noParents alone
  homes name other found := by
    have member := Assoc.mem_of_get? found
    rw [ModuleGraph.single, List.mem_singleton, Prod.mk.injEq] at member
    obtain ⟨rfl, rfl⟩ := member
    exact ⟨descriptor, loaded, named⟩

theorem isFolder (h : IsHoused disk g) {node : GraphNode} (listed : node ∈ g.inOrder) :
    disk.isFolder node.dir = true := by
  obtain ⟨name, _, found⟩ := List.mem_filterMap.mp listed
  obtain ⟨descriptor, loaded, _⟩ := h.homes name node found
  exact (Descriptor.isFolder_of_load loaded).1

theorem of_sameShape (h : IsHoused disk g) (same : SameShape g next) : IsHoused disk next where
  consistent := same.consistent h.consistent
  homes name node found := by
    obtain ⟨other, present, bare⟩ := same.symm.get? found
    have dir : other.dir = node.dir := (congrArg GraphNode.dir bare :)
    exact dir ▸ h.homes name other present

theorem addEdge (h : IsHoused disk g) {parent child : String} {kind : DependencyKind}
    (added : g.addEdge parent child kind = .ok next) : IsHoused disk next where
  consistent := h.consistent.addEdge added
  homes name node found := by
    obtain ⟨old, present, dir, _⟩ := exists_get?_of_addEdge added found
    exact dir ▸ h.homes name old present

theorem addNode (h : IsHoused disk g) {node : GraphNode} {descriptor : Descriptor}
    (noParents : node.parents = []) (alone : node.dependencies = [])
    (loaded : Descriptor.load disk node.dir = .ok descriptor)
    (named : descriptor.nameOr node.dir = node.name) : IsHoused disk (g.addNode node).2 where
  consistent := h.consistent.addNode node noParents alone
  homes name other found := by
    cases known : g.contains node.name with
    | true =>
        rw [ModuleGraph.addNode, if_pos known] at found
        exact h.homes name other found
    | false =>
        rw [get?_addNode known] at found
        split at found
        · rename_i same
          cases found
          exact ⟨descriptor, loaded, named.trans same.symm⟩
        · exact h.homes name other found

end IsHoused

namespace IsRooted

variable {root : Path} {g next : ModuleGraph}

theorem single {node : GraphNode} (home : node.dir = root) : IsRooted root (.single node) := by
  intro name other found _
  have member := Assoc.mem_of_get? found
  rw [ModuleGraph.single, List.mem_singleton, Prod.mk.injEq] at member
  rw [member.2, home]

theorem of_sameShape (h : IsRooted root g) (same : SameShape g next) : IsRooted root next := by
  intro name node found main
  obtain ⟨other, present, bare⟩ := same.symm.get? found
  have dir : other.dir = node.dir := (congrArg GraphNode.dir bare :)
  have alsoMain : other.main = node.main := (congrArg GraphNode.main bare :)
  exact dir ▸ h name other present (alsoMain.trans main)

theorem addEdge (h : IsRooted root g) {parent child : String} {kind : DependencyKind}
    (added : g.addEdge parent child kind = .ok next) : IsRooted root next := by
  intro name node found main
  obtain ⟨old, present, dir, same⟩ := exists_get?_of_addEdge added found
  exact dir ▸ h name old present (same.symm.trans main)

theorem addNode (h : IsRooted root g) {node : GraphNode} (dependency : node.main = false) :
    IsRooted root (g.addNode node).2 := by
  intro name other found main
  cases known : g.contains node.name with
  | true =>
      rw [ModuleGraph.addNode, if_pos known] at found
      exact h name other found main
  | false =>
      rw [get?_addNode known] at found
      split at found
      · cases found
        exact absurd (dependency.symm.trans main) Bool.false_ne_true
      · exact h name other found main

end IsRooted

/-- Settling a graph moves no module. -/
theorem sameShape_complete {g : ModuleGraph} (h : g.Consistent) : SameShape g g.complete.2 := by
  obtain ⟨_, _, last, _, progress, _, same⟩ := complete_eq_rounds h
  rw [same]
  exact progress.shape

end ModuleGraph

namespace Workspace

variable {w : Workspace} {disk : Disk}

theorem sameShape_inherit (graph : ModuleGraph) (name : String) (inherited : List Role) :
    ModuleGraph.SameShape graph (graph.update name (inherit inherited)) := by
  refine ModuleGraph.sameShape_update name fun node => ?_
  rw [inherit]
  split <;> rfl

theorem isHoused_revisit {graph next : ModuleGraph} (h : graph.IsHoused disk) {visit : Visit}
    {name : String} (done : revisit graph visit name = .ok next) : next.IsHoused disk := by
  obtain ⟨linked, added, same⟩ := bind_eq_ok.mp done
  cases same
  exact (h.addEdge added).of_sameShape (sameShape_inherit linked name visit.inherited)

theorem isHoused_expand {graph next : ModuleGraph} (h : graph.IsHoused disk) {visit : Visit}
    {descriptor : Descriptor} (loaded : Descriptor.load disk visit.folder = .ok descriptor)
    {visits : List Visit} (done : w.expand disk graph visit descriptor = .ok (next, visits)) :
    next.IsHoused disk := by
  obtain ⟨linked, added, same⟩ := bind_eq_ok.mp done
  cases same
  let found := w.nodeOf descriptor visit.folder false
  let node : GraphNode := { found with roles := rolesWhenFound found visit.inherited }
  have dir : node.dir = visit.folder := rfl
  have name : descriptor.nameOr visit.folder = node.name := rfl
  have housed : (graph.addNode node).2.IsHoused disk :=
    h.addNode rfl rfl (dir ▸ loaded) (dir ▸ name)
  exact housed.addEdge added

/-- A walk finds packages where they are. -/
theorem isHoused_walkOn {allowed : Nat} {graph : ModuleGraph} {pruned : List String}
    {pending : List Visit} (h : graph.IsHoused disk) {walk : Walk}
    (walked : w.walkOn disk allowed graph pruned pending = .ok walk) : walk.graph.IsHoused disk := by
  fun_induction walkOn w disk allowed graph pruned pending with
  | case1 =>
      cases walked
      exact h
  | case2 => cases walked
  | case3 => cases walked
  | case4 allowed graph pruned visit rest descriptor loaded name known next revisited ih =>
      exact ih (isHoused_revisit h revisited) walked
  | case5 allowed graph pruned visit rest descriptor loaded name fresh left ih => exact ih h walked
  | case6 allowed graph pruned visit rest descriptor loaded name fresh kept refused ih =>
      exact ih h walked
  | case7 =>
      cases walked
      exact h
  | case8 => cases walked
  | case9 graph pruned visit rest descriptor loaded name fresh kept accepted allowed next visits
      expanded ih =>
      exact ih (isHoused_expand h loaded expanded) walked

/-- A walk finds no other module that is the workspace's own. -/
theorem isRooted_walkOn {root : Path} {allowed : Nat} {graph : ModuleGraph} {pruned : List String}
    {pending : List Visit} (h : graph.IsRooted root) {walk : Walk}
    (walked : w.walkOn disk allowed graph pruned pending = .ok walk) : walk.graph.IsRooted root := by
  fun_induction walkOn w disk allowed graph pruned pending with
  | case1 =>
      cases walked
      exact h
  | case2 => cases walked
  | case3 => cases walked
  | case4 allowed graph pruned visit rest descriptor loaded name known next revisited ih =>
      obtain ⟨linked, added, same⟩ := bind_eq_ok.mp revisited
      cases same
      exact ih ((h.addEdge added).of_sameShape (sameShape_inherit linked _ visit.inherited)) walked
  | case5 allowed graph pruned visit rest descriptor loaded name fresh left ih => exact ih h walked
  | case6 allowed graph pruned visit rest descriptor loaded name fresh kept refused ih =>
      exact ih h walked
  | case7 =>
      cases walked
      exact h
  | case8 => cases walked
  | case9 graph pruned visit rest descriptor loaded name fresh kept accepted allowed next visits
      expanded ih =>
      obtain ⟨linked, added, same⟩ := bind_eq_ok.mp expanded
      cases same
      exact ih ((h.addNode rfl).addEdge added) walked

/-- A package that is accepted becomes a module, and the walk goes on to what it depends on. -/
theorem walkOn_of_expand {allowed : Nat} {graph next : ModuleGraph} {pruned : List String}
    {visit : Visit} {rest visits : List Visit} {descriptor : Descriptor}
    (loaded : Descriptor.load disk visit.folder = .ok descriptor)
    (fresh : graph.contains (descriptor.nameOr visit.folder) = false)
    (kept : pruned.contains (descriptor.nameOr visit.folder) = false)
    (accepted : w.accepts descriptor visit.folder = true)
    (expanded : w.expand disk graph visit descriptor = .ok (next, visits)) :
    w.walkOn disk (allowed + 1) graph pruned (visit :: rest) =
      w.walkOn disk allowed next pruned (visits ++ rest) := by
  rw [walkOn.eq_def]
  simp only [loaded, fresh, kept, accepted, expanded, Bool.not_true, Bool.false_eq_true, if_false]

theorem load_eq_ok_iff {root : Path} : load disk root = .ok w ↔
    w.root = root ∧ Descriptor.load disk root = .ok w.descriptor ∧
      Members.discover disk root w.descriptor = .ok w.members := by
  rw [load, bind_eq_ok]
  constructor
  · rintro ⟨descriptor, read, joined⟩
    obtain ⟨members, found, same⟩ := bind_eq_ok.mp joined
    cases same
    exact ⟨rfl, read, found⟩
  · rintro ⟨rfl, read, found⟩
    exact ⟨_, read, bind_eq_ok.mpr ⟨_, found, rfl⟩⟩

/-- The modules of a workspace are those that the walk finds, settled. -/
theorem resolve_eq_ok_iff {root : Path} {graph : ModuleGraph} : resolve disk root = .ok graph ↔
    ∃ w found, load disk root = .ok w ∧ w.walk disk = .ok found ∧ found.complete = (.ok (), graph) := by
  rw [resolve, bind_eq_ok]
  refine exists_congr fun w => ?_
  rw [bind_eq_ok, ← exists_and_left]
  refine exists_congr fun found => and_congr_right fun _ => and_congr_right fun _ => ?_
  split
  · rename_i settled complete
    rw [complete, Prod.mk.injEq, and_iff_right rfl]
    exact pure_eq_ok
  · rename_i e settled complete
    rw [complete]
    simp [throw, throwThe, MonadExceptOf.throw]

/-- Every module of a workspace is the package in its folder. -/
theorem isHoused_resolve {root : Path} {graph : ModuleGraph}
    (resolved : resolve disk root = .ok graph) : graph.IsHoused disk := by
  obtain ⟨w, found, loaded, walked, settled⟩ := resolve_eq_ok_iff.mp resolved
  obtain ⟨walk, walkedOn, rfl⟩ := map_eq_ok.mp walked
  obtain ⟨rfl, read, _⟩ := load_eq_ok_iff.mp loaded
  have start : (w.start disk).graph.IsHoused disk := .single rfl rfl read rfl
  have housed := isHoused_walkOn start walkedOn
  have complete := housed.of_sameShape (ModuleGraph.sameShape_complete housed.consistent)
  rwa [settled] at complete

/-- The workspace's own module is the package at its root. -/
theorem isRooted_resolve {root : Path} {graph : ModuleGraph}
    (resolved : resolve disk root = .ok graph) : graph.IsRooted root := by
  obtain ⟨w, found, loaded, walked, settled⟩ := resolve_eq_ok_iff.mp resolved
  obtain ⟨walk, walkedOn, rfl⟩ := map_eq_ok.mp walked
  obtain ⟨rfl, read, _⟩ := load_eq_ok_iff.mp loaded
  have start : (w.start disk).graph.IsHoused disk := .single rfl rfl read rfl
  have housed := isHoused_walkOn start walkedOn
  have rooted : walk.graph.IsRooted w.root := isRooted_walkOn (.single rfl) walkedOn
  have complete := rooted.of_sameShape (ModuleGraph.sameShape_complete housed.consistent)
  rwa [settled] at complete

end Workspace

end WorkspaceBuild
