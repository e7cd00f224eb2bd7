import WorkspaceBuild.Proofs.Graph.Sizes

/-! # What is read to find modules

To find the modules of a workspace is to look for descriptors: its own, those of its members, and
those of what its modules depend on. Where these are as they were, the modules are.
-/

namespace WorkspaceBuild

variable {before after : Disk}

/-- A path leads through a folder and out of it again. -/
def Path.Passes (path : Path) (place : Place) : Prop := place ∈ path.way ∧ ¬ place <+: path.target

/-- Where no folder is new that a path passes, it leads to its file just when it did. -/
theorem Disk.contents?_congr (grown : KeepsFolders before after) {path : Path}
    (file : after.fileAt? path.target = before.fileAt? path.target)
    (passed : ∀ place, path.Passes place → after.HoldsFolder place → before.HoldsFolder place) :
    after.contents? path = before.contents? path := by
  refine Option.ext fun contents => ?_
  rw [contents?_eq_some_iff, contents?_eq_some_iff]
  refine exists_congr fun time => ?_
  rw [item_eq_ok_iff, item_eq_ok_iff, ← fileAt?_eq_some_iff, ← fileAt?_eq_some_iff, file]
  refine and_congr_left fun there => ⟨fun reaches => ⟨reaches.1, fun place onWay => ?_⟩, grown.reaches⟩
  have folder := reaches.2 place onWay
  by_cases above : place <+: path.target
  · obtain ⟨more, same⟩ := above
    have holds : before.Holds (place ++ more) := by
      rw [same]
      exact holds_iff.mpr ⟨_, fileAt?_eq_some_iff.mp there⟩
    refine .of_append holds ?_
    rintro rfl
    -- where the file is there is no folder
    rw [List.append_nil] at same
    rw [← file, ← same] at there
    exact not_holdsFolder_of_file (kindAt?_eq_true_iff.mpr (by rw [there]; rfl)) folder
  · exact passed place ⟨onWay, above⟩ folder

namespace Workspace

variable {w : Workspace} {graph next : ModuleGraph} {pruned : List String} {pending : List Visit}

theorem SameDescriptor.load {folder : Path} (same : SameDescriptor before after folder) :
    Descriptor.load after folder = Descriptor.load before folder := Descriptor.load_congr same

theorem grows_revisit {visit : Visit} {name : String}
    (done : revisit graph visit name = .ok next) : graph.Grows next := by
  obtain ⟨linked, added, same⟩ := bind_eq_ok.mp done
  cases same
  refine (ModuleGraph.Grows.addEdge added).1.trans (.update name fun node => ?_)
  rw [inherit]
  split <;> exact ⟨rfl, rfl⟩

/-- A package that becomes a module stays one, in its folder. -/
theorem grows_expand {disk : Disk} {visit : Visit} {descriptor : Descriptor} {visits : List Visit}
    (fresh : graph.contains (descriptor.nameOr visit.folder) = false)
    (done : w.expand disk graph visit descriptor = .ok (next, visits)) :
    graph.Grows next ∧ (∃ node, next.get? (descriptor.nameOr visit.folder) = some node ∧
      node.dir = visit.folder ∧ node.main = false) ∧
      ∃ roles, visits = w.visitsOf disk descriptor visit.folder (descriptor.nameOr visit.folder) false
        roles := by
  obtain ⟨linked, added, same⟩ := bind_eq_ok.mp done
  cases same
  have grows := (ModuleGraph.Grows.addEdge added).1
  refine ⟨(ModuleGraph.Grows.addNode fresh).trans grows, ?_, _, rfl⟩
  obtain ⟨node, found, dir, main⟩ := grows _ _ ((ModuleGraph.get?_addNode fresh _).trans (if_pos rfl))
  exact ⟨node, found, dir, main⟩

theorem grows_walkOn {disk : Disk} {allowed : Nat} {walk : Walk}
    (walked : w.walkOn disk allowed graph pruned pending = .ok walk) : graph.Grows walk.graph := by
  fun_induction walkOn w disk allowed graph pruned pending with
  | case1 =>
      cases walked
      exact .refl _
  | case2 => cases walked
  | case3 => cases walked
  | case4 allowed graph pruned visit rest descriptor loaded name known next revisited ih =>
      exact (grows_revisit revisited).trans (ih walked)
  | case5 allowed graph pruned visit rest descriptor loaded name fresh left ih => exact ih walked
  | case6 allowed graph pruned visit rest descriptor loaded name fresh kept refused ih =>
      exact ih walked
  | case7 =>
      cases walked
      exact .refl _
  | case8 => cases walked
  | case9 graph pruned visit rest descriptor loaded name fresh kept accepted allowed next visits
      expanded ih =>
      exact (grows_expand (by simpa using fresh) expanded).1.trans (ih walked)

theorem expand_congr {visit : Visit} {descriptor : Descriptor}
    (same : ∀ edge ∈ dependenciesOf descriptor false, ∀ folder,
      w.Probes before visit.folder edge.name folder → SameDescriptor before after folder) :
    w.expand after graph visit descriptor = w.expand before graph visit descriptor := by
  simp only [expand, visitsOf_congr same]

/-- Where the descriptors that a walk looks for are the same, it finds the same modules, unless it
is cut off. -/
theorem walkOn_congr {allowed : Nat} {walk : Walk}
    (walked : w.walkOn before allowed graph pruned pending = .ok walk) (whole : walk.pending = [])
    (same : ∀ folder, w.FollowsTo before walk.graph folder → SameDescriptor before after folder)
    (still : ∀ visit ∈ pending, SameDescriptor before after visit.folder) (more : Nat) :
    w.walkOn after more graph pruned pending = .ok walk ∨
      ∃ cut, w.walkOn after more graph pruned pending = .ok cut ∧ cut.pending ≠ [] := by
  fun_induction walkOn w before allowed graph pruned pending generalizing more with
  | case1 =>
      cases walked
      rw [walkOn.eq_def]
      exact .inl rfl
  | case2 => cases walked
  | case3 => cases walked
  | case4 allowed graph pruned visit rest descriptor loaded name known next revisited ih =>
      obtain ⟨here, later⟩ := List.forall_mem_cons.mp still
      rw [walkOn.eq_def]
      simp only [here.load, loaded]
      rw [if_pos known, revisited]
      exact ih walked later more
  | case5 allowed graph pruned visit rest descriptor loaded name fresh left ih =>
      obtain ⟨here, later⟩ := List.forall_mem_cons.mp still
      rw [walkOn.eq_def]
      simp only [here.load, loaded]
      rw [if_neg fresh, if_pos left]
      exact ih walked later more
  | case6 allowed graph pruned visit rest descriptor loaded name fresh kept refused ih =>
      obtain ⟨here, later⟩ := List.forall_mem_cons.mp still
      rw [walkOn.eq_def]
      simp only [here.load, loaded]
      rw [if_neg fresh, if_neg kept, if_pos refused]
      exact ih walked later more
  | case7 =>
      cases walked
      cases whole
  | case8 => cases walked
  | case9 graph pruned visit rest descriptor loaded name fresh kept accepted allowed next visits
      expanded ih =>
      obtain ⟨here, later⟩ := List.forall_mem_cons.mp still
      obtain ⟨_, ⟨node, found, dir, main⟩, roles, all⟩ := grows_expand (by simpa using fresh) expanded
      obtain ⟨last, there, lastDir, lastMain⟩ := grows_walkOn walked _ _ found
      -- the package is a module in the end, so what it depends on is looked for
      have probed : ∀ edge ∈ dependenciesOf descriptor false, ∀ folder,
          w.Probes before visit.folder edge.name folder → SameDescriptor before after folder := by
        intro edge listed folder probes
        have home : last.dir = visit.folder := lastDir.trans dir
        exact same folder ⟨_, last, descriptor, there, home ▸ loaded, edge,
          (lastMain.trans main) ▸ listed, home ▸ probes⟩
      rw [walkOn.eq_def]
      simp only [here.load, loaded]
      rw [if_neg fresh, if_neg kept, if_neg accepted]
      cases more with
      | zero => exact .inr ⟨_, rfl, List.cons_ne_nil _ _⟩
      | succ more =>
          simp only [expand_congr probed, expanded]
          refine ih walked (List.forall_mem_append.mpr ⟨fun next listed => ?_, later⟩) more
          rw [all] at listed
          obtain ⟨edge, member, probes⟩ := probes_of_mem_visitsOf listed
          exact probed edge member _ probes

/-- To find the modules of a workspace is to look for a descriptor in a folder: its own, that of
what a pattern stands for, or that where a dependency is looked for. -/
inductive Opens (disk : Disk) (root : Path) : Path → Prop where
  | own : Opens disk root root
  | member {descriptor : Descriptor} {folder : Path}
      (loaded : Descriptor.load disk root = .ok descriptor)
      (looked : Members.LooksInto disk root descriptor folder) : Opens disk root folder
  | dependency {w : Workspace} {graph : ModuleGraph} {folder : Path}
      (loaded : load disk root = .ok w) (resolved : resolve disk root = .ok graph)
      (followed : w.FollowsTo disk graph folder) : Opens disk root folder

/-- To find the modules of a workspace once more is to look for a descriptor in the same folders, and
in those that patterns stand for by then. -/
inductive Seeks (before after : Disk) (root : Path) : Path → Prop where
  | opened {folder : Path} (opens : Opens before root folder) : Seeks before after root folder
  | matched {descriptor : Descriptor} {folder : Path}
      (loaded : Descriptor.load before root = .ok descriptor)
      (looked : Members.LooksInto after root descriptor folder) : Seeks before after root folder

/-- Settling leads to no other folder. -/
theorem FollowsTo.of_sameShape {disk : Disk} {folder : Path} (follows : w.FollowsTo disk graph folder)
    (same : ModuleGraph.SameShape graph next) : w.FollowsTo disk next folder := by
  obtain ⟨name, node, descriptor, found, loaded, edge, listed, probes⟩ := follows
  obtain ⟨other, there, bare⟩ := same.get? found
  have dir : other.dir = node.dir := (congrArg GraphNode.dir bare :)
  have main : other.main = node.main := (congrArg GraphNode.main bare :)
  exact ⟨name, other, descriptor, there, dir ▸ loaded, edge, main ▸ listed, dir ▸ probes⟩

/-- The workspace's own module is found first. -/
theorem exists_get?_start (w : Workspace) (disk : Disk) :
    ∃ node, (w.start disk).graph.get? (w.descriptor.nameOr w.root) = some node ∧
      node.dir = w.root ∧ node.main = true := by
  refine ⟨{ w.nodeOf w.descriptor w.root true with roles := [.standard] }, ?_, rfl, rfl⟩
  rw [start, ModuleGraph.get?, ModuleGraph.single, Assoc.get?_cons]
  exact if_pos (beq_self_eq_true _)

variable {root : Path}

/-- Where the workspace's own descriptor is the same, what is looked for once more is looked for
before or after. -/
theorem Seeks.opens {folder : Path} (h : Seeks before after root folder)
    (own : SameDescriptor before after root) : Opens before root folder ∨ Opens after root folder := by
  cases h with
  | opened opens => exact .inl opens
  | matched loaded looked => exact .inr (.member (own.load.trans loaded) looked)

theorem load_congr (proper : before.IsProper) (alsoProper : after.IsProper)
    (grown : Disk.KeepsFolders before after)
    (same : ∀ folder, Seeks before after root folder → SameDescriptor before after folder)
    (loaded : load before root = .ok w) : load after root = .ok w := by
  obtain ⟨rfl, read, found⟩ := load_eq_ok_iff.mp loaded
  refine load_eq_ok_iff.mpr ⟨rfl, (same _ (.opened .own)).load.trans read, ?_⟩
  rw [Members.discover_congr proper alsoProper grown fun folder looked =>
    same folder (.matched read looked), found]

/-- Where the descriptors that are looked for are the same, the modules of a workspace are. -/
theorem resolve_congr (proper : before.IsProper) (alsoProper : after.IsProper)
    (grown : Disk.KeepsFolders before after)
    (same : ∀ folder, Seeks before after root folder → SameDescriptor before after folder)
    (resolved : resolve before root = .ok graph) : resolve after root = .ok graph := by
  obtain ⟨w, found, loaded, walked, settled⟩ := resolve_eq_ok_iff.mp resolved
  have loadedAgain := load_congr proper alsoProper grown same loaded
  refine resolve_eq_ok_iff.mpr ⟨w, found, loadedAgain, ?_, settled⟩
  obtain ⟨walk, walkedOn, rfl⟩ := map_eq_ok.mp walked
  obtain ⟨rfl, read, _⟩ := load_eq_ok_iff.mp loaded
  have start : (w.start before).graph.IsHoused before := .single rfl rfl read rfl
  have housed : walk.graph.IsHoused before := isHoused_walkOn start walkedOn
  have shape := ModuleGraph.sameShape_complete housed.consistent
  rw [settled] at shape
  have followed : ∀ folder, w.FollowsTo before walk.graph folder → SameDescriptor before after folder :=
    fun folder follows =>
      same folder (.opened (.dependency loaded resolved (follows.of_sameShape shape)))
  obtain ⟨first, found, firstDir, firstMain⟩ := exists_get?_start w before
  obtain ⟨own, there, ownDir, ownMain⟩ := grows_walkOn walkedOn _ first found
  have probed : ∀ edge ∈ dependenciesOf w.descriptor true, ∀ folder,
      w.Probes before w.root edge.name folder → SameDescriptor before after folder := by
    intro edge listed folder probes
    have dir : own.dir = w.root := ownDir.trans firstDir
    have main : own.main = true := ownMain.trans firstMain
    exact followed folder ⟨_, own, w.descriptor, there, dir ▸ read, edge, main ▸ listed, dir ▸ probes⟩
  have start : w.start after = w.start before := by
    rw [Workspace.start, Workspace.start, visitsOf_congr probed]
  have pending : ∀ visit ∈ (w.start before).pending, SameDescriptor before after visit.folder := by
    intro visit listed
    obtain ⟨edge, member, probes⟩ := probes_of_mem_visitsOf listed
    exact probed edge member _ probes
  have again := walkOn_congr walkedOn (pending_of_start read walkedOn) followed pending
    (mostModules after)
  have whole : w.walkOn after (mostModules after) (w.start before).graph (w.start before).pruned
      (w.start before).pending = .ok walk := by
    rcases again with done | ⟨cut, done, left⟩
    · exact done
    · rw [← start] at done
      exact absurd (pending_of_start (load_eq_ok_iff.mp loadedAgain).2.1 done) left
  rw [Workspace.walk, start, whole]
  rfl

end Workspace

end WorkspaceBuild
