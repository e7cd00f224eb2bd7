import WorkspaceBuild.Proofs.Graph.Walks
import WorkspaceBuild.Proofs.Looks.Resolutions

/-! # What the walk leaves out

A package that is accepted joins the modules, unless one of the same name was refused before: what
is left out is kept by name, while a dependency is looked for from the folder of the module that has
it.
-/

namespace WorkspaceBuild

namespace Workspace

variable {w : Workspace} {disk : Disk}

/-- A module depends on the package in a folder: the name of a dependency that counts for it leads
there from its own folder. -/
def DependsOn (w : Workspace) (disk : Disk) (graph : ModuleGraph) (parent : String)
    (folder : Path) : Prop :=
  ∃ node descriptor edge, graph.get? parent = some node ∧
    Descriptor.load disk node.dir = .ok descriptor ∧ edge ∈ dependenciesOf descriptor node.main ∧
      w.folderOf? disk node.dir edge.name = some folder

/-- A module depends on a package that is not accepted. -/
def Refuses (w : Workspace) (disk : Disk) (graph : ModuleGraph) (name : String) : Prop :=
  ∃ parent folder descriptor, w.DependsOn disk graph parent folder ∧
    Descriptor.load disk folder = .ok descriptor ∧ descriptor.nameOr folder = name ∧
      w.accepts descriptor folder = false

/-- What has come of a dependency that was visited. -/
def Answered (disk : Disk) (found : Found) (parent : String) (folder : Path) : Prop :=
  ∃ descriptor, Descriptor.load disk folder = .ok descriptor ∧
    (found.graph.contains (descriptor.nameOr folder) = true ∧
        (descriptor.nameOr folder = parent ∨
          found.graph.Leads parent (descriptor.nameOr folder)) ∨
      descriptor.nameOr folder ∈ found.pruned)

/-- Every dependency of a module is pending or has been visited, and a package is left out only when
one of its name was refused. -/
structure Tracks (w : Workspace) (disk : Disk) (found : Found) (pending : List Visit) : Prop where
  asked : ∀ visit ∈ pending, w.DependsOn disk found.graph visit.parent visit.folder
  answered : ∀ parent folder, w.DependsOn disk found.graph parent folder →
    (∃ visit ∈ pending, visit.parent = parent ∧ visit.folder = folder) ∨
      Answered disk found parent folder
  refused : ∀ name ∈ found.pruned,
    found.graph.contains name = false ∧ w.Refuses disk found.graph name

section Steps

variable {graph next : ModuleGraph} {found after : Found} {visit : Visit}
  {rest pending visits : List Visit} {names expanded : List String} {parent : String} {folder : Path}

theorem DependsOn.grown (grows : graph.Grows next) (h : w.DependsOn disk graph parent folder) :
    w.DependsOn disk next parent folder := by
  obtain ⟨node, descriptor, edge, known, loaded, listed, leads⟩ := h
  obtain ⟨later, there, dir, main⟩ := grows parent node known
  exact ⟨later, descriptor, edge, there, dir ▸ loaded, main ▸ listed, dir ▸ leads⟩

/-- A module that stays depends on nothing new. -/
theorem DependsOn.of_grown (grows : graph.Grows next) (known : graph.contains parent = true)
    (h : w.DependsOn disk next parent folder) : w.DependsOn disk graph parent folder := by
  obtain ⟨later, descriptor, edge, there, loaded, listed, leads⟩ := h
  obtain ⟨node, found⟩ := ModuleGraph.contains_iff.mp known
  obtain ⟨other, thereToo, dir, main⟩ := grows parent node found
  cases there.symm.trans thereToo
  exact ⟨node, descriptor, edge, found, dir ▸ loaded, main ▸ listed, dir ▸ leads⟩

theorem DependsOn.contains (h : w.DependsOn disk graph parent folder) :
    graph.contains parent = true := by
  obtain ⟨node, _, _, known, _⟩ := h
  exact ModuleGraph.contains_iff.mpr ⟨node, known⟩

theorem Refuses.grown {name : String} (grows : graph.Grows next)
    (h : w.Refuses disk graph name) : w.Refuses disk next name := by
  obtain ⟨parent, folder, descriptor, depends, rest⟩ := h
  exact ⟨parent, folder, descriptor, depends.grown grows, rest⟩

theorem Answered.mono (known : ∀ name, found.graph.contains name = true →
      after.graph.contains name = true)
    (leads : ∀ source target, found.graph.Leads source target → after.graph.Leads source target)
    (left : ∀ name ∈ found.pruned, name ∈ after.pruned)
    (h : Answered disk found parent folder) : Answered disk after parent folder := by
  obtain ⟨descriptor, loaded, ⟨joined, link⟩ | refused⟩ := h
  · exact ⟨descriptor, loaded, .inl ⟨known _ joined, link.imp_right (leads _ _)⟩⟩
  · exact ⟨descriptor, loaded, .inr (left _ refused)⟩

/-- What was answered before stays so, and now the first visit is. -/
theorem Tracks.after_step (h : w.Tracks disk found (visit :: rest))
    (grows : found.graph.Grows after.graph)
    (leads : ∀ source target, found.graph.Leads source target → after.graph.Leads source target)
    (left : ∀ name ∈ found.pruned, name ∈ after.pruned)
    (refused : ∀ name ∈ after.pruned,
      after.graph.contains name = false ∧ w.Refuses disk after.graph name)
    (asked : ∀ next ∈ visits, w.DependsOn disk after.graph next.parent next.folder)
    (new : ∀ parent folder, w.DependsOn disk after.graph parent folder →
      found.graph.contains parent = true ∨ ∃ next ∈ visits, next.parent = parent ∧ next.folder = folder)
    (here : Answered disk after visit.parent visit.folder) :
    w.Tracks disk after (visits ++ rest) where
  asked := List.forall_mem_append.mpr ⟨asked, fun next listed =>
    (h.asked next (List.mem_cons_of_mem _ listed)).grown grows⟩
  answered parent folder depends := by
    have known (name : String) (known : found.graph.contains name = true) :
        after.graph.contains name = true := by
      obtain ⟨node, there⟩ := ModuleGraph.contains_iff.mp known
      obtain ⟨later, thereToo, _⟩ := grows name node there
      exact ModuleGraph.contains_iff.mpr ⟨later, thereToo⟩
    rcases new parent folder depends with old | ⟨next, listed, same⟩
    · rcases h.answered parent folder (depends.of_grown grows old) with waiting | answered
      · obtain ⟨next, listed, rfl, rfl⟩ := waiting
        rcases List.mem_cons.mp listed with rfl | later
        · exact .inr here
        · exact .inl ⟨next, List.mem_append_right _ later, rfl, rfl⟩
      · exact .inr (answered.mono known leads left)
    · exact .inl ⟨next, List.mem_append_left _ listed, same⟩
  refused

theorem Tracks.after_meet (h : w.Tracks disk found (visit :: rest))
    (met : w.meet disk found visit = .ok (after, names, visits)) :
    w.Tracks disk after (visits ++ rest) := by
  obtain ⟨descriptor, loaded, meets⟩ := meet_eq_ok_iff.mp met
  have depends := h.asked visit List.mem_cons_self
  cases meets with
  | again known revisited =>
      obtain ⟨leads, link, _, contains⟩ := leads_revisit revisited
      have grows := grows_revisit revisited
      refine h.after_step grows leads (fun name left => left) (fun name left => ?_) (by simp)
        (fun parent folder depends => .inl ?_) ⟨descriptor, loaded, .inl ⟨?_, ?_⟩⟩
      · obtain ⟨fresh, refuses⟩ := h.refused name left
        exact ⟨(contains name).trans fresh, refuses.grown grows⟩
      · rw [← contains]
        exact depends.contains
      · rw [contains, known]
      · exact (eq_or_ne visit.parent _).imp Eq.symm link
  | passed fresh left =>
      exact h.after_step (.refl _) (fun _ _ leads => leads) (fun _ left => left) h.refused (by simp)
        (fun _ _ depends => .inl depends.contains)
        ⟨descriptor, loaded, .inr (List.contains_iff_mem.mp left)⟩
  | refused fresh kept foreign =>
      refine h.after_step (.refl _) (fun _ _ leads => leads) (fun _ left => List.mem_cons_of_mem _ left)
        (List.forall_mem_cons.mpr ⟨⟨fresh, ?_⟩, h.refused⟩) (by simp)
        (fun _ _ depends => .inl depends.contains) ⟨descriptor, loaded, .inr List.mem_cons_self⟩
      exact ⟨visit.parent, visit.folder, descriptor, depends, loaded, rfl, foreign⟩
  | joined fresh kept accepted expanded =>
      obtain ⟨leads, link, _, contains⟩ := leads_expand fresh expanded
      obtain ⟨grows, ⟨node, found, dir, main⟩, roles, all⟩ := grows_expand fresh expanded
      -- the dependencies of the new module are all pending now
      have pending {edge : Edge} {folder : Path} (listed : edge ∈ dependenciesOf descriptor false)
          (there : w.folderOf? disk visit.folder edge.name = some folder) :
          ∃ next ∈ visits, next.parent = descriptor.nameOr visit.folder ∧ next.folder = folder := by
        rw [all]
        exact ⟨_, List.mem_filterMap.mpr ⟨edge, listed, by rw [there]; rfl⟩, rfl, rfl⟩
      refine h.after_step grows leads (fun name left => left) (fun name left => ?_) (fun next listed => ?_)
        (fun parent folder depends => ?_) ⟨descriptor, loaded, .inl ⟨(contains _).mpr (.inr rfl), ?_⟩⟩
      · obtain ⟨out, refuses⟩ := h.refused name left
        refine ⟨?_, refuses.grown grows⟩
        rw [← Bool.not_eq_true, contains, not_or, out]
        refine ⟨Bool.false_ne_true, ?_⟩
        rintro rfl
        simp [left] at kept
      · rw [all] at listed
        obtain ⟨edge, member, there⟩ := List.mem_filterMap.mp listed
        obtain ⟨folder, leads, rfl⟩ := Option.map_eq_some_iff.mp there
        refine ⟨node, descriptor, edge, found, ?_⟩
        rw [dir, main]
        exact ⟨loaded, member, leads⟩
      · rcases (contains parent).mp depends.contains with old | rfl
        · exact .inl old
        · obtain ⟨other, said, edge, there, loadedToo, listed, leads⟩ := depends
          cases found.symm.trans there
          rw [dir] at loadedToo leads
          cases loaded.symm.trans loadedToo
          exact .inr (pending (main ▸ listed) leads)
      · exact (eq_or_ne visit.parent _).imp Eq.symm link

theorem Stacked.tracks (h : w.Tracks disk found pending) {result : Except PackageError Found}
    (run : w.Stacked disk found pending expanded result) {last : Found} (done : result = .ok last) :
    w.Tracks disk last [] := by
  induction run with
  | done found =>
      cases done
      exact h
  | fails met => cases done
  | step met run ih => exact ih (h.after_meet met) done

end Steps

theorem tracks_start (own : Descriptor.load disk w.root = .ok w.descriptor) :
    w.Tracks disk (.start w disk) (w.start disk).pending where
  asked visit listed := by
    obtain ⟨node, found, dir, main⟩ := exists_get?_start w disk
    obtain ⟨edge, member, there⟩ := List.mem_filterMap.mp listed
    obtain ⟨folder, leads, rfl⟩ := Option.map_eq_some_iff.mp there
    refine ⟨node, w.descriptor, edge, found, ?_⟩
    rw [dir, main]
    exact ⟨own, member, leads⟩
  answered parent folder depends := by
    obtain ⟨node, found, dir, main⟩ := exists_get?_start w disk
    obtain rfl := (contains_start w disk).mp depends.contains
    obtain ⟨other, descriptor, edge, there, loaded, listed, leads⟩ := depends
    cases found.symm.trans there
    rw [dir] at loaded leads
    cases own.symm.trans loaded
    rw [main] at listed
    exact .inl ⟨_, List.mem_filterMap.mpr ⟨edge, listed, by rw [leads]; rfl⟩, rfl, rfl⟩
  refused name left := by cases left

/-- All that the modules depend on and that is accepted is among them, but for packages of a name
that was refused. -/
structure IsClosed (w : Workspace) (disk : Disk) (graph : ModuleGraph) : Prop where
  read : ∀ parent node, graph.get? parent = some node → ∃ descriptor,
    Descriptor.load disk node.dir = .ok descriptor ∧ descriptor.nameOr node.dir = parent
  closed : ∀ parent node descriptor dependency folder, graph.get? parent = some node →
    Descriptor.load disk node.dir = .ok descriptor →
    dependency ∈ descriptor.dependencies.keys ∨ dependency ∈ descriptor.peerDependencies.keys ∨
      (parent = w.descriptor.nameOr w.root ∧ dependency ∈ descriptor.devDependencies.keys) →
    w.folderOf? disk node.dir dependency = some folder →
    ∃ package, Descriptor.load disk folder = .ok package ∧
      (w.accepts package folder = true →
        if graph.contains (package.nameOr folder) then
          package.nameOr folder = parent ∨ graph.Leads parent (package.nameOr folder)
        else w.Refuses disk graph (package.nameOr folder))

/-- The walk finds all that its modules depend on and that is accepted, but for packages of a name
that was refused. -/
theorem isClosed_of_walk {root : Path} (loaded : load disk root = .ok w) {graph : ModuleGraph}
    (walked : w.walk disk = .ok graph) : w.IsClosed disk graph := by
  obtain ⟨rfl, own, _⟩ := load_eq_ok_iff.mp loaded
  obtain ⟨expanded, result, run, same⟩ := exists_stacked_start own
  obtain ⟨last, done, rfl⟩ := map_eq_ok.mp (same.symm.trans walked)
  obtain ⟨walk, walkedOn, same⟩ := map_eq_ok.mp walked
  have tracks := run.tracks (tracks_start own) done
  have start : (w.start disk).graph.IsHoused disk := .single rfl rfl own rfl
  have housed : last.graph.IsHoused disk := same ▸ isHoused_walkOn start walkedOn
  refine ⟨housed.homes, fun parent node descriptor dependency folder found read listed resolved => ?_⟩
  have main (top : parent = w.descriptor.nameOr w.root) : node.main = true := by
    obtain ⟨first, there, _, firstMain⟩ := exists_get?_start w disk
    obtain ⟨later, thereToo, _, laterMain⟩ := grows_walkOn walkedOn _ first there
    rw [same, ← top, found] at thereToo
    cases thereToo
    exact laterMain.trans firstMain
  have depends : w.DependsOn disk last.graph parent folder := by
    rcases listed with production | peer | ⟨top, development⟩
    · exact ⟨node, descriptor, ⟨dependency, .production⟩, found, read,
        mem_dependenciesOf_iff.mpr (.inl ⟨rfl, production⟩), resolved⟩
    · exact ⟨node, descriptor, ⟨dependency, .peer⟩, found, read,
        mem_dependenciesOf_iff.mpr (.inr (.inl ⟨rfl, peer⟩)), resolved⟩
    · exact ⟨node, descriptor, ⟨dependency, .development⟩, found, read,
        mem_dependenciesOf_iff.mpr (.inr (.inr ⟨main top, rfl, development⟩)), resolved⟩
  rcases tracks.answered parent folder depends with ⟨_, waiting, _⟩ | ⟨package, loaded, answer⟩
  · cases waiting
  · refine ⟨package, loaded, fun _ => ?_⟩
    rcases answer with ⟨known, link⟩ | left
    · rwa [if_pos known]
    · obtain ⟨fresh, refuses⟩ := tracks.refused _ left
      rwa [if_neg (by simp [fresh])]

section Copies

/-- A package has its own copy of what the workspace depends on too, but only the other copy speaks
to the framework. -/
def copiesDisk : Disk :=
  ⟨[("w", .folder [("node_modules", .folder [
      ("b", .folder [
        ("node_modules", .folder [("x", .folder [("package.json", .file (.text "\x7b\x7d") 5)] 5)] 5),
        ("package.json", .file (.text
          "\x7b\"loom\":\x7b\x7d,\"dependencies\":\x7b\"x\":\"1\"\x7d\x7d") 5)] 5),
      ("x", .folder [("package.json", .file (.text "\x7b\"loom\":\x7b\x7d\x7d") 5)] 5)] 5),
    ("package.json", .file (.text
      "\x7b\"dependencies\":\x7b\"b\":\"1\",\"x\":\"1\"\x7d\x7d") 5)] 5)]⟩

def copiesWorkspace : Workspace :=
  ⟨⟨"/w"⟩, { dependencies := [("b", "1"), ("x", "1")] }, ⟨[]⟩⟩

def copiesVisits : List Visit :=
  [⟨⟨"/w/node_modules/b"⟩, "w", .production, [.standard]⟩,
    ⟨⟨"/w/node_modules/x"⟩, "w", .production, [.standard]⟩]

/-- The workspace's own module and the one package that is found. -/
def copiesGraph : ModuleGraph where
  root := "w"
  nodes := [
    ("b", {
      name := "b", dir := ⟨"/w/node_modules/b"⟩, roles := [.standard], parents := ["w"] }),
    ("w", {
      name := "w", dir := ⟨"/w"⟩, main := true, workspace := true, roles := [.standard]
      roleRoot := true, dependencies := [⟨"b", .production⟩] })]
  order := ["w", "b"]

set_option maxRecDepth 4000

theorem pending_copies : (copiesWorkspace.start copiesDisk).pending = copiesVisits := by
  have sorted : dependenciesOf copiesWorkspace.descriptor true =
      [⟨"b", .production⟩, ⟨"x", .production⟩] := List.mergeSort_of_pairwise (by decide)
  change (dependenciesOf copiesWorkspace.descriptor true).filterMap _ = _
  rw [sorted]
  decide

theorem walk_copies : copiesWorkspace.walk copiesDisk = .ok copiesGraph := by
  have run : copiesWorkspace.Stacked copiesDisk (.start copiesWorkspace copiesDisk) copiesVisits
      ["b"] (.ok ⟨copiesGraph, ["x"]⟩) := by
    have first : copiesWorkspace.meet copiesDisk (.start copiesWorkspace copiesDisk)
        ⟨⟨"/w/node_modules/b"⟩, "w", .production, [.standard]⟩ = .ok (⟨copiesGraph, []⟩, ["b"],
          [⟨⟨"/w/node_modules/b/node_modules/x"⟩, "b", .production, [.standard]⟩]) :=
      eq_ok_of_toOption (by decide +kernel)
    have inner : copiesWorkspace.meet copiesDisk ⟨copiesGraph, []⟩
        ⟨⟨"/w/node_modules/b/node_modules/x"⟩, "b", .production, [.standard]⟩ =
          .ok (⟨copiesGraph, ["x"]⟩, [], []) := eq_ok_of_toOption (by decide +kernel)
    have last : copiesWorkspace.meet copiesDisk ⟨copiesGraph, ["x"]⟩
        ⟨⟨"/w/node_modules/x"⟩, "w", .production, [.standard]⟩ =
          .ok (⟨copiesGraph, ["x"]⟩, [], []) := eq_ok_of_toOption (by decide +kernel)
    exact .step first (.step inner (.step last (.done _)))
  have own : Descriptor.load copiesDisk copiesWorkspace.root = .ok copiesWorkspace.descriptor :=
    eq_ok_of_toOption (by decide +kernel)
  exact Stacked.walk_eq own (pending_copies ▸ run)

/-- The copy that the workspace depends on is accepted, and is left out. -/
theorem isClosed_of_walk_copies : load copiesDisk ⟨"/w"⟩ = .ok copiesWorkspace ∧
    copiesWorkspace.walk copiesDisk = .ok copiesGraph ∧
      copiesWorkspace.IsClosed copiesDisk copiesGraph ∧
        copiesWorkspace.folderOf? copiesDisk ⟨"/w"⟩ "x" = some ⟨"/w/node_modules/x"⟩ ∧
          Descriptor.load copiesDisk ⟨"/w/node_modules/x"⟩ = .ok { framework := some {} } ∧
            copiesWorkspace.accepts { framework := some {} } ⟨"/w/node_modules/x"⟩ = true ∧
              copiesGraph.contains "x" = false := by
  have loaded : load copiesDisk ⟨"/w"⟩ = .ok copiesWorkspace := eq_ok_of_toOption (by decide +kernel)
  exact ⟨loaded, walk_copies, isClosed_of_walk loaded walk_copies, by decide +kernel,
    eq_ok_of_toOption (by decide +kernel), by decide +kernel, by decide +kernel⟩

end Copies

end Workspace

end WorkspaceBuild
