import WorkspaceBuild.Proofs.Graph.Calls
import WorkspaceBuild.Proofs.Looks.Snapshots
import WorkspaceBuild.Proofs.Manifests.Current

/-! # What a snapshot records

A snapshot has a module for each node of its graph, whose entries are the files that the session
answers with for the folder of the node. What it answered once it answers from then on, so the files
can be asked for again afterwards.
-/

namespace WorkspaceBuild

namespace ModuleGraph

theorem named_made (root : GraphNode) (calls : List Call) {name : String} {node : GraphNode}
    (found : (made root calls).get? name = some node) : node.name = name := by
  induction calls using List.reverseRecOn generalizing name node with
  | nil =>
      obtain ⟨rfl, rfl⟩ := of_get?_single found
      rfl
  | append_singleton calls call ih =>
      rw [made_concat] at found
      rcases perform_cases (g := made root calls) call with
        ⟨new, rfl, done⟩ | ⟨parent, child, kind, rfl, ⟨e, done⟩ | ⟨next, added, done⟩⟩
      · rw [done] at found
        cases present : (made root calls).contains new.name with
        | true =>
            rw [addNode, if_pos present] at found
            exact ih found
        | false =>
            rw [get?_addNode present] at found
            split at found
            · rename_i same
              cases found
              exact same.symm
            · exact ih found
      · rw [done] at found
        exact ih found
      · rw [done] at found
        by_cases same : parent = child
        · rw [addEdge, if_pos same] at added
          cases added
          exact ih found
        · obtain ⟨_, _, _, answers⟩ := get?_addEdge added same
          rw [show (_ : Answer × ModuleGraph).2 = next from rfl, answers] at found
          split at found
          · obtain ⟨before, known, rfl⟩ := Option.map_eq_some_iff.mp found
            exact (ih known : before.name = name)
          · split at found
            · obtain ⟨before, known, rfl⟩ := Option.map_eq_some_iff.mp found
              exact (ih known : before.name = name)
            · exact ih found

theorem isListed_made (root : GraphNode) (calls : List Call) : (made root calls).IsListed := by
  obtain ⟨order, listed⟩ := order_made root calls
  exact ⟨fun _ _ => named_made root calls, listed, order ▸ nodup_eraseDups _⟩

end ModuleGraph

namespace Scan

/-- The files of a scan, told apart by their paths, with what these say of them. -/
structure IsListing (files : List ScannedFile) : Prop where
  once : (files.map ScannedFile.path).Nodup
  filed : ∀ file ∈ files, classify file.path = some (file.category, file.role) ∧
    file.kind = fileKind file.path file.category

theorem isListing_of_run {disk : Disk} (proper : disk.IsProper) {moduleName : String}
    {scope : Scope} {files : List ScannedFile} (ran : run disk moduleName scope = .ok files) :
    IsListing files := by
  cases there : disk.item scope.folder with
  | error fault => simp [run, there] at ran
  | ok item =>
      have found := ran
      rw [run, there] at found
      refine ⟨?_, forall_of_mapM (fun entry _ file said => ?_) found⟩
      · cases item with
        | file contents time =>
            obtain ⟨file, rest, _, none, rfl⟩ := mapM_cons_eq_ok.mp found
            cases none
            exact List.nodup_singleton _
        | folder entries modified =>
            have ordered : Item.InOrder entries :=
              Disk.inOrder_itemAt? proper.ordered (Disk.item_eq_ok_iff.mp there).2
            have paths := congrArg (List.map Prod.fst) (found_of_run there ran)
            rw [List.map_map] at paths
            exact (paths : files.map ScannedFile.path = _) ▸
              nodup_filesIn ordered (proper.hasPlainNames there)
      · obtain ⟨path, _, said⟩ := classified_eq_ok_iff.mp said
        exact path ▸ said

end Scan

namespace Session

variable {session : Session} {disk : Disk} {moduleName : String} {scope : Scan.Scope}

theorem IsHonest.listings (honest : session.IsHonest) : session.Keeps Scan.IsListing :=
  honest.keeps Scan.isListing_of_run

/-- What a session answered it answers again. -/
theorem lookup_of_scan {files : List ScannedFile}
    (answer : (session.scan disk moduleName scope).2 = .ok files) :
    (session.scan disk moduleName scope).1.scans.lookup scope.key = some files := by
  cases kept : session.scans.lookup scope.key with
  | some others =>
      simp only [scan, kept] at answer ⊢
      exact congrArg some (Except.ok.inj answer)
  | none =>
      cases ran : Scan.run disk moduleName scope with
      | error e =>
          simp only [scan, kept, ran] at answer
          cases answer
      | ok found =>
          simp only [scan, kept, ran] at answer ⊢
          cases answer
          simp

/-- Later scans leave an answer as it is. -/
theorem lookup_scan_of_some {key : ScanKey} {files : List ScannedFile}
    (kept : session.scans.lookup key = some files) :
    (session.scan disk moduleName scope).1.scans.lookup key = some files := by
  rw [scan]
  split
  · exact kept
  · rename_i absent
    split
    · have other : (key == scope.key) = false := by
        refine Bool.eq_false_iff.mpr fun same => ?_
        rw [eq_of_beq same, absent] at kept
        cases kept
      simp [List.lookup_cons, other, kept]
    · exact kept

theorem IsOf.after_scan (isOf : session.IsOf disk) (moduleName : String) (scope : Scan.Scope) :
    (session.scan disk moduleName scope).1.IsOf disk := by
  rcases session.scan_cases disk moduleName scope with
    ⟨found, kept, same⟩ | ⟨found, ran, same⟩ | ⟨e, same⟩
  · rw [same]
    exact isOf
  · rw [same]
    exact List.forall_mem_cons.mpr ⟨⟨moduleName, scope, rfl, ran⟩, isOf⟩
  · rw [same]
    exact isOf

end Session

namespace Snapshot

variable {disk : Disk} {settings : Settings} {full : Bool} {session : Session} {now : Nat}

theorem lookup_modulesOf_of_some {nodes : List GraphNode} {key : ScanKey} {files : List ScannedFile}
    (kept : session.scans.lookup key = some files) :
    (modulesOf disk settings full session nodes).1.scans.lookup key = some files := by
  induction nodes generalizing session with
  | nil => exact kept
  | cons node rest ih =>
      have next : (session.scan disk node.name (scopeOf settings full node)).1.scans.lookup key =
          some files := Session.lookup_scan_of_some kept
      cases scanned : session.scan disk node.name (scopeOf settings full node) with
      | mk after answer =>
          rw [scanned] at next
          cases answer with
          | error e => simpa only [modulesOf, scanned] using next
          | ok files => simpa only [modulesOf, scanned] using ih next

/-- The modules are made of what the session answers when all is done. -/
theorem modulesOf_answers {nodes : List GraphNode} {modules : List Module}
    (all : (modulesOf disk settings full session nodes).2 = .ok modules) :
    List.Forall₂ (fun node m => ∃ files,
      (modulesOf disk settings full session nodes).1.scans.lookup (scopeOf settings full node).key =
          some files ∧ m = moduleOf settings node files) nodes modules := by
  induction nodes generalizing session modules with
  | nil =>
      cases all
      exact .nil
  | cons node rest ih =>
      have answered (files : List ScannedFile)
          (answer : (session.scan disk node.name (scopeOf settings full node)).2 = .ok files) :=
        Session.lookup_of_scan answer
      cases scanned : session.scan disk node.name (scopeOf settings full node) with
      | mk after answer =>
          rw [scanned] at answered
          cases answer with
          | error e =>
              simp only [modulesOf, scanned] at all
              cases all
          | ok files =>
              simp only [modulesOf, scanned] at all ⊢
              obtain ⟨others, later, rfl⟩ := map_eq_ok.mp all
              exact .cons ⟨files, lookup_modulesOf_of_some (answered files rfl), rfl⟩ (ih later)

/-- A module has its scanned files, each once. -/
theorem perm_entries_moduleOf (node : GraphNode) {files : List ScannedFile}
    (once : (files.map ScannedFile.path).Nodup) :
    (moduleOf settings node files).entries.Perm
      (files.map fun file => (file.category, entryOf node file)) := by
  have listsOnce := listsOnce_moduleOf settings node once
  have distinct : (files.map fun file => (file.category, entryOf node file)).Nodup :=
    List.Nodup.of_map (fun entry => entry.2.path) (by simpa [Function.comp_def, entryOf] using once)
  refine (List.perm_ext_iff_of_nodup (List.Nodup.of_map _ listsOnce) distinct).mpr ?_
  rintro ⟨category, entry⟩
  rw [mem_entries_moduleOf, List.mem_map]
  simp only [Prod.mk.injEq]

/-- The modules of a manifest stand under their names. -/
theorem module?_manifestOf {graph : ModuleGraph} {main : GraphNode} {modules : List Module}
    (distinct : (modules.map Module.name).Nodup) {name : String} {m : Module} :
    (manifestOf disk settings graph main now modules).module? name = some m ↔
      m ∈ modules ∧ m.name = name := by
  refine ⟨mem_of_manifestOf, ?_⟩
  rintro ⟨member, rfl⟩
  have keys : (Assoc.keys (modules.map fun m => (m.name, m))).Nodup := by
    simpa [Assoc.keys, Function.comp_def] using distinct
  refine (Assoc.get?_ofPairs_of_nodup keys m.name).trans (Assoc.get?_of_mem keys ?_)
  exact List.mem_map_of_mem (f := fun m => (m.name, m)) member

/-- A module is that of a node, with the files that were scanned for it, each once and filed as its
path says. -/
structure Records (settings : Settings) (node : GraphNode) (files : List ScannedFile) (m : Module) :
    Prop where
  name : m.name = node.name
  source : m.source = node.dir
  output : m.output = moduleOutput settings.outputRoot m.name
  entries : m.entries.Perm (files.map fun file => (file.category, entryOf node file))
  once : m.ListsOnce
  ascending : IsAscending m.files.keys
  filed : ∀ category entry, (category, entry) ∈ m.entries →
    classify entry.path = some (category, entry.role) ∧ entry.kind = fileKind entry.path category

theorem records_moduleOf (settings : Settings) (node : GraphNode) {files : List ScannedFile}
    (listing : Scan.IsListing files) : Records settings node files (moduleOf settings node files) where
  name := rfl
  source := rfl
  output := rfl
  entries := perm_entries_moduleOf node listing.once
  once := listsOnce_moduleOf settings node listing.once
  ascending := (entriesOf_spec node files).1
  filed := by
    intro category entry member
    obtain ⟨file, listed, rfl, rfl⟩ := mem_entries_moduleOf.mp member
    exact listing.filed file listed

/-- A manifest has one module for each node of a graph, with the files that a session answers with
after the snapshot. -/
structure RecordsAll (disk : Disk) (settings : Settings) (full : Bool) (graph : ModuleGraph)
    (session after : Session) (manifest : Manifest) : Prop where
  ascending : IsAscending manifest.modules.keys
  known : ∀ name, (manifest.module? name).isSome ↔ graph.contains name
  modules : ∀ name m, manifest.module? name = some m → ∃ node files,
    graph.get? name = some node ∧ node.name = name ∧
    (after.scan disk node.name (scopeOf settings full node)).2 = .ok files ∧
    Records settings node files m ∧
    -- a session that was made on the disk answers with what scanning the disk finds
    (session.IsOf disk → ∃ moduleName scope, Scan.Scope.key scope = (scopeOf settings full node).key ∧
      Scan.run disk moduleName scope = .ok files)

/-- What every scan keeps of a session a snapshot keeps. -/
theorem keeps_modulesOf (invariant : Session → Prop) {nodes : List GraphNode}
    (scan : ∀ session, invariant session → ∀ moduleName scope,
      invariant (session.scan disk moduleName scope).1)
    (start : invariant session) : invariant (modulesOf disk settings full session nodes).1 :=
  (modulesOf_induct invariant (fun _ _ => True)
    (fun session kept node _ => ⟨scan session kept node.name _, fun _ _ => trivial⟩) start).1

theorem names_of_moduleOf {found : GraphNode → List ScannedFile → Prop} {nodes : List GraphNode}
    {modules : List Module} (made : List.Forall₂ (fun node m => ∃ files, found node files ∧
      m = moduleOf settings node files) nodes modules) :
    modules.map Module.name = nodes.map GraphNode.name := by
  induction made with
  | nil => rfl
  | cons here _ ih =>
      obtain ⟨files, _, rfl⟩ := here
      exact congrArg (_ :: ·) ih

theorem recordsAll_of_take (proper : disk.IsProper) {graph : ModuleGraph} (isListed : graph.IsListed)
    (honest : session.IsHonest) {manifest : Manifest}
    (taken : (take disk settings full now graph session).2 = .ok manifest) :
    RecordsAll disk settings full graph session (take disk settings full now graph session).1
      manifest := by
  obtain ⟨main, modules, found, all, rfl⟩ := take_eq_ok taken
  have made := modulesOf_answers all
  have names := names_of_moduleOf made
  have distinct : (modules.map Module.name).Nodup := names ▸ isListed.names ▸ isListed.once
  have listings : (modulesOf disk settings full session graph.inOrder).1.Keeps Scan.IsListing :=
    keeps_modulesOf (·.Keeps Scan.IsListing)
      (fun _ kept _ _ => (kept.scan fun _ => Scan.isListing_of_run proper).1) honest.listings
  have isOf (start : session.IsOf disk) :
      (modulesOf disk settings full session graph.inOrder).1.IsOf disk :=
    keeps_modulesOf (·.IsOf disk) (fun _ kept name scope => kept.after_scan name scope) start
  rw [take_of_main found]
  refine ⟨Assoc.isAscending_ofPairs _, fun name => ?_, fun name m named => ?_⟩
  · rw [Option.isSome_iff_exists, ModuleGraph.contains_iff]
    simp only [module?_manifestOf distinct]
    constructor
    · rintro ⟨m, member, rfl⟩
      obtain ⟨node, listed, _, _, rfl⟩ := exists_of_forall₂_right made m member
      exact ⟨node, isListed.mem_inOrder.mp listed⟩
    · rintro ⟨node, there⟩
      have same := isListed.named name node there
      have listed : name ∈ modules.map Module.name := by
        rw [names, ← same]
        exact List.mem_map_of_mem (isListed.mem_inOrder.mpr (same ▸ there))
      exact List.mem_map.mp listed
  · obtain ⟨member, rfl⟩ := mem_of_manifestOf named
    obtain ⟨node, listed, files, kept, rfl⟩ := exists_of_forall₂_right made m member
    obtain ⟨first, last, split, _⟩ := List.lookup_eq_some_iff.mp kept
    have stored : ((scopeOf settings full node).key, files) ∈
        (modulesOf disk settings full session graph.inOrder).1.scans := by simp [split]
    refine ⟨node, files, isListed.mem_inOrder.mp listed, rfl, by simp only [Session.scan, kept],
      records_moduleOf settings node (listings _ stored), fun start => ?_⟩
    obtain ⟨moduleName, scope, key, ran⟩ := isOf start _ stored
    exact ⟨moduleName, scope, key.symm, ran⟩

end Snapshot

end WorkspaceBuild
