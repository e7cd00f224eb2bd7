import WorkspaceBuild.ManifestIndex
import WorkspaceBuild.Proofs.Scan
import WorkspaceBuild.Proofs.Snapshot

/-! # Manifests of snapshots

A manifest that a snapshot takes names its modules once, and the files of a module lie below its
folder under the categories and kinds that their paths say.
-/

namespace WorkspaceBuild

namespace Session

/-- A session that was made by scanning disks as file systems have them. -/
inductive IsHonest : Session → Prop
  | empty : IsHonest .empty
  | scan {session : Session} (honest : IsHonest session) {disk : Disk} (proper : disk.IsProper)
      (moduleName : String) (scope : Scan.Scope) :
      IsHonest (session.scan disk moduleName scope).1

/-- A session keeps lists of a sort, if scanning disks as file systems have them finds no others. -/
theorem IsHonest.keeps {session : Session} {sort : List ScannedFile → Prop} (honest : session.IsHonest)
    (finds : ∀ {disk : Disk}, disk.IsProper → ∀ {moduleName : String} {scope : Scan.Scope}
      {files : List ScannedFile}, Scan.run disk moduleName scope = .ok files → sort files) :
    session.Keeps sort := by
  induction honest with
  | empty =>
      intro kept member
      cases member
  | scan _ proper _ _ ih => exact (ih.scan fun _ => finds proper).1

end Session

/-- What the files of a module say of themselves. -/
structure Module.IsScanned (m : Module) : Prop where
  filed : ∀ category entry, (category, entry) ∈ m.entries →
    (classify entry.path).map Prod.fst = some category ∧ entry.kind = fileKind entry.path category
  below : (∀ category entry, (category, entry) ∈ m.entries → Scan.IsSeenPath entry.path) ∨
    ∀ category entry, (category, entry) ∈ m.entries → entry.path = ""

theorem Snapshot.isScanned_moduleOf (settings : Settings) (node : GraphNode)
    {files : List ScannedFile} (found : Scan.IsFound files) :
    (moduleOf settings node files).IsScanned where
  filed := by
    intro category entry member
    obtain ⟨file, listed, rfl, rfl⟩ := mem_entries_moduleOf.mp member
    exact ⟨(found.filed file listed).category, (found.filed file listed).kind⟩
  below := by
    refine found.below.imp (fun below category entry member => ?_)
      fun alone category entry member => ?_
    · obtain ⟨file, listed, rfl, rfl⟩ := mem_entries_moduleOf.mp member
      exact below file listed
    · obtain ⟨file, listed, rfl, rfl⟩ := mem_entries_moduleOf.mp member
      exact alone file listed

namespace Manifest

/-- A manifest that a snapshot takes of some graph, on a disk as file systems have them. -/
def IsTaken (manifest : Manifest) : Prop :=
  ∃ (disk : Disk) (settings : Settings) (full : Bool) (now : Nat) (graph : ModuleGraph)
    (session : Session), disk.IsProper ∧ session.IsHonest ∧
      (Snapshot.take disk settings full now graph session).2 = .ok manifest

/-- The modules of a taken manifest stand under their names, each made of files that a scan finds. -/
theorem IsTaken.exists_files {manifest : Manifest} {sort : List ScannedFile → Prop}
    (taken : manifest.IsTaken)
    (finds : ∀ {disk : Disk}, disk.IsProper → ∀ {moduleName : String} {scope : Scan.Scope}
      {files : List ScannedFile}, Scan.run disk moduleName scope = .ok files → sort files)
    {name : String} {m : Module} (named : manifest.module? name = some m) :
    m.name = name ∧ ∃ settings node files, sort files ∧
      manifest.paths.output = settings.outputRoot ∧ m = Snapshot.moduleOf settings node files := by
  obtain ⟨disk, settings, full, now, graph, session, proper, honest, taken⟩ := taken
  obtain ⟨main, modules, _, all, rfl⟩ := Snapshot.take_eq_ok taken
  obtain ⟨member, same⟩ := Snapshot.mem_of_manifestOf named
  obtain ⟨_, found⟩ : (Snapshot.modulesOf disk settings full session graph.inOrder).1.IsHonest ∧ _ :=
    Snapshot.modulesOf_induct Session.IsHonest (fun _ files => sort files)
      (fun session honest node _ =>
        ⟨honest.scan proper node.name (Snapshot.scopeOf settings full node),
          ((honest.keeps finds).scan fun _ => finds proper).2⟩) honest
  obtain ⟨node, _, files, scanned, rfl⟩ := exists_of_forall₂_right (found modules all) m member
  exact ⟨same, settings, node, files, scanned, rfl, rfl⟩

theorem IsTaken.ascending {manifest : Manifest} (taken : manifest.IsTaken) :
    IsAscending manifest.modules.keys := by
  obtain ⟨disk, settings, full, now, graph, session, _, _, taken⟩ := taken
  obtain ⟨main, modules, _, _, rfl⟩ := Snapshot.take_eq_ok taken
  exact Assoc.isAscending_ofPairs _

theorem IsTaken.modules {manifest : Manifest} (taken : manifest.IsTaken) :
    IsAscending manifest.modules.keys ∧
      ∀ name m, manifest.module? name = some m → m.name = name ∧ m.IsScanned := by
  refine ⟨taken.ascending, fun name m named => ?_⟩
  obtain ⟨same, settings, node, files, found, _, rfl⟩ := taken.exists_files Scan.isFound_of_run named
  exact ⟨same, Snapshot.isScanned_moduleOf settings node found⟩

/-- The indexed files are those of the modules. -/
theorem mem_indexedFiles {manifest : Manifest} (ascending : IsAscending manifest.modules.keys)
    {file : IndexedFile} : file ∈ manifest.indexedFiles ↔ ∃ name m category entry,
      manifest.module? name = some m ∧ (category, entry) ∈ m.entries ∧
        file = .ofEntry m category entry := by
  simp only [indexedFiles, Assoc.values, List.mem_flatMap, List.mem_map]
  constructor
  · rintro ⟨m, ⟨pair, listed, rfl⟩, ⟨category, entry⟩, member, rfl⟩
    exact ⟨pair.1, pair.2, category, entry, Assoc.get?_of_mem ascending.nodup listed, member, rfl⟩
  · rintro ⟨name, m, category, entry, named, member, rfl⟩
    exact ⟨m, ⟨(name, m), Assoc.mem_of_get? named, rfl⟩, (category, entry), member, rfl⟩

/-- Two files of a module are entries of one module of the manifest. -/
theorem IsTaken.exists_entries {manifest : Manifest} (taken : manifest.IsTaken)
    {u t : IndexedFile} (known : u ∈ manifest.indexedFiles) (alsoKnown : t ∈ manifest.indexedFiles)
    (together : t.moduleName = u.moduleName) : ∃ m category entry category' entry',
      manifest.module? m.name = some m ∧ m.IsScanned ∧ (category, entry) ∈ m.entries ∧ u = .ofEntry m category entry ∧
        (category', entry') ∈ m.entries ∧ t = .ofEntry m category' entry' := by
  obtain ⟨ascending, modules⟩ := taken.modules
  rw [mem_indexedFiles ascending] at known alsoKnown
  obtain ⟨_, m, category, entry, named, member, rfl⟩ := known
  obtain ⟨_, m', category', entry', named', member', rfl⟩ := alsoKnown
  obtain ⟨rfl, scanned⟩ := modules _ _ named
  obtain ⟨rfl, _⟩ := modules _ _ named'
  obtain rfl : m = m' := by
    rw [show m'.name = m.name from together, named] at named'
    exact Option.some_inj.mp named'
  exact ⟨m, category, entry, category', entry', named, scanned, member, rfl, member', rfl⟩

end Manifest

end WorkspaceBuild
