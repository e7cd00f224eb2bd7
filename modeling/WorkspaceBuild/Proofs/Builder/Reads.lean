import WorkspaceBuild.Proofs.Builder.Plans
import WorkspaceBuild.Proofs.Looks.Snapshots

/-! # What a plan reads

A plan reads descriptors and lock files, and its scans look at the files that they list. Where these
are as they were, planning again finds the same workspace.
-/

namespace WorkspaceBuild.Builder

variable {σ : Type} {b : Builder σ} {before after disk : Disk}

/-- The file at a place is one that a plan reads, or would read if it were there: the descriptor of
a package, a lock file, or what a scan looks at. -/
inductive Reads (b : Builder σ) (disk : Disk) : Place → Prop where
  | descriptor {folder : Path} (opened : Workspace.Opens disk b.settings.workspaceRoot folder) :
      Reads b disk (folder.join descriptorFile).target
  | lockFile {name : String} (listed : name ∈ PackageManager.lockFiles) :
      Reads b disk (b.settings.workspaceRoot.join name).target
  | scanned {graph : ModuleGraph} {node : GraphNode} {place : Place}
      (found : b.graph disk = .ok graph) (listed : node ∈ graph.inOrder)
      (looked : (Snapshot.scopeOf b.settings b.full node).LooksAt disk place) : Reads b disk place

/-- It counts for a plan whether there is a folder at a place: the path of a descriptor leads
through it and out again, or a lock file is looked for there. -/
inductive Heeds (b : Builder σ) (disk : Disk) : Place → Prop where
  | descriptor {folder : Path} {place : Place}
      (opened : Workspace.Opens disk b.settings.workspaceRoot folder)
      (passed : (folder.join descriptorFile).Passes place) : Heeds b disk place
  | lockFile {name : String} (listed : name ∈ PackageManager.lockFiles) :
      Heeds b disk (b.settings.workspaceRoot.join name).target

/-- A disk has become another in which the modules are found as they were: folders stay, and so do
the descriptors that are looked for and the files that scans look at. -/
structure SparesModules (b : Builder σ) (before after : Disk) : Prop where
  proper : before.IsProper
  properAfter : after.IsProper
  folders : Disk.KeepsFolders before after
  descriptors : ∀ folder, Workspace.Seeks before after b.settings.workspaceRoot folder →
    Workspace.SameDescriptor before after folder
  scanned : ∀ graph node place, b.graph before = .ok graph → node ∈ graph.inOrder →
    (Snapshot.scopeOf b.settings b.full node).LooksAt before place →
      after.fileAt? place = before.fileAt? place

namespace SparesModules

/-- Modules are found as they were where the files that are read stay the same, and no folder is new
that the path of a descriptor passes. -/
theorem of_reads (proper : before.IsProper) (properAfter : after.IsProper)
    (folders : Disk.KeepsFolders before after)
    (files : ∀ place, b.Reads before place ∨ b.Reads after place →
      after.fileAt? place = before.fileAt? place)
    (passed : ∀ folder place, Workspace.Opens before b.settings.workspaceRoot folder ∨
      Workspace.Opens after b.settings.workspaceRoot folder →
        (folder.join descriptorFile).Passes place → after.HoldsFolder place →
          before.HoldsFolder place) : b.SparesModules before after := by
  have same {folder : Path} (opens : Workspace.Opens before b.settings.workspaceRoot folder ∨
      Workspace.Opens after b.settings.workspaceRoot folder) :
      Workspace.SameDescriptor before after folder :=
    Disk.contents?_congr folders (files _ (opens.imp .descriptor .descriptor))
      fun place passes => passed folder place opens passes
  exact
    { proper, properAfter, folders
      descriptors := fun folder seeks => same (seeks.opens (same (.inl .own)))
      scanned := fun graph node place found listed looked =>
        files place (.inl (.scanned found listed looked)) }

theorem graph (h : b.SparesModules before after) {graph : ModuleGraph}
    (found : b.graph before = .ok graph) : b.graph after = .ok graph :=
  mapError_eq_ok.mpr (Workspace.resolve_congr h.proper h.properAfter h.folders h.descriptors
    (mapError_eq_ok.mp found))

/-- Planning again finds the same modules, whether scans were kept or are made anew. -/
theorem plan (h : b.SparesModules before after) {session : Session} {now : Nat} {plan : BuildPlan}
    (isOf : session.IsOf before) (planned : (b.plan before session now).2 = .ok plan)
    {again : Session} (kept : again = (b.plan before session now).1 ∨ again.IsOf after)
    (later : Nat) :
    (b.plan after again later).2 = .ok (b.planFor after
      { plan.manifest with
        generated := later
        workspace := { plan.manifest.workspace with
          packageManager := .detect after b.settings.workspaceRoot } }) := by
  obtain ⟨graph, manifest, found, taken, rfl⟩ := plan_eq_ok_iff.mp planned
  have next : (b.plan before session now).1 =
      (Snapshot.take before b.settings b.full now graph session).1 := by
    rcases b.plan_cases before session now with ⟨e, failed, _⟩ | ⟨other, resolved, same⟩
    · cases failed.symm.trans found
    · cases resolved.symm.trans found
      rw [same]
  rw [next] at kept
  refine plan_eq_ok_iff.mpr ⟨graph, _, h.graph found, ?_, rfl⟩
  exact Snapshot.take_grown h.proper h.properAfter h.folders
    (Workspace.isHoused_resolve (mapError_eq_ok.mp found)) isOf taken
    (fun node listed place looked => h.scanned graph node place found listed looked) kept later

end SparesModules

/-- A disk has become another in which what plans read is as it was: folders stay, the files that
are read stay the same, and where folders count there are no new ones. -/
structure Spares (b : Builder σ) (before after : Disk) : Prop where
  proper : before.IsProper
  properAfter : after.IsProper
  folders : Disk.KeepsFolders before after
  files : ∀ place, b.Reads before place ∨ b.Reads after place →
    after.fileAt? place = before.fileAt? place
  heeded : ∀ place, b.Heeds before place ∨ b.Heeds after place →
    after.HoldsFolder place → before.HoldsFolder place

namespace Spares

theorem modules (h : b.Spares before after) : b.SparesModules before after :=
  .of_reads h.proper h.properAfter h.folders h.files fun _ place opens passed =>
    h.heeded place (opens.imp (.descriptor · passed) (.descriptor · passed))

theorem detect (h : b.Spares before after) {graph : ModuleGraph}
    (found : b.graph before = .ok graph) :
    PackageManager.detect after b.settings.workspaceRoot =
      PackageManager.detect before b.settings.workspaceRoot := by
  obtain ⟨w, _, loaded, _⟩ := Workspace.resolve_eq_ok_iff.mp (mapError_eq_ok.mp found)
  obtain ⟨root, read, _⟩ := Workspace.load_eq_ok_iff.mp loaded
  have folder := (Descriptor.isFolder_of_load read).1
  obtain ⟨absolute, trail⟩ := Disk.isFolder_iff.mp folder
  have some := Path.text_ne_empty absolute
  refine PackageManager.detect_congr fun name listed => ?_
  have plain : Path.IsPlain name := PackageManager.isPlain_lockFile listed
  refine Disk.exists?_congr h.folders ⟨?_, ?_⟩ (h.files _ (.inl (.lockFile listed)))
    (h.heeded _ (.inl (.lockFile listed)))
  · rw [Path.isAbsolute_join (Path.isAbsolute_of_noSlash plain.noSlash) some, absolute]
  · rw [(Path.join_plain plain some).1]
    exact trail

/-- Planning again finds the same workspace, whether scans were kept or are made anew. -/
theorem plan (h : b.Spares before after) {session : Session} {now : Nat} {plan : BuildPlan}
    (isOf : session.IsOf before) (planned : (b.plan before session now).2 = .ok plan)
    {again : Session} (kept : again = (b.plan before session now).1 ∨ again.IsOf after)
    (later : Nat) :
    (b.plan after again later).2 =
      .ok (b.planFor after { plan.manifest with generated := later }) := by
  rw [h.modules.plan isOf planned kept later]
  obtain ⟨graph, manifest, found, taken, rfl⟩ := plan_eq_ok_iff.mp planned
  obtain ⟨_, _, _, _, rfl⟩ := Snapshot.take_eq_ok taken
  rw [h.detect found]
  rfl

end Spares

end WorkspaceBuild.Builder
