import WorkspaceBuild.Proofs.Builder.Plans
import WorkspaceBuild.Proofs.Manifests.Recorded

/-! # One output for each file

The output of a file is told in three ways: by the delta, which looks whether it is there, by what
produces it, and by what deletes it when the file is gone. In the manifest of a snapshot they agree.
-/

namespace WorkspaceBuild

variable {σ : Type}

namespace Module

variable {m : Module} {category : Category} {entry : FileEntry}

/-- An event finds the entry of its file. -/
theorem ListsOnce.entryOf?_eq (once : m.ListsOnce) (ascending : IsAscending m.files.keys)
    (member : (category, entry) ∈ m.entries) {event : DeltaEvent} (path : event.path = entry.path)
    (same : event.category = category) : Builder.Production.entryOf? m event = some entry := by
  obtain ⟨other, found, listed, otherPath⟩ :=
    Builder.exists_mem_entryOf? ascending member path same
  cases List.inj_on_of_nodup_map once listed member otherPath
  exact found

end Module

namespace Builder

open Production

/-- The output of a file, by all that a build does with it. The manifest is that of the build at
hand for what is produced, and that of the build before for what is deleted. -/
structure SharesOutput (b : Builder σ) (manifest : Manifest) (m : Module) (category : Category)
    (entry : FileEntry) : Prop where
  /-- The file is reported when what stands at the path of the output is stale. -/
  demanded : ∀ (disk : Disk) (old : Option Manifest), (∀ o ∈ old, IsAscending o.modules.keys) →
    ((Delta.between disk b.settings.outputRoot manifest old).Demands m.name entry.path ↔
      IsStale (disk.modified? (m.outputPath entry)) entry.updated)
  /-- An event of the file has its output produced there. -/
  produced : ∀ now state action, action.needsOutput →
    (b.production manifest now).handle state m.name ⟨entry.path, category, action⟩ =
      (b.production manifest now).produce m entry state
  /-- The file is reported as gone when it is and something stands at the path of the output. -/
  regretted : ∀ (disk : Disk) (new : Manifest), IsAscending new.modules.keys →
    ((Delta.between disk b.settings.outputRoot new (some manifest)).Reports m.name
        ⟨entry.path, category, .removed⟩ ↔
      Manifest.listed? (some new) m.name entry.path = none ∧
        (disk.modified? (m.outputPath entry)).isSome)
  /-- What is deleted for it is what stands there, whatever the manifest is then. -/
  deleted : ∀ new now action,
    (b.production new now).goneOutput m.name ⟨entry.path, category, action⟩ = m.outputPath entry

theorem sharesOutput {b : Builder σ} {manifest : Manifest} {m : Module} {category : Category}
    {entry : FileEntry} (named : IsAscending manifest.modules.keys)
    (known : manifest.module? m.name = some m) (once : m.ListsOnce)
    (sound : m.IsSound b.settings.outputRoot) (member : (category, entry) ∈ m.entries)
    (tracked : category.isTracked) : b.SharesOutput manifest m category entry := by
  have listed : Manifest.listed? (some manifest) m.name entry.path = some (category, entry) := by
    simp only [Manifest.listed?, Option.bind_some, known]
    exact once.listed?.mpr ⟨member, tracked, rfl⟩
  refine
    { demanded := fun disk old namedBefore => ?_
      produced := fun now state action needed => ?_
      regretted := fun disk new namedAfter => ?_
      deleted := fun new now action => ?_ }
  · have before : IsAscending (Delta.modulesOf old).keys := by
      cases old with
      | none => exact List.Pairwise.nil
      | some o => exact namedBefore o rfl
    simp [Delta.demands_iff named before, listed, sound.outputTime?_eq]
  · have found : entryOf? m ⟨entry.path, category, action⟩ = some entry :=
      once.entryOf?_eq sound.ascending member rfl rfl
    simp only [handle, needed, if_true, production, known, found]
  · have namedNow : IsAscending (Delta.modulesOf (some manifest)).keys := named
    rw [Delta.reports_iff namedAfter namedNow, Delta.mem_eventsOf_of_removed rfl]
    refine and_congr Iff.rfl ⟨?_, fun there => ⟨entry, listed, ?_⟩⟩
    · rintro ⟨other, alsoListed, there⟩
      cases listed.symm.trans alsoListed
      rwa [sound.outputTime?_eq] at there
    · rwa [sound.outputTime?_eq]
  · rw [goneOutput, Module.outputPath, FileEntry.outputPath, sound.output,
      sound.kinds category entry member]
    rfl

end Builder

namespace Snapshot

variable {disk : Disk} {settings : Settings} {full : Bool} {session : Session} {now : Nat}

/-- A snapshot has one module for each node of its graph with the scanned files, each once and filed
as its path says. Its tracked files then have one output each in whatever a build does with them. -/
theorem take_agrees (root : GraphNode) (calls : List ModuleGraph.Call) (proper : disk.IsProper)
    (honest : session.IsHonest) {manifest : Manifest}
    (taken : (take disk settings full now (.made root calls) session).2 = .ok manifest) :
    RecordsAll disk settings full (.made root calls) session
        (take disk settings full now (.made root calls) session).1 manifest ∧
      ∀ {σ : Type} (b : Builder σ), b.settings.outputRoot = settings.outputRoot →
        ∀ name m category entry, manifest.module? name = some m → (category, entry) ∈ m.entries →
          category.isTracked → b.SharesOutput manifest m category entry := by
  have records := recordsAll_of_take proper (ModuleGraph.isListed_made root calls) honest taken
  refine ⟨records, fun b same name m category entry known member tracked => ?_⟩
  obtain ⟨node, files, _, rfl, _, kept, _⟩ := records.modules name m known
  refine Builder.sharesOutput records.ascending (kept.name ▸ known) kept.once ?_ member tracked
  exact ⟨same ▸ kept.output, kept.ascending, fun category entry member =>
    (kept.filed category entry member).2⟩

/-- An application with a declaration file, and a library that it depends on. -/
def sharedDisk : Disk :=
  let file (name : String) : String × Item := (name, .file (.text "") 5)
  let folder (name : String) (entries : List (String × Item)) : String × Item :=
    (name, .folder entries 5)
  ⟨[folder "w" [folder "lib" [folder "src" [file "b.mts"]], folder "src" [file "a.d.ts"]]]⟩

def sharedSettings : Settings where
  workspaceRoot := ⟨"/w"⟩
  toolFolder := ⟨"/w/.t"⟩
  outputRoot := ⟨"/o"⟩
  compilerOutput := ⟨"/c"⟩
  typesOutput := ⟨"/t"⟩
  manifestPath := ⟨"/m"⟩
  profiles := []
  excluded := [⟨"/w/lib"⟩]
  compilerUrl := none

def sharedRoot : GraphNode := { name := "w", dir := ⟨"/w"⟩, main := true, workspace := true }

def sharedCalls : List ModuleGraph.Call :=
  [.addNode { name := "lib", dir := ⟨"/w/lib"⟩, workspace := true },
    .addEdge "w" "lib" .production]

def sharedModule : Module where
  name := "lib"
  version := "0.0.0"
  source := ⟨"/w/lib"⟩
  output := ⟨"/o/node_modules/lib"⟩
  main := false
  workspace := true
  internal := false
  prod := false
  roles := []
  parents := ["w"]
  profiles := []
  files := [(.src, [⟨"src/b.mts", .source, 5, none, []⟩])]

theorem take_agrees_shared : ∃ manifest,
    (take sharedDisk sharedSettings true 9 (.made sharedRoot sharedCalls) .empty).2 = .ok manifest ∧
      manifest.module? "lib" = some sharedModule ∧
      RecordsAll sharedDisk sharedSettings true (.made sharedRoot sharedCalls) .empty
        (take sharedDisk sharedSettings true 9 (.made sharedRoot sharedCalls) .empty).1 manifest ∧
      ∀ b : Builder Unit, b.settings.outputRoot = ⟨"/o"⟩ →
        b.SharesOutput manifest sharedModule .src ⟨"src/b.mts", .source, 5, none, []⟩ := by
  have made : ((take sharedDisk sharedSettings true 9 (.made sharedRoot sharedCalls)
      .empty).2.toOption.bind fun manifest => manifest.module? "lib") = some sharedModule := by
    decide +kernel
  obtain ⟨manifest, taken, known⟩ := Option.bind_eq_some_iff.mp made
  replace taken := eq_ok_of_toOption taken
  obtain ⟨records, shares⟩ :=
    take_agrees sharedRoot sharedCalls (by decide : sharedDisk.IsProper) .empty taken
  exact ⟨manifest, taken, known, records, fun b same =>
    shares b same "lib" sharedModule .src _ known (by decide) rfl⟩

end Snapshot

end WorkspaceBuild
