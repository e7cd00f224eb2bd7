import WorkspaceBuild.Proofs.Builder.Outputs
import WorkspaceBuild.Proofs.Builder.Reads
import WorkspaceBuild.Proofs.Manifests.Kept

/-! # Builds converge

A build that comes to its end leaves nothing to do. Once the outputs that it has produced are not
older than their files, planning again finds the workspace of before and no event, unless the build
has written where plans read.
-/

namespace WorkspaceBuild

/-- What a file holds; a folder has no contents. -/
def Item.contents? : Item → Option Contents
  | .file contents _ => some contents
  | .folder .. => none

namespace Disk

variable {before after : Disk} {places : List Place}

/-- Nothing has changed but the times of the files at some places. -/
structure Retimed (before after : Disk) (places : List Place) : Prop where
  proper : after.IsProper
  contents : ∀ place, (after.itemAt? place).map Item.contents? = (before.itemAt? place).map Item.contents?
  files : KeepsFiles before after places

namespace Retimed

theorem refl (proper : before.IsProper) (places : List Place) : Retimed before before places :=
  ⟨proper, fun _ => rfl, fun _ _ => rfl⟩

theorem kindAt?_eq (h : Retimed before after places) (place : Place) :
    after.kindAt? place = before.kindAt? place := by
  have kinds (disk : Disk) : disk.kindAt? place =
      ((disk.itemAt? place).map Item.contents?).map Option.isSome := by
    rw [kindAt?, kindIn?, ← itemAt?, Option.map_map]
    exact congrArg (Option.map · _) (funext fun item => by cases item <;> rfl)
  rw [kinds, kinds, h.contents]

theorem holdsFolder_iff (h : Retimed before after places) (place : Place) :
    after.HoldsFolder place ↔ before.HoldsFolder place := by
  rw [HoldsFolder, HoldsFolder, h.kindAt?_eq]

theorem reaches_iff (h : Retimed before after places) (path : Path) :
    after.Reaches path ↔ before.Reaches path := by
  simp only [Reaches, h.holdsFolder_iff]

theorem isSome_modified? (h : Retimed before after places) (path : Path) :
    (after.modified? path).isSome = (before.modified? path).isSome := by
  rw [Bool.eq_iff_iff, modified?_isSome_iff, modified?_isSome_iff, h.reaches_iff, Holds, Holds,
    h.kindAt?_eq]

/-- A file still holds what it held. -/
theorem exists_item (h : Retimed before after places) {path : Path} {contents : Contents}
    {time : Nat} (found : before.item path = .ok (.file contents time)) :
    ∃ later, after.item path = .ok (.file contents later) := by
  obtain ⟨reaches, there⟩ := item_eq_ok_iff.mp found
  have held := h.contents path.target
  rw [there, Option.map_some, Option.map_eq_some_iff] at held
  obtain ⟨item, thereAfter, same⟩ := held
  cases item with
  | folder entries modified => cases same
  | file others later =>
      cases same
      exact ⟨later, item_eq_ok_iff.mpr ⟨(h.reaches_iff path).mpr reaches, thereAfter⟩⟩

end Retimed

end Disk

theorem Manifest.listed?_asRead (m : Manifest) (name path : String) :
    listed? (some m.asRead) name path = listed? (some m) name path := by
  rw [listed?, listed?, Option.bind_some, Option.bind_some, module?, module?, asRead,
    Assoc.get?_mapValues]
  cases m.modules.get? name <;> rfl

/-- Where the outputs of the tracked files of a manifest go. -/
def Manifest.outputs (m : Manifest) : List Path :=
  m.modules.flatMap fun pair => pair.2.tracked.map fun tracked => pair.2.outputPath tracked.2.entry

theorem Manifest.mem_outputs {manifest : Manifest} {name path : String} {m : Module}
    {file : TrackedFile} (known : manifest.module? name = some m)
    (tracked : m.tracked.get? path = some file) : m.outputPath file.entry ∈ manifest.outputs :=
  List.mem_flatMap.mpr ⟨(name, m), Assoc.mem_of_get? known,
    List.mem_map.mpr ⟨(path, file), Assoc.mem_of_get? tracked, rfl⟩⟩

/-- Compared with a manifest that lists the same files, one whose outputs are not stale has no
event. -/
theorem Delta.not_reports {disk : Disk} {outputRoot : Path} {new old : Manifest}
    (named : IsAscending new.modules.keys) (namedBefore : IsAscending (modulesOf (some old)).keys)
    (alike : ∀ name path, Manifest.listed? (some old) name path = Manifest.listed? (some new) name path)
    (fresh : ∀ name path category entry,
      Manifest.listed? (some new) name path = some (category, entry) →
        ¬ IsStale (outputTime? disk (moduleOutput outputRoot name) entry) entry.updated)
    (name : String) (event : DeltaEvent) :
    ¬ (between disk outputRoot new (some old)).Reports name event := by
  intro reported
  by_cases removed : event.action = .removed
  · have member := (reports_iff named namedBefore).mp reported
    obtain ⟨gone, entry, listed, _⟩ := (mem_eventsOf_of_removed removed).mp member
    have still := alike name event.path
    rw [Manifest.listed?, Manifest.listed?, Option.bind_some, Option.bind_some, gone] at still
    cases still.symm.trans listed
  · have needed : event.action.needsOutput := by simp [DeltaAction.needsOutput, removed]
    obtain ⟨category, entry, listed, stale⟩ :=
      (demands_iff named namedBefore).mp ⟨event, reported, rfl, needed⟩
    exact fresh name event.path category entry listed stale

namespace Builder

open Production

variable {σ : Type}

/-- The places of the outputs that a build produces. -/
def produces (b : Builder σ) (plan : BuildPlan) (now : Nat) : List Place :=
  (eventsOf plan.delta).flatMap fun item =>
    (((b.production plan.manifest now).wanted? item.1 item.2).map Path.target).toList

/-- The places of the files that a build writes or deletes. -/
def writes (b : Builder σ) (plan : BuildPlan) (now : Nat) : List Place :=
  (eventsOf plan.delta).flatMap (b.production plan.manifest now).touched ++
    [b.settings.manifestPath.target]

theorem produces_subset_writes (b : Builder σ) (plan : BuildPlan) (now : Nat) :
    b.produces plan now ⊆ b.writes plan now := by
  intro place member
  obtain ⟨item, listed, produced⟩ := List.mem_flatMap.mp member
  refine List.mem_append_left _ (List.mem_flatMap.mpr ⟨item, listed, ?_⟩)
  have kept : item.2.action ≠ .removed := by
    intro removed
    simp [wanted?, removed, DeltaAction.needsOutput] at produced
  rwa [touched, if_neg kept]

section Builds

variable {b : Builder σ} {disk : Disk} {session next : Session} {now : Nat} {notes : σ}
  {plan : BuildPlan} {last : BuildState σ} {report : BuildReport}

/-- What a build leaves: folders stay, no file changes but those that it writes or deletes, outputs
are accounted for, and its manifest is kept. -/
structure Leaves (b : Builder σ) (plan : BuildPlan) (now : Nat) (before : Disk)
    (last : BuildState σ) : Prop where
  folders : Disk.KeepsFolders before last.disk
  files : Disk.KeepsFiles before last.disk (b.writes plan now)
  outputs : b.AccountsFor plan now before last
  manifest : last.disk.item b.settings.manifestPath = .ok (.file (.text plan.manifest.text) now)

theorem leaves_of_execute (hosted : b.host.isSome) (ordered : disk.IsOrdered)
    (planned : b.IsPlanned disk plan)
    (executed : b.execute plan now ⟨disk, notes, {}⟩ = (last, .ok ())) :
    b.Leaves plan now disk last := by
  obtain ⟨state, saving, run, saved, same, _⟩ :=
    exists_run_of_execute hosted ordered planned executed
  obtain ⟨adds, files, _⟩ := save_adds run.ordered saved
  refine ⟨?_, ?_, accountsFor_of_execute hosted ordered planned executed, ?_⟩
  · rw [same]
    exact fun place folder => adds.keepsFolders place (run.keepsFolders place folder)
  · rw [same]
    exact run.keepsFiles.trans files
  · rw [same]
    exact Manifest.item_of_save run.ordered (save_eq_ok saved).1

/-- After a build that comes to its end, planning again finds the same manifest and no event. The
build may not have written, nor made folders, where plans read; none of its removals may lead to an
output of the manifest; and outputs that it has produced or otherwise retimed may not be older than
their files. -/
theorem converges_of_build (hosted : b.host.isSome) (proper : disk.IsProper)
    (isOf : session.IsOf disk)
    (built : b.build session now disk notes = (next, last, .ok report))
    (planned : (b.plan disk session now).2 = .ok plan) (fits : plan.manifest.FitsWords)
    (apart : ∀ output ∈ plan.manifest.outputs, ∀ item ∈ eventsOf plan.delta,
      ¬ (b.production plan.manifest now).Clears item output.target)
    {later : Disk} (retimed : last.disk.Retimed later (b.produces plan now))
    (unread : ∀ place, b.Reads disk place ∨ b.Reads later place → place ∉ b.writes plan now)
    (unheeded : ∀ place, b.Heeds disk place ∨ b.Heeds later place →
      last.disk.HoldsFolder place → disk.HoldsFolder place)
    (fresh : ∀ name m path file, plan.manifest.module? name = some m →
      m.tracked.get? path = some file →
        plan.delta.Demands name path ∨
            later.modified? (m.outputPath file.entry) ≠ disk.modified? (m.outputPath file.entry) →
          ∀ time, later.modified? (m.outputPath file.entry) = some time → file.entry.updated ≤ time)
    {again : Session} (kept : again = next ∨ again.IsOf later) (soon : Nat) :
    ∃ replan, (b.plan later again soon).2 = .ok replan ∧
      replan.manifest.withoutTimestamp = plan.manifest.withoutTimestamp ∧
        ∀ name event, ¬ replan.delta.Reports name event := by
  obtain ⟨other, same, executed, _⟩ := build_eq_ok_iff.mp built
  obtain rfl : other = plan := by
    rw [same] at planned
    exact Except.ok.inj planned
  have isPlanned := isPlanned_of_plan isOf.isClassified planned
  have leaves := leaves_of_execute hosted proper.ordered isPlanned executed
  have spares : b.Spares disk later :=
    { proper := proper
      properAfter := retimed.proper
      folders := fun place folder => (retimed.holdsFolder_iff place).mpr (leaves.folders place folder)
      files := fun place reads => by
        have unwritten := unread place reads
        rw [retimed.files place (fun produced => unwritten (produces_subset_writes b _ now produced)),
          leaves.files place unwritten]
      heeded := fun place heeds folder =>
        unheeded place heeds ((retimed.holdsFolder_iff place).mp folder) }
  refine ⟨_, spares.plan isOf planned (by rwa [same]) soon, rfl, ?_⟩
  have reread : Manifest.loadPrevious? later b.settings.manifestPath = some other.manifest.asRead := by
    obtain ⟨time, file⟩ := retimed.exists_item leaves.manifest
    refine (Manifest.load_of_text (Manifest.ofText_text ?_ fits isPlanned.named ?_) file).2
    · obtain ⟨_, _, _, taken, same⟩ := plan_eq_ok_iff.mp planned
      exact (congrArg BuildPlan.manifest same) ▸ Snapshot.version_of_take taken
    · intro pair listed
      have known := Assoc.get?_of_mem isPlanned.named.nodup listed
      exact (isPlanned.sound pair.1 pair.2 known).2.ascending
  rw [planFor, reread]
  have namedBefore : IsAscending (Delta.modulesOf (some other.manifest.asRead)).keys := by
    rw [Delta.modulesOf, Option.map_some, Option.getD_some, Manifest.asRead, Assoc.keys_mapValues]
    exact isPlanned.named
  refine Delta.not_reports isPlanned.named namedBefore
    (fun name path => Manifest.listed?_asRead other.manifest name path) ?_
  intro name path category entry listed stale
  obtain ⟨m, known, inModule⟩ := Option.bind_eq_some_iff.mp listed
  have tracked : m.tracked.get? path = some ⟨category, entry⟩ := by
    rw [Module.get?_tracked, inModule]
    rfl
  obtain ⟨rfl, sound⟩ := isPlanned.sound name m known
  rw [sound.outputTime?_eq] at stale
  have present : (later.modified? (m.outputPath entry)).isSome := by
    rw [retimed.isSome_modified?]
    refine (leaves.outputs.kept m.name m path _ known tracked).mpr (.inl ?_)
    rintro ⟨item, member, clears, _⟩
    exact apart _ (Manifest.mem_outputs known tracked) item member clears
  obtain ⟨time, seen, older⟩ := stale.resolve_left (Option.ne_none_iff_isSome.mpr present)
  by_cases touched : other.delta.Demands m.name path ∨
      later.modified? (m.outputPath entry) ≠ disk.modified? (m.outputPath entry)
  · exact absurd (fresh m.name m path _ known tracked touched time seen) (Nat.not_le_of_lt older)
  · -- an output that was not demanded was there, and not older
    obtain ⟨undemanded, alike⟩ := not_or.mp touched
    rw [not_not, seen] at alike
    refine undemanded ?_
    rw [isPlanned.delta, Delta.demands_iff isPlanned.named isPlanned.namedBefore]
    refine ⟨category, entry, listed, ?_⟩
    rw [sound.outputTime?_eq]
    exact .inr ⟨time, alike.symm, older⟩

end Builds

/-! A workspace of one module, built for the first time. -/

section Lone

def loneDisk : Disk :=
  ⟨[("w", .folder [("package.json", .file (.text "\x7b\x7d") 5),
    ("src", .folder [("a.ts", .file (.text "") 7)] 5)] 5)]⟩

def loneBuilder (outputRoot : Path) : Builder Unit :=
  { renamedBuilder with settings := { renamedBuilder.settings with outputRoot } }

def loneFiles : Assoc Category (List FileEntry) :=
  [(.package, [⟨"package.json", .package, 5, none, []⟩]),
    (.src, [⟨"src/a.ts", .source, 7, none, []⟩])]

def loneModule (outputRoot : Path) : Module :=
  ⟨"w", "0.0.0", ⟨"/w"⟩, moduleOutput outputRoot "w", true, true, false, true, [.standard], [], [],
    loneFiles⟩

def loneManifest (outputRoot : Path) (manager : PackageManager) (generated : Nat) : Manifest where
  version := Manifest.currentVersion
  workspace := ⟨⟨"/w"⟩, "w", false, manager⟩
  paths := ⟨⟨"/c"⟩, outputRoot, ⟨".t"⟩, ⟨"/t"⟩, none⟩
  main := ⟨"w", "0.0.0", ⟨"/w"⟩⟩
  generated
  modules := [("w", loneModule outputRoot)]

def lonePlan (outputRoot : Path) : BuildPlan where
  manifest := loneManifest outputRoot .npm 9
  previous := none
  delta := [("w", [⟨"package.json", .package, .added⟩, ⟨"src/a.ts", .src, .added⟩])]

/-- What the build makes for outputs. -/
def loneOutputs : Item :=
  .folder [("node_modules", .folder [("w", .folder [("package.json", .file (.text "\x7b\x7d") 9),
    ("src", .folder [("a.js", .file (.text "") 9)] 9)] 9)] 9)] 9

/-- The disk after the build. -/
def loneLast (outputRoot : Path) (entries : List (String × Item)) : Disk :=
  ⟨("m", .file (.text (loneManifest outputRoot .npm 9).text) 9) :: entries⟩

variable {outputRoot : Path} {entries : List (String × Item)}

theorem eventsOf_lone : eventsOf (lonePlan outputRoot).delta =
    [("w", ⟨"package.json", .package, .added⟩), ("w", ⟨"src/a.ts", .src, .added⟩)] := rfl

theorem fitsWords_lone : (lonePlan outputRoot).manifest.FitsWords := by
  refine ⟨(by decide : 9 < wordLimit), fun pair listed => ?_⟩
  obtain rfl := List.mem_singleton.mp listed
  change filesFit loneFiles
  unfold filesFit
  decide

/-- The build has no removals. -/
theorem apart_lone {now : Nat} {item : String × DeltaEvent}
    (listed : item ∈ eventsOf (lonePlan outputRoot).delta) (place : Place) :
    ¬ ((loneBuilder outputRoot).production (lonePlan outputRoot).manifest now).Clears item
      place := by
  rw [eventsOf_lone] at listed
  rintro ⟨removed, _⟩
  have kept : ∀ item ∈ [("w", (⟨"package.json", .package, .added⟩ : DeltaEvent)),
      ("w", ⟨"src/a.ts", .src, .added⟩)], item.2.action ≠ .removed := by decide
  exact kept item listed removed

theorem fresh_lone {disk : Disk}
    (seen : ∀ output ∈ (loneManifest outputRoot .npm 9).outputs, disk.modified? output = some 9)
    {name path : String} {m : Module} {file : TrackedFile}
    (known : (lonePlan outputRoot).manifest.module? name = some m)
    (tracked : m.tracked.get? path = some file) {time : Nat}
    (found : disk.modified? (m.outputPath file.entry) = some time) : file.entry.updated ≤ time := by
  have nine := seen _ (Manifest.mem_outputs known tracked)
  obtain rfl : time = 9 := Option.some_inj.mp (found.symm.trans nine)
  obtain rfl : m = loneModule outputRoot := by
    cases List.mem_singleton.mp (Assoc.mem_of_get? known)
    rfl
  have early : ∀ pair ∈ (loneModule outputRoot).tracked, pair.2.entry.updated ≤ 9 := by
    change ∀ pair ∈ (loneModule ⟨""⟩).tracked, pair.2.entry.updated ≤ 9
    decide
  exact early _ (Assoc.mem_of_get? tracked)

set_option maxRecDepth 4000

/-- Writing the manifest puts its file before all that the disk holds. -/
theorem save_lone {name : String} {item : Item} {rest : List (String × Item)} (less : "m" < name)
    (free : Item.child? ((name, item) :: rest) "m" = none) (m : Manifest) (time : Nat) :
    Manifest.save ⟨(name, item) :: rest⟩ m ⟨"/m"⟩ time =
      (⟨("m", .file (.text m.text) time) :: (name, item) :: rest⟩, .ok ()) := by
  have made : Manifest.makeFolderOf ⟨(name, item) :: rest⟩ ⟨"/m"⟩ time =
      (⟨(name, item) :: rest⟩, .ok ()) := by
    have parent : Path.parent? ⟨"/m"⟩ = some ⟨"/"⟩ := by decide
    rw [Manifest.makeFolderOf, parent]
    rfl
  have placed : Disk.place ⟨(name, item) :: rest⟩ ⟨"/m"⟩ = .ok ["m"] := by
    refine Disk.place_eq_ok_iff.mpr ⟨⟨by decide, ?_⟩, by decide⟩
    rw [show Path.way ⟨"/m"⟩ = [] by decide]
    exact List.forall_mem_nil _
  have put (item' : Option Item) : Item.setChild "m" item' ((name, item) :: rest) =
      (item'.map fun item => ("m", item)).toList ++ (name, item) :: rest := by
    rw [Item.setChild, if_pos less]
  have replaced : Disk.replaceFile ⟨(name, item) :: rest⟩ ⟨"/m"⟩ (.text m.text) time =
      .ok ⟨("m", .file (.text m.text) time) :: (name, item) :: rest⟩ := by
    rw [Disk.replaceFile, if_neg (by decide), placed]
    simp only [Disk.itemAt?, Disk.itemIn?, free, Disk.setAt, Disk.setIn, put, Option.map_none,
      Option.toList_none, List.nil_append, Option.map_some, Option.toList_some, List.singleton_append]
  rw [Manifest.save, made]
  simp only [replaced]

theorem exists_execute {b : Builder Unit} {plan : BuildPlan} {now : Nat}
    {state middle saving : BuildState Unit}
    (handled : (b.production plan.manifest now).handleAll state (eventsOf plan.delta) = (middle, .ok ()))
    (saved : b.save plan.manifest now middle = (saving, .ok ())) :
    ∃ last, b.execute plan now state = (last, .ok ()) ∧ last.disk = saving.disk :=
  ⟨_, andThen_eq_ok.mpr ⟨middle, handled, andThen_eq_ok.mpr ⟨saving, saved, rfl⟩⟩, rfl⟩

/-- What can be computed of the workspace before it is built. -/
theorem facts_lone : loneDisk.IsProper ∧ Workspace.load loneDisk ⟨"/w"⟩ = .ok renamedWorkspace ∧
    Manifest.loadPrevious? loneDisk ⟨"/m"⟩ = none := by
  have isFile : loneDisk.isFile ⟨"/m"⟩ = false := by decide
  refine ⟨by decide, eq_ok_of_toOption (by decide), ?_⟩
  rw [Manifest.loadPrevious?, isFile]
  rfl

theorem plan_lone (taken : (Snapshot.take loneDisk (loneBuilder outputRoot).settings false 9
      renamedGraph .empty).2 = .ok (loneManifest outputRoot .npm 9))
    (compared : Delta.between loneDisk outputRoot (loneManifest outputRoot .npm 9) none =
      (lonePlan outputRoot).delta) :
    ((loneBuilder outputRoot).plan loneDisk .empty 9).2 = .ok (lonePlan outputRoot) :=
  plan_of_load facts_lone.2.1 taken facts_lone.2.2 compared

/-- What comes of the events. -/
def loneRun (outputRoot : Path) : Production.Step Unit :=
  ((loneBuilder outputRoot).production (lonePlan outputRoot).manifest 9).handleAll
    ⟨loneDisk, (), {}⟩ (eventsOf (lonePlan outputRoot).delta)

theorem exists_build_lone {name : String} {item : Item} {rest : List (String × Item)}
    (planned : ((loneBuilder outputRoot).plan loneDisk .empty 9).2 = .ok (lonePlan outputRoot))
    (outcome : (loneRun outputRoot).2.toOption = some () ∧
      (loneRun outputRoot).1.disk.entries = (name, item) :: rest) (less : "m" < name)
    (free : Item.child? ((name, item) :: rest) "m" = none) :
    ∃ next last report,
      (loneBuilder outputRoot).build .empty 9 loneDisk () = (next, last, .ok report) ∧
        last.disk = loneLast outputRoot ((name, item) :: rest) := by
  obtain ⟨state, run, disk⟩ : ∃ state, loneRun outputRoot = (state, .ok ()) ∧
      state.disk = ⟨(name, item) :: rest⟩ := exists_mk_of_outcome outcome
  have saved : (loneBuilder outputRoot).save (lonePlan outputRoot).manifest 9 state =
      ({ state with disk := loneLast outputRoot ((name, item) :: rest) }, .ok ()) := by
    have written := save_lone less free (lonePlan outputRoot).manifest 9
    rw [← disk] at written
    change Manifest.save _ _ ⟨"/m"⟩ _ = _ at written
    rw [Builder.save, show (loneBuilder outputRoot).settings.manifestPath = ⟨"/m"⟩ from rfl,
      written]
    rfl
  obtain ⟨last, executed, same⟩ := exists_execute run saved
  exact ⟨_, last, last.report,
    build_eq_ok_iff.mpr ⟨lonePlan outputRoot, eq_mk_of_snd planned, executed, rfl⟩, same⟩

/-- A workspace that depends on nothing and has no members opens no descriptor but its own. -/
theorem opens_lone {disk : Disk} (read : Descriptor.load disk ⟨"/w"⟩ = .ok {}) {folder : Path}
    (opens : Workspace.Opens disk ⟨"/w"⟩ folder) : folder = ⟨"/w"⟩ := by
  have nothing : Workspace.dependenciesOf {} true = [] := by decide +kernel
  cases opens with
  | own => rfl
  | member loaded looked =>
      cases read.symm.trans loaded
      obtain ⟨_, _, _, pattern, listed, _⟩ := looked
      cases listed
  | @dependency w graph _ loaded resolved followed =>
      obtain ⟨other, found, loadedToo, walked, settled⟩ := Workspace.resolve_eq_ok_iff.mp resolved
      cases loaded.symm.trans loadedToo
      obtain ⟨root, own, _⟩ := Workspace.load_eq_ok_iff.mp loaded
      have bare : w.descriptor = {} := Except.ok.inj (own.symm.trans read)
      have alone : (w.start disk).pending = [] := by
        change (Workspace.dependenciesOf w.descriptor true).filterMap _ = []
        rw [bare, nothing, List.filterMap_nil]
      cases (walk_of_alone alone).symm.trans walked
      have consistent : (w.start disk).graph.Consistent := .single _ rfl rfl
      have shape := ModuleGraph.sameShape_complete consistent
      rw [settled] at shape
      obtain ⟨name, node, descriptor, there, said, edge, listed, _⟩ := followed.of_sameShape shape.symm
      have only := Assoc.mem_of_get? there
      rw [Workspace.start, ModuleGraph.single, List.mem_singleton, Prod.mk.injEq] at only
      have dir : node.dir = ⟨"/w"⟩ := only.2 ▸ root
      have main : node.main = true := only.2 ▸ rfl
      rw [dir, read] at said
      rw [← Except.ok.inj said, main, nothing] at listed
      cases listed

/-- The scan of the workspace's own module. -/
def loneScope : Scan.Scope := ⟨⟨"/w"⟩, true, []⟩

/-- Where lock files are looked for. -/
def lockPlaces : List Place :=
  [["w", "pnpm-lock.yaml"], ["w", "yarn.lock"], ["w", "bun.lockb"], ["w", "bun.lock"]]

theorem places_lone : (∀ node ∈ renamedGraph.inOrder, node.dir = ⟨"/w"⟩ ∧ node.main = true) ∧
    (∀ name ∈ PackageManager.lockFiles, (Path.join ⟨"/w"⟩ name).target ∈ lockPlaces) ∧
      (Path.join ⟨"/w"⟩ descriptorFile).target = ["w", "package.json"] ∧
        ∀ place ∈ (Path.join ⟨"/w"⟩ descriptorFile).way, place <+: ["w", "package.json"] := by
  decide

/-- Plans read the descriptor, lock files and what the scan looks at. -/
theorem reads_lone {disk : Disk} (loaded : Workspace.load disk ⟨"/w"⟩ = .ok renamedWorkspace)
    {place : Place} (reads : (loneBuilder outputRoot).Reads disk place) :
    place ∈ ["w", "package.json"] :: lockPlaces ∨ loneScope.LooksAt disk place := by
  obtain ⟨only, locks, own, _⟩ := places_lone
  cases reads with
  | descriptor opened =>
      obtain rfl := opens_lone (Workspace.load_eq_ok_iff.mp loaded).2.1 opened
      rw [own]
      exact .inl List.mem_cons_self
  | lockFile listed => exact .inl (List.mem_cons_of_mem _ (locks _ listed))
  | scanned found listed looked =>
      have graph : (loneBuilder outputRoot).graph disk = .ok renamedGraph := graph_of_load loaded
      cases graph.symm.trans found
      obtain ⟨dir, main⟩ := only _ listed
      rw [Snapshot.scopeOf, dir, main] at looked
      exact .inr looked

theorem heeds_lone {disk : Disk} (loaded : Workspace.load disk ⟨"/w"⟩ = .ok renamedWorkspace)
    {place : Place} (heeds : (loneBuilder outputRoot).Heeds disk place) : place ∈ lockPlaces := by
  obtain ⟨_, locks, own, straight⟩ := places_lone
  cases heeds with
  | descriptor opened passed =>
      obtain rfl := opens_lone (Workspace.load_eq_ok_iff.mp loaded).2.1 opened
      rw [Path.Passes, own] at passed
      exact absurd (straight place passed.1) passed.2
  | lockFile listed => exact locks _ listed

/-- What can be computed of the workspace once it is built, with outputs in a folder. -/
structure Computes (outputRoot : Path) (name : String) (item : Item)
    (rest : List (String × Item)) : Prop where
  planned : ((loneBuilder outputRoot).plan loneDisk .empty 9).2 = .ok (lonePlan outputRoot)
  built : ∃ next last report,
    (loneBuilder outputRoot).build .empty 9 loneDisk () = (next, last, .ok report) ∧
      last.disk = loneLast outputRoot ((name, item) :: rest)
  loaded : Workspace.load (loneLast outputRoot ((name, item) :: rest)) ⟨"/w"⟩ = .ok renamedWorkspace
  proper : (loneLast outputRoot ((name, item) :: rest)).IsProper
  modified : ∀ output ∈ (loneManifest outputRoot .npm 9).outputs,
    (loneLast outputRoot ((name, item) :: rest)).modified? output = some 9

/-- Outputs have a folder of their own. -/
theorem computes_apart : Computes ⟨"/o"⟩ "o" loneOutputs loneDisk.entries := by
  have taken : (Snapshot.take loneDisk (loneBuilder ⟨"/o"⟩).settings false 9 renamedGraph .empty).2 =
      .ok (loneManifest ⟨"/o"⟩ .npm 9) := eq_ok_of_toOption (by decide +kernel)
  have planned := plan_lone taken (by decide +kernel)
  exact
    { planned
      built := exists_build_lone planned (by decide +kernel) (by decide) (by decide)
      loaded := eq_ok_of_toOption (by decide +kernel)
      proper := by decide +kernel
      modified := by decide +kernel }

/-- Building the workspace and planning again finds nothing to do. -/
theorem converges_of_build_lone : (loneBuilder ⟨"/o"⟩).host.isSome ∧ loneDisk.IsProper ∧
    Session.empty.IsOf loneDisk ∧ ∃ next last report,
      (loneBuilder ⟨"/o"⟩).build .empty 9 loneDisk () = (next, last, .ok report) ∧
        ∃ replan, ((loneBuilder ⟨"/o"⟩).plan last.disk next 10).2 = .ok replan ∧
          replan.manifest.withoutTimestamp = (lonePlan ⟨"/o"⟩).manifest.withoutTimestamp ∧
            ∀ name event, ¬ replan.delta.Reports name event := by
  obtain ⟨proper, loaded, _⟩ := facts_lone
  obtain ⟨planned, ⟨next, last, report, built, same⟩, loadedAfter, properAfter, modified⟩ :=
    computes_apart
  have apart : (∀ place ∈ (loneBuilder ⟨"/o"⟩).writes (lonePlan ⟨"/o"⟩) 9, ¬ ["w"] <+: place) ∧
      (∀ place ∈ ["w", "package.json"] :: lockPlaces, ["w"] <+: place) ∧
        loneScope.folder.target = ["w"] := by
    decide +kernel
  obtain ⟨outside, inside, target⟩ := apart
  have noLockFile : ∀ place ∈ lockPlaces,
      (loneLast ⟨"/o"⟩ (("o", loneOutputs) :: loneDisk.entries)).kindAt? place = none := by
    decide +kernel
  rw [← same] at loadedAfter properAfter modified noLockFile
  have isOf := Session.isOf_empty loneDisk
  have within {disk : Disk} (loaded : Workspace.load disk ⟨"/w"⟩ = .ok renamedWorkspace)
      {place : Place} (reads : (loneBuilder ⟨"/o"⟩).Reads disk place) : ["w"] <+: place := by
    rcases reads_lone loaded reads with listed | rfl | ⟨_, _, names, _, _, rfl⟩
    · exact inside place listed
    · exact target ▸ List.prefix_rfl
    · exact target ▸ List.prefix_append _ _
  refine ⟨rfl, proper, isOf, next, last, report, built, ?_⟩
  refine converges_of_build rfl proper isOf built planned fitsWords_lone
    (fun output _ item listed => apart_lone listed output.target) (.refl properAfter _)
    (fun place reads written => outside place written ?_) (fun place heeds folder => ?_)
    (fun name m path file known tracked _ time found => fresh_lone modified known tracked found)
    (.inl rfl) 10
  · exact reads.elim (within loaded) (within loadedAfter)
  · have lock : place ∈ lockPlaces := heeds.elim (heeds_lone loaded) (heeds_lone loadedAfter)
    rw [Disk.HoldsFolder, noLockFile place lock] at folder
    cases folder

/-- Outputs are in a folder called like a lock file. -/
theorem computes_lock : Computes ⟨"/w/yarn.lock"⟩ "w" (.folder
    [("package.json", .file (.text "\x7b\x7d") 5), ("src", .folder [("a.ts", .file (.text "") 7)] 5),
      ("yarn.lock", loneOutputs)] 9) [] := by
  have taken : (Snapshot.take loneDisk (loneBuilder ⟨"/w/yarn.lock"⟩).settings false 9 renamedGraph
      .empty).2 = .ok (loneManifest ⟨"/w/yarn.lock"⟩ .npm 9) := eq_ok_of_toOption (by decide +kernel)
  have planned := plan_lone taken (by decide +kernel)
  exact
    { planned
      built := exists_build_lone planned (by decide +kernel) (by decide) (by decide)
      loaded := eq_ok_of_toOption (by decide +kernel)
      proper := by decide +kernel
      modified := by decide +kernel }

/-- A scan does not look into a folder of installed packages. -/
theorem not_looksIn_installed {scope : Scan.Scope} {folder name last : String}
    {entries : List (String × Item)} {more : List String} :
    ¬ Scan.LooksIn scope folder entries (name :: Workspace.installedFolder :: last :: more) := by
  rintro ⟨_, short | short | ⟨_, skipped, _⟩⟩
  · cases short
  · exact absurd (List.cons.inj short).2 (List.cons_ne_nil _ _)
  · have isSkipped : Scan.isSkipped Workspace.installedFolder = true := by decide
    rw [isSkipped] at skipped
    cases skipped

/-- With outputs in a folder called like a lock file, nothing that is read is written, but planning
again finds another package manager. -/
theorem not_converges_lock :
    (loneBuilder ⟨"/w/yarn.lock"⟩).host.isSome ∧ loneDisk.IsProper ∧ Session.empty.IsOf loneDisk ∧
      ((loneBuilder ⟨"/w/yarn.lock"⟩).plan loneDisk .empty 9).2 = .ok (lonePlan ⟨"/w/yarn.lock"⟩) ∧
      (lonePlan ⟨"/w/yarn.lock"⟩).previous = none ∧
      ((lonePlan ⟨"/w/yarn.lock"⟩).manifest.outputs.map Path.target).Nodup ∧
      ∃ next last report,
        (loneBuilder ⟨"/w/yarn.lock"⟩).build .empty 9 loneDisk () = (next, last, .ok report) ∧
        (∀ place, (loneBuilder ⟨"/w/yarn.lock"⟩).Reads loneDisk place ∨
            (loneBuilder ⟨"/w/yarn.lock"⟩).Reads last.disk place →
          place ∉ (loneBuilder ⟨"/w/yarn.lock"⟩).writes (lonePlan ⟨"/w/yarn.lock"⟩) 9) ∧
        (∀ name m path file, (lonePlan ⟨"/w/yarn.lock"⟩).manifest.module? name = some m →
          m.tracked.get? path = some file → ∀ time,
            last.disk.modified? (m.outputPath file.entry) = some time → file.entry.updated ≤ time) ∧
        ¬ ∃ replan, ((loneBuilder ⟨"/w/yarn.lock"⟩).plan last.disk next 10).2 = .ok replan ∧
          replan.manifest.withoutTimestamp =
            (lonePlan ⟨"/w/yarn.lock"⟩).manifest.withoutTimestamp := by
  obtain ⟨proper, loaded, _⟩ := facts_lone
  obtain ⟨planned, ⟨next, last, report, built, same⟩, loadedAfter, _, modified⟩ := computes_lock
  have apart : (∀ place ∈ ["w", "package.json"] :: lockPlaces,
      place ∉ (loneBuilder ⟨"/w/yarn.lock"⟩).writes (lonePlan ⟨"/w/yarn.lock"⟩) 9) ∧
        loneScope.folder.target = ["w"] ∧
          ∀ place ∈ (loneBuilder ⟨"/w/yarn.lock"⟩).writes (lonePlan ⟨"/w/yarn.lock"⟩) 9,
            place = ["m"] ∨ ["w", "yarn.lock", Workspace.installedFolder, "w"] <+: place := by
    decide +kernel
  obtain ⟨outside, target, written⟩ := apart
  have detected : PackageManager.detect (loneLast ⟨"/w/yarn.lock"⟩ [("w", .folder
      [("package.json", .file (.text "\x7b\x7d") 5), ("src", .folder [("a.ts", .file (.text "") 7)] 5),
        ("yarn.lock", loneOutputs)] 9)]) ⟨"/w"⟩ = .yarn := by
    decide +kernel
  rw [← same] at loadedAfter modified detected
  have unread {disk : Disk} (loaded : Workspace.load disk ⟨"/w"⟩ = .ok renamedWorkspace)
      {place : Place} (reads : (loneBuilder ⟨"/w/yarn.lock"⟩).Reads disk place) :
      place ∉ (loneBuilder ⟨"/w/yarn.lock"⟩).writes (lonePlan ⟨"/w/yarn.lock"⟩) 9 := by
    intro writes
    rcases reads_lone loaded reads with listed | rfl | ⟨_, _, names, _, looked, rfl⟩
    · exact outside place listed writes
    · rw [target] at writes
      rcases written _ writes with same | ⟨more, same⟩ <;> simp at same
    · rw [target] at writes
      rcases written _ writes with same | ⟨more, same⟩
      · simp at same
      · obtain rfl := (List.cons.inj same).2
        exact not_looksIn_installed looked
  refine ⟨rfl, proper, Session.isOf_empty loneDisk, planned, rfl, by decide +kernel, next, last,
    report, built, fun place reads => reads.elim (unread loaded) (unread loadedAfter),
    fun name m path file known tracked time found => fresh_lone modified known tracked found, ?_⟩
  rintro ⟨replan, replanned, alike⟩
  obtain ⟨graph, manifest, _, taken, rfl⟩ := plan_eq_ok_iff.mp replanned
  obtain ⟨main, modules, _, _, rfl⟩ := Snapshot.take_eq_ok taken
  have managers := congrArg (fun m => m.workspace.packageManager) alike
  change PackageManager.detect last.disk ⟨"/w"⟩ = .npm at managers
  rw [detected] at managers
  cases managers

end Lone

end Builder

end WorkspaceBuild
