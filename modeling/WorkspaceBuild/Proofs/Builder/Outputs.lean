import WorkspaceBuild.Proofs.Builder.Plans
import WorkspaceBuild.Proofs.Graph.Homes

/-! # Outputs after a build

An output is there after a build unless a removal leads to its place and no module of a later name
makes it again. This happens: a file that is there and one that is gone may have one output, when a
source was renamed.
-/

namespace WorkspaceBuild.Builder

open Production

variable {σ : Type}

section Builds

variable {b : Builder σ} {disk : Disk} {session : Session} {now : Nat} {plan : BuildPlan}
  {state last : BuildState σ}

/-- What a build leaves of outputs. Reported as deleted is what its removals delete, and the output
of a tracked file is there unless they empty its place and the manifest does not take it. -/
structure AccountsFor (b : Builder σ) (plan : BuildPlan) (now : Nat) (before : Disk)
    (last : BuildState σ) : Prop where
  ordered : last.disk.IsOrdered
  deleted : ∀ place, Deleted last.report place ↔
    (b.production plan.manifest now).Deletes (before.Holds place) (eventsOf plan.delta) place
  kept : ∀ name m path file, plan.manifest.module? name = some m →
    m.tracked.get? path = some file →
      ((last.disk.modified? (m.outputPath file.entry)).isSome ↔
        ¬ (b.production plan.manifest now).Empties (eventsOf plan.delta)
            (m.outputPath file.entry).target ∨
          (m.outputPath file.entry).target ∈ b.settings.manifestPath.trail)

/-- After a run and the writing of the manifest, outputs are accounted for. -/
theorem accountsFor_of_run {notes : σ} (planned : b.IsPlanned disk plan)
    (run : Run (b.production plan.manifest now) (eventsOf plan.delta) ⟨disk, notes, {}⟩ state)
    (saved : Disk.Adds state.disk last.disk b.settings.manifestPath.trail)
    (removed : last.report.removed = state.report.removed) :
    b.AccountsFor plan now disk last where
  ordered := saved.ordered
  deleted := by
    intro place
    have none : ¬ Deleted (BuildState.report ⟨disk, notes, {}⟩) place := by simp [Deleted]
    rw [Deleted, removed, ← Deleted, run.deleted_iff, or_iff_right none, hit_iff planned.inOrder]
  kept := by
    intro name m path file known tracked
    -- the way was there and stays, or is made with the output
    have there : state.disk.Reaches (m.outputPath file.entry) ∧
        (disk.Holds (m.outputPath file.entry).target ∨ ∃ item ∈ eventsOf plan.delta,
          (b.production plan.manifest now).Makes item (m.outputPath file.entry).target) := by
      rcases planned.present_or_wanted known tracked with present | ⟨item, member, wanted⟩
      · obtain ⟨reaches, held⟩ := Disk.modified?_isSome_iff.mp present
        exact ⟨run.keepsFolders.reaches reaches, .inl held⟩
      · obtain ⟨reaches, atTarget⟩ := run.reaches member wanted
        exact ⟨reaches, .inr ⟨item, member, _, wanted, atTarget⟩⟩
    rw [Disk.modified?_isSome_iff, and_iff_right (saved.keepsFolders.reaches there.1),
      saved.holds_iff, run.holds_iff there.2, lost_iff planned.inOrder]

/-- A plan that is carried out to the end is a run of its events, and then its manifest is
written. -/
theorem exists_run_of_execute {notes : σ} (hosted : b.host.isSome) (ordered : disk.IsOrdered)
    (planned : b.IsPlanned disk plan)
    (executed : b.execute plan now ⟨disk, notes, {}⟩ = (last, .ok ())) :
    ∃ state saving, Run (b.production plan.manifest now) (eventsOf plan.delta) ⟨disk, notes, {}⟩ state ∧
      b.save plan.manifest now state = (saving, .ok ()) ∧ last.disk = saving.disk ∧
        last.report.removed = saving.report.removed := by
  obtain ⟨middle, handled, others⟩ := andThen_eq_ok.mp executed
  obtain ⟨saving, saved, recorded⟩ := andThen_eq_ok.mp others
  cases recorded
  exact ⟨middle, saving,
    run_of_handleAll hosted ordered (fun item => planned.reaches_goneOutput) handled, saved, rfl, rfl⟩

/-- A plan that is carried out to the end accounts for outputs. -/
theorem accountsFor_of_execute {notes : σ} (hosted : b.host.isSome) (ordered : disk.IsOrdered)
    (planned : b.IsPlanned disk plan)
    (executed : b.execute plan now ⟨disk, notes, {}⟩ = (last, .ok ())) :
    b.AccountsFor plan now disk last := by
  obtain ⟨middle, saving, run, saved, same, removed⟩ :=
    exists_run_of_execute hosted ordered planned executed
  obtain ⟨adds, _, report⟩ := save_adds run.ordered saved
  rw [← same] at adds
  exact accountsFor_of_run planned run adds (removed.trans (congrArg BuildReport.removed report))

theorem build_eq_ok_iff {notes : σ} {next : Session} {report : BuildReport} :
    b.build session now disk notes = (next, last, .ok report) ↔
      ∃ plan, b.plan disk session now = (next, .ok plan) ∧
        b.execute plan now ⟨disk, notes, {}⟩ = (last, .ok ()) ∧ last.report = report := by
  constructor
  · intro built
    unfold build at built
    generalize b.plan disk session now = planned at built ⊢
    obtain ⟨after, answer⟩ := planned
    cases answer with
    | error e => simp at built
    | ok plan =>
        simp only at built
        generalize executed : b.execute plan now ⟨disk, notes, {}⟩ = done at built
        obtain ⟨state, result⟩ := done
        cases result with
        | error e => simp [Except.map] at built
        | ok _ =>
            simp only [Except.map, Prod.mk.injEq, Except.ok.injEq] at built
            obtain ⟨rfl, rfl, rfl⟩ := built
            exact ⟨plan, rfl, executed, rfl⟩
  · rintro ⟨plan, planned, executed, rfl⟩
    unfold build
    simp only [planned, executed]
    rfl

/-- A build that has been done accounts for outputs, and leaves what the next one relies on. -/
theorem accountsFor_of_build {notes : σ} {next : Session} {report : BuildReport}
    (hosted : b.host.isSome) (ordered : disk.IsOrdered) (made : session.Made)
    (built : b.build session now disk notes = (next, last, .ok report)) :
    next.Made ∧ last.report = report ∧
      ∃ plan, (b.plan disk session now).2 = .ok plan ∧ b.AccountsFor plan now disk last := by
  obtain ⟨plan, planned, executed, same⟩ := build_eq_ok_iff.mp built
  have madeAfter : (b.plan disk session now).1.Made := made_plan made
  rw [planned] at madeAfter
  have isPlanned : b.IsPlanned disk plan := isPlanned_of_plan made.isClassified (congrArg Prod.snd planned)
  exact ⟨madeAfter, same, plan, congrArg Prod.snd planned,
    accountsFor_of_execute hosted ordered isPlanned executed⟩

end Builds

/-! A workspace in which `src/a.js` was renamed to `src/a.ts` after the build before. -/

section Renamed

def renamedPieces : List String :=
  ["\x7b\"version\":1,\"workspace\":\x7b", "\"path\":\"/w\",\"name\":\"w\",",
    "\"monorepo\":false,", "\"packageManager\":\"npm\"\x7d,", "\"paths\":\x7b",
    "\"compilerOutput\":\"/c\",", "\"output\":\"/o\",\"tool\":\".t\",",
    "\"types\":\"/t\"\x7d,\"main\":\x7b", "\"name\":\"w\",", "\"version\":\"0.0.0\",",
    "\"source\":\"/w\"\x7d,", "\"generated\":0,\"modules\":\x7b", "\"w\":\x7b\"name\":\"w\",",
    "\"version\":\"0.0.0\",", "\"source\":\"/w\",", "\"output\":\"/o/node_modules/w\",",
    "\"main\":true,", "\"workspace\":true,", "\"internal\":false,",
    "\"prod\":true,\"roles\":[],", "\"parents\":[],\"files\":\x7b",
    "\"src\":[\x7b\"path\":\"src/a.js\",", "\"type\":\"compiled\",",
    "\"updated\":5\x7d]\x7d\x7d\x7d\x7d"]

/-- The text that the build before has left. -/
def renamedText : String := .join renamedPieces

def renamedDisk : Disk :=
  let file (name text : String) (time : Nat) : String × Item := (name, .file (.text text) time)
  let folder (name : String) (entries : List (String × Item)) : String × Item :=
    (name, .folder entries 5)
  ⟨[file "m" renamedText 5,
    folder "o" [folder "node_modules" [folder "w" [folder "src" [file "a.js" "" 5]]]],
    folder "w" [file "package.json" "\x7b\x7d" 5, folder "src" [file "a.ts" "" 7]]]⟩

def renamedBuilder : Builder Unit where
  settings :=
    { workspaceRoot := ⟨"/w"⟩, toolFolder := ⟨"/w/.t"⟩, outputRoot := ⟨"/o"⟩,
      compilerOutput := ⟨"/c"⟩, typesOutput := ⟨"/t"⟩, manifestPath := ⟨"/m"⟩,
      profiles := [], excluded := [], compilerUrl := none }
  full := false
  host := some (UnitHost.compiler ⟨[⟨⟨"/w/src/a.ts"⟩, []⟩], .ofTables default [] []⟩)
  catalog := []
  levels := 0
  system := .sound

def renamedModule (roles : List Role) (files : Assoc Category (List FileEntry)) : Module :=
  ⟨"w", "0.0.0", ⟨"/w"⟩, ⟨"/o/node_modules/w"⟩, true, true, false, true, roles, [], [], files⟩

def renamedManifest (generated : Nat) (m : Module) : Manifest where
  version := 1
  workspace := ⟨⟨"/w"⟩, "w", false, .npm⟩
  paths := ⟨⟨"/c"⟩, ⟨"/o"⟩, ⟨".t"⟩, ⟨"/t"⟩, none⟩
  main := ⟨"w", "0.0.0", ⟨"/w"⟩⟩
  generated
  modules := [("w", m)]

def renamedBefore : Manifest :=
  renamedManifest 0 (renamedModule [] [(.src, [⟨"src/a.js", .compiled, 5, none, []⟩])])

def renamedPlan : BuildPlan where
  manifest := renamedManifest 9 (renamedModule [.standard]
    [(.package, [⟨"package.json", .package, 5, none, []⟩]),
      (.src, [⟨"src/a.ts", .source, 7, none, []⟩])])
  previous := some renamedBefore
  delta := [("w", [⟨"package.json", .package, .added⟩, ⟨"src/a.ts", .src, .added⟩,
    ⟨"src/a.js", .src, .removed⟩])]

theorem eq_mk_of_snd {α β : Type} {pair : α × β} {y : β} (same : pair.2 = y) :
    pair = (pair.1, y) := by
  rw [← same]

/-- A run whose result and disk have been computed. -/
theorem exists_mk_of_outcome {run : Production.Step σ} {after : Disk}
    (outcome : run.2.toOption = some () ∧ run.1.disk.entries = after.entries) :
    ∃ state, run = (state, .ok ()) ∧ state.disk = after :=
  ⟨run.1, eq_mk_of_snd (eq_ok_of_toOption outcome.1), congrArg Disk.mk outcome.2⟩

/-- A workspace that depends on nothing is one module. -/
theorem walk_of_alone {w : Workspace} {disk : Disk} (alone : (w.start disk).pending = []) :
    w.walk disk = .ok (w.start disk).graph := by
  rw [Workspace.walk, alone, Workspace.walkOn.eq_def]
  rfl

def renamedWorkspace : Workspace := ⟨⟨"/w"⟩, {}, ⟨[]⟩⟩

def renamedGraph : ModuleGraph := (renamedWorkspace.start renamedDisk).graph.complete.2

set_option maxRecDepth 4000

theorem graph_of_load {b : Builder Unit} {disk : Disk}
    (loaded : Workspace.load disk b.settings.workspaceRoot = .ok renamedWorkspace) :
    b.graph disk = .ok renamedGraph := by
  have alone : (renamedWorkspace.start disk).pending = [] := by
    have none : Workspace.dependenciesOf {} true = [] := by decide +kernel
    change (Workspace.dependenciesOf {} true).filterMap _ = []
    rw [none, List.filterMap_nil]
  have completes : (renamedWorkspace.start disk).graph.complete.1 = .ok () :=
    (eq_ok_of_toOption (by decide +kernel) :
      (renamedWorkspace.start renamedDisk).graph.complete.1 = .ok ())
  refine mapError_eq_ok.mpr
    (Workspace.resolve_eq_ok_iff.mpr ⟨_, _, loaded, walk_of_alone alone, ?_⟩)
  rw [← completes]
  exact (Prod.eta _).symm

/-- The plan of a workspace that is one module. -/
theorem plan_of_load {b : Builder Unit} {disk : Disk} {plan : BuildPlan} {now : Nat}
    (loaded : Workspace.load disk b.settings.workspaceRoot = .ok renamedWorkspace)
    (taken : (Snapshot.take disk b.settings b.full now renamedGraph .empty).2 = .ok plan.manifest)
    (previous : Manifest.loadPrevious? disk b.settings.manifestPath = plan.previous)
    (compared : Delta.between disk b.settings.outputRoot plan.manifest plan.previous = plan.delta) :
    (b.plan disk .empty now).2 = .ok plan := by
  refine plan_eq_ok_iff.mpr ⟨renamedGraph, plan.manifest, graph_of_load loaded, taken, ?_⟩
  rw [planFor, previous, compared]

/-- A workspace that is one module has no plan when no snapshot of it can be taken. -/
theorem plan_of_untaken {b : Builder Unit} {disk : Disk} {e : BuildError} {now : Nat}
    (loaded : Workspace.load disk b.settings.workspaceRoot = .ok renamedWorkspace)
    (untaken : (Snapshot.take disk b.settings b.full now renamedGraph .empty).2 = .error e) :
    (b.plan disk .empty now).2 = .error e := by
  rcases b.plan_cases disk .empty now with ⟨_, failed, _⟩ | ⟨graph, resolved, same⟩
  · cases (graph_of_load loaded).symm.trans failed
  · cases (graph_of_load loaded).symm.trans resolved
    rw [same, untaken]
    rfl

theorem readText_renamed : renamedDisk.readText ⟨"/m"⟩ = .ok renamedText := by
  have placed : renamedDisk.place ⟨"/m"⟩ = .ok ["m"] := eq_ok_of_toOption (by decide)
  simp only [Disk.readText, Disk.read, Disk.item, placed, bind, Except.bind]
  rfl

-- The text stays a variable here, for its characters to be read piece by piece: those of a literal
-- are found by rewriting, as decoding its bytes would take the kernel long.
theorem ofText_renamed {text : String}
    (chars : text.toList = renamedPieces.flatMap String.toList) :
    Manifest.ofText text = .ok renamedBefore := by
  unfold Manifest.ofText Json.read? Json.readLoosely?
  simp only [renamedPieces, List.flatMap_cons, List.flatMap_nil] at chars
  repeat rw [String.toList_ofList] at chars
  rw [chars]
  exact eq_ok_of_toOption (by decide +kernel)

theorem loadPrevious?_renamed :
    Manifest.loadPrevious? renamedDisk ⟨"/m"⟩ = some renamedBefore := by
  have isFile : renamedDisk.isFile ⟨"/m"⟩ = true := by decide
  have said : Manifest.ofText renamedText = .ok renamedBefore :=
    ofText_renamed String.toList_join
  rw [Manifest.loadPrevious?, if_pos isFile, Manifest.load, readText_renamed]
  simp only [said]
  rfl

theorem plan_renamed : (renamedBuilder.plan renamedDisk .empty 9).2 = .ok renamedPlan := by
  have taken : (Snapshot.take renamedDisk renamedBuilder.settings renamedBuilder.full 9 renamedGraph
      .empty).2 = .ok renamedPlan.manifest := eq_ok_of_toOption (by decide +kernel)
  exact plan_of_load (eq_ok_of_toOption (by decide)) taken loadPrevious?_renamed (by decide)

theorem outcome_renamed :
    let run := renamedBuilder.execute renamedPlan 9 ⟨renamedDisk, (), {}⟩
    run.2.toOption = some () ∧ run.1.report.transformed = [⟨"/o/node_modules/w/src/a.js"⟩] ∧
      run.1.disk.modified? ⟨"/o/node_modules/w/src/a.js"⟩ = none := by
  decide +kernel

theorem execute_renamed :
    (renamedBuilder.execute renamedPlan 9 ⟨renamedDisk, (), {}⟩).2 = .ok () :=
  eq_ok_of_toOption outcome_renamed.1

end Renamed

/-- The output of `src/a.ts` is written, and then deleted as that of `src/a.js`. -/
theorem accountsFor_of_build_renamed :
    renamedBuilder.host.isSome ∧ renamedDisk.IsOrdered ∧ Session.empty.Made ∧
      ∃ next last report,
        renamedBuilder.build .empty 9 renamedDisk () = (next, last, .ok report) ∧
          renamedBuilder.AccountsFor renamedPlan 9 renamedDisk last ∧
          report.transformed = [⟨"/o/node_modules/w/src/a.js"⟩] ∧
          last.disk.modified? ⟨"/o/node_modules/w/src/a.js"⟩ = none := by
  have ordered : renamedDisk.IsOrdered := by decide +kernel
  have planned := eq_mk_of_snd plan_renamed
  have executed := eq_mk_of_snd execute_renamed
  have built := build_eq_ok_iff.mpr ⟨renamedPlan, planned, executed, rfl⟩
  obtain ⟨_, _, plan, same, accounts⟩ := accountsFor_of_build rfl ordered .empty built
  obtain rfl : renamedPlan = plan := Except.ok.inj (plan_renamed.symm.trans same)
  exact ⟨rfl, ordered, .empty, _, _, _, built, accounts, outcome_renamed.2⟩

end WorkspaceBuild.Builder
