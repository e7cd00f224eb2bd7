import WorkspaceBuild.Proofs.Builder.Changes
import WorkspaceBuild.Proofs.Builder.Sight
import WorkspaceBuild.Proofs.Manifests.Recorded
import WorkspaceBuild.Proofs.Settings

/-! # Artefacts of a build

A build writes outputs and a manifest into the workspace that the next plan looks at. Outputs are
behind a name that scans skip. The manifest is out of sight where the tool keeps it, in a folder that
settings leave out, but the environment can put it where it is taken for a file of the workspace.
-/

namespace WorkspaceBuild

namespace Snapshot

variable {disk : Disk} {settings : Settings} {full : Bool} {session : Session} {now : Nat}
  {graph : ModuleGraph} {manifest : Manifest}

/-- Every node of a graph has its module. -/
theorem exists_module_of_take (housed : graph.IsHoused disk) (isOf : session.IsOf disk)
    (taken : (take disk settings full now graph session).2 = .ok manifest) {node : GraphNode}
    (listed : node ∈ graph.inOrder) : ∃ m, manifest.module? node.name = some m ∧
      m.scope settings full = scopeOf settings full node := by
  have present : (manifest.module? node.name).isSome := by
    obtain ⟨main, modules, _, all, rfl⟩ := take_eq_ok taken
    have names := names_of_moduleOf (modulesOf_answers all)
    have known : node.name ∈ modules.map Module.name := names ▸ List.mem_map_of_mem listed
    change ((Assoc.ofPairs (modules.map fun m => (m.name, m))).get? node.name).isSome = true
    rw [Assoc.get?_ofPairs, Assoc.get?_isSome_iff, Assoc.keys, List.map_reverse, List.mem_reverse,
      List.map_map]
    exact known
  obtain ⟨m, named⟩ := Option.isSome_iff_exists.mp present
  obtain ⟨other, listedToo, files, _, rfl, same⟩ :=
    exists_run_of_take isOf (fun _ => housed.isFolder) taken named
  have found {node : GraphNode} (listed : node ∈ graph.inOrder) :
      graph.get? node.name = some node := by
    obtain ⟨key, _, there⟩ := List.mem_filterMap.mp listed
    rwa [housed.consistent.named key node there]
  have twin := found listedToo
  rw [same, found listed] at twin
  cases twin
  exact ⟨_, named, rfl⟩

end Snapshot

/-- Settings leave a folder below the workspace out: it is one of builds, or the project file says
so. -/
def Settings.Excludes (s : Settings) (names : Place) : Prop :=
  (∃ own ∈ s.ownFolders, own.components = s.workspaceRoot.components ++ names.map .name) ∨
    ∃ e ∈ s.excluded, e.components = names.map .name

/-- The manifest is kept where the scan of a module does not come. -/
inductive Settings.Shields (s : Settings) (full : Bool) (m : Module) : Prop where
  | outside (apart : ¬ m.source.target <+: s.manifestPath.target) : Shields s full m
  | skipped {front rest : Place} {name : String}
      (same : s.manifestPath.target = m.source.target ++ front ++ name :: rest)
      (skipped : Scan.isSkipped name = true) : Shields s full m
  /-- It is in a folder that is left out of the workspace's own module. -/
  | excluded {names rest : Place} (main : m.main = true) (excludes : s.Excludes names)
      (plain : ∀ name ∈ names, Path.IsPlain name) (named : names ≠ [])
      (same : s.manifestPath.target = s.workspaceRoot.target ++ names ++ rest) (below : rest ≠ [])
      (other : rest ≠ [descriptorFile]) : Shields s full m
  /-- It is in a folder that a scan that is not full passes over. -/
  | passed {name : String} {rest : Place} (inPart : full = false) (dependency : m.main = false)
      (unscanned : name ∉ Scan.partialFolders)
      (same : s.manifestPath.target = m.source.target ++ [name] ++ rest) (below : rest ≠ [])
      (other : rest ≠ [descriptorFile]) : Shields s full m

/-- A module does not see a manifest that is shielded from it. -/
theorem Settings.Shields.misses {s : Settings} {full : Bool} {m : Module} (h : s.Shields full m)
    (excludes : s.ExcludesOwn) (absolute : m.source.isAbsolute = true)
    (home : m.main = true → m.source = s.workspaceRoot) (disk : Disk) :
    m.Misses disk s full s.manifestPath.target := by
  cases h with
  | outside apart => exact .outside apart
  | skipped same skipped => exact .skipped same skipped
  | passed inPart dependency unscanned same below other =>
      exact .leftOut same (List.cons_ne_nil _ _) below other (.passed inPart dependency unscanned)
  | @excluded names rest main listed plain named same below other =>
      rw [← home main] at same
      have listed : ∃ e ∈ s.excluded, e.components = names.map .name := by
        rcases listed with ⟨own, member, spelled⟩ | listed
        · exact excludes own member _ spelled (by simpa using named)
        · exact listed
      obtain ⟨e, member, alike⟩ := listed
      refine .leftOut same named below other (.excluded main member (decide_eq_true ?_))
      rw [Path.components_join_congr absolute rfl (q := e) ((Path.components_spell plain).trans alike.symm)]

/-- Below a folder of installed packages, a module that is not there itself sees nothing. -/
theorem Module.misses_of_installed {m : Module} {place folder : Place} {s : Settings} {full : Bool}
    (installed : folder ++ [Workspace.installedFolder] <+: place)
    (apart : ¬ folder ++ [Workspace.installedFolder] <+: m.source.target) (disk : Disk) :
    m.Misses disk s full place := by
  by_cases within : m.source.target <+: place
  · have above : m.source.target <+: folder := by
      have shorter := (List.prefix_or_prefix_of_prefix within installed).resolve_right apart
      rcases List.prefix_concat_iff.mp shorter with same | above
      · exact absurd (same ▸ List.prefix_rfl) apart
      · exact above
    obtain ⟨front, rfl⟩ := above
    obtain ⟨rest, rfl⟩ := installed
    have split : m.source.target ++ front ++ [Workspace.installedFolder] ++ rest =
        m.source.target ++ front ++ Workspace.installedFolder :: rest := by
      rw [List.append_assoc _ [_] rest, List.singleton_append]
    exact .skipped split (by decide)
  · exact .outside within

namespace Builder

variable {σ : Type} {b : Builder σ} {disk : Disk} {m : Module}

section Builds

variable {session next : Session} {now : Nat} {notes : σ} {plan : BuildPlan} {last : BuildState σ}
  {report : BuildReport}

/-- The modules that a plan finds are the packages in their folders, and only the one at the root is the
workspace's own. -/
theorem modules_of_plan (proper : disk.IsProper) (isOf : session.IsOf disk)
    (planned : (b.plan disk session now).2 = .ok plan) {name : String}
    (named : plan.manifest.module? name = some m) : m.IsCurrent disk b.settings b.full ∧
      (m.main = true → m.source = b.settings.workspaceRoot) := by
  obtain ⟨graph, manifest, found, taken, rfl⟩ := plan_eq_ok_iff.mp planned
  have resolved := mapError_eq_ok.mp found
  have housed := Workspace.isHoused_resolve resolved
  refine ⟨((Snapshot.isCurrent_manifest proper housed isOf taken).modules name m named).2, ?_⟩
  obtain ⟨node, listed, files, _, rfl, _⟩ :=
    Snapshot.exists_run_of_take isOf (fun _ => housed.isFolder) taken named
  obtain ⟨key, _, there⟩ := List.mem_filterMap.mp listed
  exact fun main => Workspace.isRooted_resolve resolved key node there main

/-- A build does not feed on what it writes where the manifest is shielded from every module. With the
outputs below the installed packages of their folder, and no module there, the next plan does not fail
and no module of its manifest lists what the build has written. None of these files is a descriptor
that finding the modules looks for. -/
theorem shuns_of_build {start : Disk} {env : Settings.Environment} {folder root : Path}
    (loaded : Settings.load start env folder root = .ok b.settings) (proper : disk.IsProper)
    (isOf : session.IsOf disk)
    (built : b.build session now disk notes = (next, last, .ok report))
    (planned : (b.plan disk session now).2 = .ok plan)
    (shields : ∀ name m, plan.manifest.module? name = some m → b.settings.Shields b.full m)
    (installed : ∀ item ∈ eventsOf plan.delta,
      ∀ place ∈ (b.production plan.manifest now).touched item,
        b.settings.outputRoot.target ++ [Workspace.installedFolder] <+: place)
    (apart : ∀ name m, plan.manifest.module? name = some m →
      ¬ b.settings.outputRoot.target ++ [Workspace.installedFolder] <+: m.source.target)
    (unsought : ∀ sought, Workspace.Seeks disk last.disk b.settings.workspaceRoot sought →
      (sought.join descriptorFile).target ∉ b.writes plan now)
    (unpassed : ∀ sought, Workspace.Seeks disk last.disk b.settings.workspaceRoot sought →
      ∀ place, (sought.join descriptorFile).Passes place →
        last.disk.HoldsFolder place → disk.HoldsFolder place)
    {again : Session} (kept : again = next ∨ again.IsOf last.disk) (later : Nat) :
    ∃ replan, (b.plan last.disk again later).2 = .ok replan ∧
      ∀ name m category entry, replan.manifest.module? name = some m →
        (category, entry) ∈ m.entries → (m.sourcePath entry).target ∉ b.writes plan now := by
  obtain ⟨other, same, executed, _⟩ := build_eq_ok_iff.mp built
  obtain rfl : other = plan := by
    rw [same] at planned
    exact Except.ok.inj planned
  have changed := confined_execute proper.ordered executed
  have unseen : ∀ place ∈ b.writes other now, ∀ name m, other.manifest.module? name = some m →
      ¬ (m.scope b.settings b.full).LooksAt disk place := by
    intro place written name m named
    obtain ⟨current, home⟩ := modules_of_plan proper isOf planned named
    obtain ⟨entries, modified, there, _⟩ := current.exists_entries proper
    have absolute := (Disk.item_eq_ok_iff.mp there).1.1
    have missed : m.Misses disk b.settings b.full place := by
      rcases List.mem_append.mp written with output | manifest
      · obtain ⟨item, listed, touched⟩ := List.mem_flatMap.mp output
        exact m.misses_of_installed (installed item listed place touched) (apart name m named) disk
      · rw [List.mem_singleton.mp manifest]
        exact (shields name m named).misses (Settings.excludesOwn_of_load loaded) absolute home disk
    exact missed.not_looksAt (isPlain_of_mem_writes place written) there
  have spares : b.SparesModules disk last.disk :=
    { proper
      properAfter := isProper_of_execute proper executed
      folders := changed.keepsFolders
      descriptors := fun sought seeks => Disk.contents?_congr changed.keepsFolders
        (changed.keepsFiles _ (unsought sought seeks)) (unpassed sought seeks)
      scanned := fun graph node place found listed looked => by
        refine changed.keepsFiles place fun written => ?_
        obtain ⟨graphToo, manifest, foundToo, taken, rfl⟩ := plan_eq_ok_iff.mp planned
        cases found.symm.trans foundToo
        have housed := Workspace.isHoused_resolve (mapError_eq_ok.mp found)
        obtain ⟨m, named, scope⟩ := Snapshot.exists_module_of_take housed isOf taken listed
        exact unseen place written node.name m named (scope ▸ looked) }
  refine ⟨_, spares.plan isOf planned (by rwa [same]) later, ?_⟩
  intro name m category entry named listed written
  have current := (modules_of_plan proper isOf planned named).1
  exact unseen _ written name m named (current.looksAt proper listed)

end Builds

/-! A workspace of one module, whose project file says where the tool's folder is. The environment may
put the manifest elsewhere. -/

section Tool

def toolDisk : Disk :=
  ⟨[("w", .folder [("loom.toml", .file (.text "[build]\ntool = \"t\"\n") 5),
    ("package.json", .file (.text "\x7b\x7d") 5)] 5)]⟩

def toolBuilder (env : Settings.Environment) : Builder Unit where
  settings := .overrideRest env (.ofProject ⟨"/w"⟩ { build := { tool := some ⟨"t"⟩ } })
  full := false
  host := none
  catalog := []
  levels := 0
  system := .sound

def toolModule : Module :=
  ⟨"w", "0.0.0", ⟨"/w"⟩, ⟨"/w/t/out/node_modules/w"⟩, true, true, false, true, [.standard], [], [],
    [(.root, [⟨"loom.toml", .unknown, 5, none, []⟩]),
      (.package, [⟨"package.json", .package, 5, none, []⟩])]⟩

def toolPlan : BuildPlan where
  manifest :=
    { version := Manifest.currentVersion
      workspace := ⟨⟨"/w"⟩, "w", false, .npm⟩
      paths := ⟨⟨"/w/t/tsc"⟩, ⟨"/w/t/out"⟩, ⟨"t"⟩, ⟨"/w/t/types"⟩, none⟩
      main := ⟨"w", "0.0.0", ⟨"/w"⟩⟩
      generated := 9
      modules := [("w", toolModule)] }
  previous := none
  delta := [("w", [⟨"loom.toml", .root, .added⟩, ⟨"package.json", .package, .added⟩])]

/-- What the first build leaves. -/
def toolLast (env : Settings.Environment) : BuildState Unit :=
  ((toolBuilder env).execute toolPlan 9 ⟨toolDisk, (), {}⟩).1

/-- The manifest is put into a folder of the workspace. -/
def movedManifest : Settings.Environment := [(Settings.manifestVariable, "cache/manifest.json")]

set_option maxRecDepth 4000

theorem facts_tool : ∀ env ∈ [[], movedManifest],
    (Settings.load toolDisk env ⟨"/"⟩ ⟨"/w"⟩).toOption = some (toolBuilder env).settings ∧
      toolDisk.IsProper ∧
      (Workspace.load toolDisk ⟨"/w"⟩).toOption = some renamedWorkspace ∧
      (Snapshot.take toolDisk (toolBuilder env).settings false 9 renamedGraph
        .empty).2.toOption = some toolPlan.manifest ∧
      toolDisk.isFile (toolBuilder env).settings.manifestPath = false ∧
      Delta.between toolDisk (toolBuilder env).settings.outputRoot toolPlan.manifest none =
        toolPlan.delta ∧
      ((toolBuilder env).execute toolPlan 9 ⟨toolDisk, (), {}⟩).2.toOption = some () := by
  decide +kernel

theorem exists_build_tool {env : Settings.Environment} (known : env ∈ [[], movedManifest]) :
    Settings.load toolDisk env ⟨"/"⟩ ⟨"/w"⟩ = .ok (toolBuilder env).settings ∧
      toolDisk.IsProper ∧ ((toolBuilder env).plan toolDisk .empty 9).2 = .ok toolPlan ∧
      ∃ next report, (toolBuilder env).build .empty 9 toolDisk () =
        (next, toolLast env, .ok report) := by
  obtain ⟨settings, proper, loaded, taken, isFile, compared, executed⟩ := facts_tool env known
  have none : Manifest.loadPrevious? toolDisk (toolBuilder env).settings.manifestPath = none := by
    rw [Manifest.loadPrevious?, isFile]
    rfl
  have planned : ((toolBuilder env).plan toolDisk .empty 9).2 = .ok toolPlan :=
    plan_of_load (eq_ok_of_toOption loaded) (eq_ok_of_toOption taken) none compared
  exact ⟨eq_ok_of_toOption settings, proper, planned, _, _, build_eq_ok_iff.mpr
    ⟨toolPlan, eq_mk_of_snd planned, eq_mk_of_snd (eq_ok_of_toOption executed), rfl⟩⟩

/-- With the manifest in the tool's folder, the next plan does not see what the build has written. -/
theorem shuns_of_build_tool :
    Settings.load toolDisk [] ⟨"/"⟩ ⟨"/w"⟩ = .ok (toolBuilder []).settings ∧
      toolDisk.IsProper ∧ Session.empty.IsOf toolDisk ∧
      (∀ name m, toolPlan.manifest.module? name = some m →
        (toolBuilder []).settings.Shields false m) ∧ ∃ next report,
        (toolBuilder []).build .empty 9 toolDisk () = (next, toolLast [], .ok report) ∧
        ∃ replan, ((toolBuilder []).plan (toolLast []).disk .empty 10).2 = .ok replan ∧
          ∀ name m category entry, replan.manifest.module? name = some m →
            (category, entry) ∈ m.entries →
              (m.sourcePath entry).target ∉ (toolBuilder []).writes toolPlan 9 := by
  obtain ⟨settings, proper, planned, next, report, built⟩ := exists_build_tool (by decide : [] ∈ _)
  have descriptor : Descriptor.load toolDisk ⟨"/w"⟩ = .ok {} := eq_ok_of_toOption (by decide +kernel)
  have places : (∀ item ∈ eventsOf toolPlan.delta,
      ∀ place ∈ ((toolBuilder []).production toolPlan.manifest 9).touched item,
        (toolBuilder []).settings.outputRoot.target ++ [Workspace.installedFolder] <+: place) ∧
      ["w", "package.json"] ∉ (toolBuilder []).writes toolPlan 9 := by
    decide +kernel
  have folder : (toolBuilder []).settings.toolFolder.components =
      (toolBuilder []).settings.workspaceRoot.components ++ ["t"].map .name ∧
        (toolBuilder []).settings.manifestPath.target = ["w"] ++ ["t"] ++ ["manifest.json"] ∧
          ¬ (toolBuilder []).settings.outputRoot.target ++ [Workspace.installedFolder] <+:
            Path.target ⟨"/w"⟩ := by
    decide +kernel
  obtain ⟨_, _, own, straight⟩ := places_lone
  have only {sought : Path}
      (seeks : Workspace.Seeks toolDisk (toolLast []).disk ⟨"/w"⟩ sought) : sought = ⟨"/w"⟩ := by
    cases seeks with
    | opened opens => exact opens_lone descriptor opens
    | matched loaded looked =>
        cases descriptor.symm.trans loaded
        obtain ⟨_, _, _, pattern, listed, _⟩ := looked
        cases listed
  have alone {name : String} {m : Module} (named : toolPlan.manifest.module? name = some m) :
      m = toolModule := by
    cases List.mem_singleton.mp (Assoc.mem_of_get? named)
    rfl
  have shields : ∀ name m, toolPlan.manifest.module? name = some m →
      (toolBuilder []).settings.Shields false m := by
    intro name m named
    obtain rfl := alone named
    exact .excluded rfl (.inl ⟨_, List.mem_cons_self, folder.1⟩) (by decide) (List.cons_ne_nil _ _)
      folder.2.1 (List.cons_ne_nil _ _) (by decide)
  refine ⟨settings, proper, Session.isOf_empty _, shields, next, report, built, ?_⟩
  refine shuns_of_build settings proper (Session.isOf_empty _) built planned shields places.1 ?apart
    ?unsought ?unpassed (.inr (Session.isOf_empty _)) 10
  case apart =>
    intro name m named
    obtain rfl := alone named
    exact folder.2.2
  case unsought =>
    intro sought seeks
    obtain rfl := only seeks
    rw [own]
    exact places.2
  case unpassed =>
    intro sought seeks place passed
    obtain rfl := only seeks
    rw [Path.Passes, own] at passed
    exact absurd (straight place passed.1) passed.2

theorem facts_moved :
    (Workspace.load (toolLast movedManifest).disk ⟨"/w"⟩).toOption = some renamedWorkspace ∧
      (Snapshot.take (toolLast movedManifest).disk (toolBuilder movedManifest).settings false 10
        renamedGraph .empty).2 = .error (.unexpectedFolder "w" "cache" "cache/manifest.json") := by
  decide +kernel

/-- With the manifest elsewhere in the workspace, the next plan takes its folder for one of the
module's. -/
theorem not_shuns_moved :
    Settings.load toolDisk movedManifest ⟨"/"⟩ ⟨"/w"⟩ = .ok (toolBuilder movedManifest).settings ∧
      toolDisk.IsProper ∧ ∃ next report,
        (toolBuilder movedManifest).build .empty 9 toolDisk () =
          (next, toolLast movedManifest, .ok report) ∧
        ((toolBuilder movedManifest).plan (toolLast movedManifest).disk .empty 10).2 =
          .error (.unexpectedFolder "w" "cache" "cache/manifest.json") := by
  obtain ⟨settings, proper, _, next, report, built⟩ :=
    exists_build_tool (by decide : movedManifest ∈ _)
  obtain ⟨loaded, untaken⟩ := facts_moved
  exact ⟨settings, proper, next, report, built, plan_of_untaken (eq_ok_of_toOption loaded) untaken⟩

end Tool

end Builder

end WorkspaceBuild
