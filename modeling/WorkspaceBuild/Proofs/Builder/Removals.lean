import WorkspaceBuild.Proofs.Builder.Plans
import WorkspaceBuild.Proofs.Manifests.Kept
import WorkspaceBuild.Proofs.Manifests.Owners

/-! # Removals

A file of the build before that a module lists no more is reported as gone when its output is there.
The file is gone, or it is below a folder into which the scan does not go: then it is there, and the
build deletes its output all the same.
-/

namespace WorkspaceBuild

namespace Module

variable {m : Module} {disk : Disk} {settings : Settings} {full : Bool}

/-- The scan of a module does not go into a folder below the module's. -/
inductive LeavesOut (m : Module) (disk : Disk) (settings : Settings) (full : Bool) :
    List String → Prop where
  /-- Settings leave it out of the workspace's own module. -/
  | excluded {way : List String} {e : Path} (main : m.main = true) (listed : e ∈ settings.excluded)
      (same : (m.source.join (Path.spell way)).same (m.source.join e.text) = true) :
      LeavesOut m disk settings full way
  /-- It holds a package of its own. -/
  | package {way : List String}
      (holds : disk.isFile (m.source.join (Path.spell (way ++ [descriptorFile]))) = true) :
      LeavesOut m disk settings full way
  /-- A scan that is not full passes it over. -/
  | passed {name : String} (inPart : full = false) (dependency : m.main = false)
      (other : name ∉ Scan.partialFolders) : LeavesOut m disk settings full [name]

/-- A path leads through a folder that the scan of a module leaves out. -/
def LeavesOutPath (m : Module) (disk : Disk) (settings : Settings) (full : Bool) (path : String) :
    Prop :=
  ∃ way rest, way ≠ [] ∧ rest ≠ [] ∧ (∀ name ∈ way ++ rest, Path.IsPlain name) ∧
    path = Path.spell (way ++ rest) ∧ m.LeavesOut disk settings full way

theorem enters_eq_false_iff {entries : List (String × Item)} {modified : Nat}
    (there : disk.item m.source = .ok (.folder entries modified)) {folders : List String}
    {name : String} (plain : ∀ other ∈ folders ++ [name], Path.IsPlain other) :
    (m.scope settings full).enters (Path.spell (folders ++ [name])) name
        (Disk.heldAt entries (folders ++ [name])) = false ↔
      m.LeavesOut disk settings full (folders ++ [name]) := by
  have descriptor : disk.isFile (m.source.join (Path.spell (folders ++ [name] ++ [descriptorFile]))) =
      Scan.holdsPackage (Disk.heldAt entries (folders ++ [name])) := by
    have alsoPlain : ∀ other ∈ folders ++ [name] ++ [descriptorFile], Path.IsPlain other :=
      List.forall_mem_append.mpr ⟨plain, by simpa using Descriptor.isPlain_descriptorFile⟩
    rw [Disk.isFile_join_spell there alsoPlain (by simp), Scan.holdsPackage_eq,
      Disk.fileIn?_heldAt _ (by simp)]
  simp only [Scan.Scope.enters, ← descriptor, scope, Bool.and_eq_false_iff, Bool.not_eq_false',
    Bool.or_eq_false_iff, ne_eq, decide_not, Path.spell_append_singleton_eq_iff plain,
    List.any_eq_true, decide_eq_true_iff]
  constructor
  · rintro ((⟨e, listed, same⟩ | holds) | ⟨⟨⟨inPart, dependency⟩, rfl⟩, other⟩)
    · split at listed
      · rename_i main
        exact .excluded main listed same
      · cases listed
    · exact .package holds
    · exact .passed inPart dependency fun listed => by simp [listed] at other
  · intro left
    generalize whole : folders ++ [name] = way at left ⊢
    cases left with
    | excluded main listed same => exact .inl (.inl ⟨_, by rwa [if_pos main], same⟩)
    | package holds => exact .inl (.inr holds)
    | passed inPart dependency other =>
        obtain ⟨rfl, alike⟩ := List.append_inj' (whole.trans (List.nil_append _).symm) rfl
        cases alike
        exact .inr ⟨⟨⟨inPart, dependency⟩, rfl⟩, by simpa using other⟩

/-- A scan goes along names that it does not skip unless it leaves a folder on the way out. -/
theorem admits_iff {entries : List (String × Item)} {modified : Nat}
    (there : disk.item m.source = .ok (.folder entries modified)) {names : List String}
    (seen : ∀ name ∈ names, Scan.IsSeen name) :
    Scan.Admits (m.scope settings full) [] entries names ↔
      ¬ m.LeavesOutPath disk settings full (Path.spell names) := by
  have plain : ∀ name ∈ names, Path.IsPlain name := fun name listed => (seen name listed).toIsPlain
  constructor
  · rintro admits ⟨way, rest, some, more, alsoPlain, path, left⟩
    obtain rfl := Path.spell_injective plain alsoPlain path
    obtain ⟨folders, name, rfl⟩ := List.eq_nil_or_concat way |>.resolve_left some
    rw [List.concat_eq_append] at *
    have enters := admits.enters folders name rest (by simp) more
    rw [← enters_eq_false_iff there fun other listed => plain other (List.mem_append_left _ listed)]
      at left
    exact Bool.false_ne_true (left.symm.trans enters)
  · intro goes
    refine ⟨fun name listed => (seen name listed).notSkipped, fun folders name rest split more => ?_⟩
    rw [List.nil_append, ← Bool.not_eq_false]
    rw [← List.singleton_append, ← List.append_assoc] at split
    intro stops
    rw [enters_eq_false_iff there fun other listed =>
      plain other (split ▸ List.mem_append_left _ listed)] at stops
    exact goes ⟨folders ++ [name], rest, by simp, more, split ▸ plain, by rw [split], stops⟩

/-- A file that a scan would look at is in a module unless it is below a folder that is left out. -/
theorem IsCurrent.exists_entry_iff (h : m.IsCurrent disk settings full) (proper : disk.IsProper)
    {names : List String} (seen : ∀ name ∈ names, Scan.IsSeen name) :
    (∃ category entry, (category, entry) ∈ m.entries ∧ entry.path = Path.spell names) ↔
      disk.isFile (m.source.join (Path.spell names)) = true ∧
        ¬ m.LeavesOutPath disk settings full (Path.spell names) := by
  obtain ⟨entries, modified, there, ordered, plain⟩ := h.exists_entries proper
  have plainNames : ∀ name ∈ names, Path.IsPlain name := fun name listed =>
    (seen name listed).toIsPlain
  have held : disk.isFile (m.source.join (Path.spell names)) = (Disk.fileIn? entries names).isSome := by
    cases names with
    | nil =>
        have alike : m.source.components = (m.source.join (Path.spell [])).components := by
          rw [Path.components_join_spell m.source plainNames, List.map_nil, List.append_nil]
        rw [Disk.isFile, Disk.item_spelled alike there]
        rfl
    | cons first rest => exact Disk.isFile_join_spell there plainNames (List.cons_ne_nil _ _)
  rw [h.mem_entries_iff there ordered plain, held, ← admits_iff there seen]
  constructor
  · rintro ⟨others, path, found, admits⟩
    obtain rfl := Path.spell_injective plainNames (Disk.isPlain_of_fileIn? plain found) path
    exact ⟨found, admits⟩
  · rintro ⟨found, admits⟩
    exact ⟨names, rfl, found, admits⟩

theorem listed?_eq_none_iff {path : String} : m.listed? path = none ↔
    ∀ category entry, (category, entry) ∈ m.entries → category.isTracked → entry.path ≠ path := by
  rw [listed?, List.getLast?_eq_none_iff, List.filter_eq_nil_iff]
  constructor
  · intro none category entry listed tracked same
    exact none _ listed (by simp [tracked, same])
  · rintro none ⟨category, entry⟩ listed kept
    obtain ⟨tracked, same⟩ : category.isTracked = true ∧ entry.path = path := by simpa using kept
    exact none category entry listed tracked same

namespace IsScanned

variable {category kind : Category} {entry file : FileEntry}

theorem exists_seen (h : m.IsScanned) (listed : (category, entry) ∈ m.entries) :
    ∃ names, entry.path = Path.spell names ∧ ∀ name ∈ names, Scan.IsSeen name := by
  rcases h.below with below | alone
  · obtain ⟨names, _, path, seen⟩ := below category entry listed
    exact ⟨names, path, seen⟩
  · exact ⟨[], alone category entry listed, by simp⟩

/-- A path says where a file belongs and where its output goes. -/
theorem eq_of_path (h : m.IsScanned) (listed : (category, entry) ∈ m.entries)
    (listedToo : (kind, file) ∈ m.entries) (same : entry.path = file.path) :
    category = kind ∧ entry.outputPath = file.outputPath := by
  obtain ⟨here, kindHere⟩ := h.filed category entry listed
  obtain ⟨there, kindThere⟩ := h.filed kind file listedToo
  rw [same] at here
  obtain rfl := Option.some.inj (here.symm.trans there)
  exact ⟨rfl, by rw [FileEntry.outputPath, FileEntry.outputPath, kindHere, kindThere, same]⟩

theorem exists_listed? (h : m.IsScanned) (listed : (category, entry) ∈ m.entries)
    (tracked : category.isTracked) : ∃ found, m.listed? entry.path = some (category, found) ∧
      found.outputPath = entry.outputPath := by
  cases found : m.listed? entry.path with
  | none => exact absurd rfl (listed?_eq_none_iff.mp found category entry listed tracked)
  | some pair =>
      obtain ⟨member, _, path⟩ := mem_of_listed? found
      obtain ⟨rfl, output⟩ := h.eq_of_path listed member path.symm
      exact ⟨pair.2, rfl, output.symm⟩

end IsScanned

/-- A module does not track a path just when no file is there to which its scan goes. -/
theorem IsCurrent.listed?_eq_none_iff (h : m.IsCurrent disk settings full) (proper : disk.IsProper)
    {names : List String} (seen : ∀ name ∈ names, Scan.IsSeen name) {category : Category} (tracked : category.isTracked)
    (filed : (classify (Path.spell names)).map Prod.fst = some category) :
    m.listed? (Path.spell names) = none ↔
      (disk.isFile (m.source.join (Path.spell names)) = true →
        m.LeavesOutPath disk settings full (Path.spell names)) := by
  rw [Module.listed?_eq_none_iff, ← not_iff_not, Classical.not_imp, ← h.exists_entry_iff proper seen]
  push Not
  constructor
  · rintro ⟨kind, entry, listed, _, path⟩
    exact ⟨kind, entry, listed, path⟩
  · rintro ⟨kind, entry, listed, path⟩
    obtain ⟨there, _⟩ := h.filed kind entry listed
    rw [path] at there
    obtain rfl := Option.some.inj (filed.symm.trans there)
    exact ⟨category, entry, listed, tracked, path⟩

end Module

namespace Builder

variable {σ : Type} {b : Builder σ} {disk : Disk} {session : Session} {now : Nat} {plan : BuildPlan}
  {old : Manifest} {name path : String} {m o : Module} {category : Category}

theorem previous_planFor (b : Builder σ) (disk : Disk) (manifest : Manifest) :
    (b.planFor disk manifest).previous =
      Manifest.loadPrevious? disk b.settings.manifestPath := rfl

/-- A file of the build before is reported as gone just when its output is there and it is gone or,
though it is there, below a folder that the scan of its module leaves out. -/
theorem reports_removed_iff (proper : disk.IsProper) (isOf : session.IsOf disk)
    (planned : (b.plan disk session now).2 = .ok plan) (previous : plan.previous = some old)
    (taken : old.IsTaken) (named : plan.manifest.module? name = some m)
    (namedBefore : old.module? name = some o) :
    plan.delta.Reports name ⟨path, category, .removed⟩ ↔
      (∃ entry, (category, entry) ∈ o.entries ∧ category.isTracked ∧ entry.path = path ∧
        (disk.modified? ((moduleOutput b.settings.outputRoot name).join entry.outputPath)).isSome) ∧
      (disk.isFile (m.source.join path) = true → m.LeavesOutPath disk b.settings b.full path) := by
  obtain ⟨graph, manifest, found, snapshot, rfl⟩ := plan_eq_ok_iff.mp planned
  have housed := Workspace.isHoused_resolve (mapError_eq_ok.mp found)
  have current : manifest.IsCurrent disk b.settings b.full :=
    Snapshot.isCurrent_manifest proper housed isOf snapshot
  have loaded : Manifest.loadPrevious? disk b.settings.manifestPath = some old := previous
  have ascending : IsAscending (Delta.modulesOf (b.planFor disk manifest).previous).keys := by
    rw [previous]
    exact Manifest.isAscending_of_loadPrevious? loaded
  have delta : (b.planFor disk manifest).delta = .between disk b.settings.outputRoot manifest
    (b.planFor disk manifest).previous := rfl
  rw [delta, Delta.reports_iff current.ascending ascending, Delta.mem_eventsOf_of_removed rfl, previous]
  have mine : manifest.module? name = some m := named
  obtain ⟨_, standing⟩ := current.modules name m mine
  have scanned := (taken.modules.2 name o namedBefore).2
  have untracked {entry : FileEntry} (listed : (category, entry) ∈ o.entries)
      (tracked : category.isTracked) : m.listed? entry.path = none ↔
        (disk.isFile (m.source.join entry.path) = true →
          m.LeavesOutPath disk b.settings b.full entry.path) := by
    obtain ⟨names, spelled, seen⟩ := scanned.exists_seen listed
    have filed := (scanned.filed category entry listed).1
    rw [spelled] at filed ⊢
    exact standing.listed?_eq_none_iff proper seen tracked filed
  simp only [mine, namedBefore, Option.bind_some]
  constructor
  · rintro ⟨gone, entry, listed, present⟩
    obtain ⟨member, tracked, rfl⟩ := Module.mem_of_listed? listed
    exact ⟨⟨entry, member, tracked, rfl, present⟩, (untracked member tracked).mp gone⟩
  · rintro ⟨⟨entry, member, tracked, rfl, present⟩, left⟩
    obtain ⟨found, listed, output⟩ := scanned.exists_listed? member tracked
    refine ⟨(untracked member tracked).mpr left, found, listed, ?_⟩
    rw [Delta.outputTime?, output]
    exact present

/-! A partial scan behind a full one, of the workspace with a module that is installed. -/

section Passed

open ManifestIndex

def partialBuilder : Builder Unit where
  settings := nestedSettings
  full := false
  host := none
  catalog := []
  levels := 0
  system := .sound

set_option maxRecDepth 4000

theorem previous_nested (manifest : Manifest) :
    (partialBuilder.planFor nestedDisk manifest).previous = some (nestedManifest true) := by
  have listed : ∀ pair ∈ (nestedManifest true).modules,
      pair.2.IsOrderly ∧ filesFit pair.2.files := by
    unfold filesFit
    intro pair listed
    obtain ⟨rfl⟩ | ⟨rfl⟩ : pair = _ ∨ pair = _ := by simpa [nestedManifest] using listed
    · exact ⟨⟨by decide, by decide, by decide⟩, by decide⟩
    · exact ⟨⟨by decide, by decide, by decide⟩, by decide⟩
  have orderly : (nestedManifest true).IsOrderly := ⟨by decide, fun pair member => (listed pair member).1⟩
  have fits : (nestedManifest true).FitsWords := ⟨by decide, fun pair member => (listed pair member).2⟩
  have kept : nestedDisk.item ⟨"/m"⟩ = .ok (.file (.text (nestedManifest true).text) 5) := by
    have placed : nestedDisk.place ⟨"/m"⟩ = .ok ["m"] := eq_ok_of_toOption (by decide)
    simp only [Disk.item, placed, bind, Except.bind]
    rfl
  rw [previous_planFor]
  exact (Manifest.load_of_text (Manifest.ofText_text_of_isOrderly rfl fits orderly) kept).2

theorem plan_nested :
    (partialBuilder.plan nestedDisk .empty 9).2 =
      .ok (partialBuilder.planFor nestedDisk (nestedManifest false)) := by
  have found : partialBuilder.graph nestedDisk = .ok (nestedGraph nestedShipped) :=
    mapError_eq_ok.mpr resolve_nested
  exact plan_eq_ok_iff.mpr ⟨_, _, found, take_nested false, rfl⟩

/-- The test of the installed module is there, and reported as gone. -/
theorem reports_removed_nested :
    let plan := partialBuilder.planFor nestedDisk (nestedManifest false)
    nestedDisk.IsProper ∧ Session.empty.IsOf nestedDisk ∧
      (partialBuilder.plan nestedDisk .empty 9).2 = .ok plan ∧
        plan.previous = some (nestedManifest true) ∧ (nestedManifest true).IsTaken ∧
          plan.manifest.module? "x" = some (nestedInstalled false) ∧
            (nestedManifest true).module? "x" = some (nestedInstalled true) ∧
              plan.delta.Reports "x" ⟨"test/a.test.js", .test, .removed⟩ ∧
                nestedDisk.isFile ((nestedInstalled false).source.join "test/a.test.js") = true := by
  intro plan
  have proper : nestedDisk.IsProper := by decide +kernel
  have isOf := Session.isOf_empty nestedDisk
  have taken : (nestedManifest true).IsTaken :=
    ⟨_, _, _, _, _, _, proper, .empty, take_nested true⟩
  have previous : plan.previous = some (nestedManifest true) := previous_nested _
  have named : plan.manifest.module? "x" = some (nestedInstalled false) := rfl
  have before : (nestedManifest true).module? "x" = some (nestedInstalled true) := rfl
  let entry : FileEntry := ⟨"test/a.test.js", .compiled, 5, some .test, []⟩
  have listed : (Category.test, entry) ∈ (nestedInstalled true).entries := by decide
  have present : (nestedDisk.modified?
      ((moduleOutput partialBuilder.settings.outputRoot "x").join entry.outputPath)).isSome := by
    decide +kernel
  have plain : ∀ name ∈ ["test", "a.test.js"], Path.IsPlain name := by decide +kernel
  have left : (nestedInstalled false).LeavesOutPath nestedDisk nestedSettings false entry.path :=
    ⟨["test"], ["a.test.js"], by simp, by simp, plain, by decide, .passed rfl rfl (by decide)⟩
  have reported := (reports_removed_iff proper isOf plan_nested previous taken named before).mpr
    ⟨⟨entry, listed, rfl, rfl, present⟩, fun _ => left⟩
  exact ⟨proper, isOf, plan_nested, previous, taken, named, before, reported, by decide +kernel⟩

end Passed

end Builder

end WorkspaceBuild
