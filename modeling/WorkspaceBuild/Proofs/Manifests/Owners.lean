import WorkspaceBuild.Proofs.Manifests.Current

/-! # Owners of files

Folders of modules lie in each other, but a scan does not go into a folder that holds a package. So
every source belongs to one module, whose folder is the nearest above it.
-/

namespace WorkspaceBuild

namespace Module

variable {m other : Module} {disk : Disk} {settings : Settings} {full : Bool}

/-- The files of a module lie below its folder, and no other module's folder is between. -/
theorem IsCurrent.place (h : m.IsCurrent disk settings full) (proper : disk.IsProper)
    {category : Category} {entry : FileEntry} (listed : (category, entry) ∈ m.entries) :
    ∃ names : List String, names ≠ [] ∧
      (m.sourcePath entry).components = m.source.components ++ names.map Path.Component.name ∧
      entry.path = Path.spell names ∧ (∀ name ∈ names, Path.IsPlain name) ∧
      ∀ other : Module, other.IsCurrent disk settings full → ∀ way, way ≠ [] → way <+: names →
        other.source.components ≠ m.source.components ++ way.map Path.Component.name := by
  obtain ⟨entries, modified, there, ordered, plain⟩ := h.exists_entries proper
  obtain ⟨names, path, found, admits⟩ :=
    (h.mem_entries_iff there ordered plain).mp ⟨category, entry, listed, rfl⟩
  have plainNames := Disk.isPlain_of_fileIn? plain found
  have folder := Disk.isFolder_of_item there
  refine ⟨names, ?_, ?_, path, plainNames, fun other current way some start below => ?_⟩
  · rintro rfl
    cases found
  · rw [sourcePath, path, Path.components_join_spell m.source plainNames]
  · -- such a module would have a descriptor in a folder that the scan goes through
    obtain ⟨descriptor, loaded, _⟩ := current.packaged
    have package := (Descriptor.isFolder_of_load loaded).2
    obtain ⟨held, time, thereToo, _⟩ :=
      Disk.exists_entries_of_isFolder (Descriptor.isFolder_of_load loaded).1
    have plainDescriptor : ∀ name ∈ [descriptorFile], Path.IsPlain name := by
      simpa using Descriptor.isPlain_descriptorFile
    have target := Path.target_of_below (Disk.isFolder_iff.mp folder).1 below
    rw [← Path.spell_singleton descriptorFile, Disk.isFile_join_spell thereToo plainDescriptor (by simp),
      ← Disk.fileAt?_append (Disk.item_eq_ok_iff.mp thereToo).2 (by simp), target, List.append_assoc,
      Disk.fileAt?_append (Disk.item_eq_ok_iff.mp there).2 (by simp),
      admits.noPackage found some start] at package
    cases package

theorem IsCurrent.rooted (h : m.IsCurrent disk settings full) : .root ∈ m.source.components := by
  obtain ⟨descriptor, loaded, _⟩ := h.packaged
  exact Path.root_mem_components_iff.mpr
    (Disk.isFolder_iff.mp (Descriptor.isFolder_of_load loaded).1).1

theorem IsCurrent.isAbsolute_sourcePath (h : m.IsCurrent disk settings full) (proper : disk.IsProper)
    {category : Category} {entry : FileEntry} (listed : (category, entry) ∈ m.entries) :
    (m.sourcePath entry).isAbsolute = true := by
  obtain ⟨names, _, place, _⟩ := h.place proper listed
  rw [← Path.root_mem_components_iff, place]
  exact List.mem_append_left _ h.rooted

/-- Packages in one folder bear one name. -/
theorem IsCurrent.name_eq (h : m.IsCurrent disk settings full)
    (hOther : other.IsCurrent disk settings full)
    (same : m.source.components = other.source.components) : m.name = other.name := by
  obtain ⟨descriptor, loaded, name⟩ := h.packaged
  obtain ⟨descriptorToo, loadedToo, nameToo⟩ := hOther.packaged
  obtain ⟨again, spelled⟩ := Descriptor.load_spelled same loaded
  cases again.symm.trans loadedToo
  rw [← name, ← nameToo, spelled]

/-- Modules with a source in common are in one folder. -/
theorem IsCurrent.source_eq (h : m.IsCurrent disk settings full)
    (hOther : other.IsCurrent disk settings full) (proper : disk.IsProper) {category kind : Category}
    {entry file : FileEntry} (listed : (category, entry) ∈ m.entries)
    (listedToo : (kind, file) ∈ other.entries)
    (same : (m.sourcePath entry).components = (other.sourcePath file).components) :
    m.source.components = other.source.components ∧ entry.path = file.path := by
  obtain ⟨names, _, place, path, _, between⟩ := h.place proper listed
  obtain ⟨others, _, placeToo, pathToo, _, betweenToo⟩ := hOther.place proper listedToo
  rw [place, placeToo, List.append_eq_append_iff] at same
  have noWay {first second : Module} {way : List Path.Component} {mine theirs : List String}
      (below : second.source.components = first.source.components ++ way)
      (split : mine.map Path.Component.name = way ++ theirs.map Path.Component.name)
      (between : ∀ way, way ≠ [] → way <+: mine →
        second.source.components ≠ first.source.components ++ way.map Path.Component.name) :
      way = [] := by
    obtain ⟨start, rest, rfl, rfl, _⟩ := List.map_eq_append_iff.mp split
    by_contra some
    exact between start (by simpa using some) (List.prefix_append _ _) below
  rcases same with ⟨way, below, split⟩ | ⟨way, below, split⟩
  · obtain rfl := noWay below split fun way => between other hOther way
    rw [List.append_nil] at below
    rw [List.nil_append] at split
    exact ⟨below.symm, by rw [path, pathToo, Path.map_name_injective split]⟩
  · obtain rfl := noWay below split fun way => betweenToo m h way
    rw [List.append_nil] at below
    rw [List.nil_append] at split
    exact ⟨below, by rw [path, pathToo, Path.map_name_injective split]⟩

end Module

namespace Manifest.IsCurrent

variable {manifest : Manifest} {disk : Disk} {settings : Settings} {full : Bool} {name : String}
  {m : Module}

/-- In one folder there is one module. -/
theorem eq_of_source (h : manifest.IsCurrent disk settings full)
    (named : manifest.module? name = some m) {key : String} {other : Module}
    (namedToo : manifest.module? key = some other)
    (same : m.source.components = other.source.components) : m = other := by
  obtain ⟨rfl, current⟩ := h.modules name m named
  obtain ⟨rfl, currentToo⟩ := h.modules key other namedToo
  rw [current.name_eq currentToo same] at named
  exact Option.some.inj (named.symm.trans namedToo)

theorem module?_of_mem (h : manifest.IsCurrent disk settings full)
    (listed : m ∈ manifest.modules.values) : manifest.module? m.name = some m := by
  obtain ⟨pair, member, rfl⟩ := List.mem_map.mp listed
  have named : manifest.module? pair.1 = some pair.2 := Assoc.get?_of_mem h.ascending.nodup member
  rw [(h.modules pair.1 pair.2 named).1]
  exact named

theorem mem_values (named : manifest.module? name = some m) : m ∈ manifest.modules.values :=
  List.mem_map.mpr ⟨(name, m), Assoc.mem_of_get? named, rfl⟩

theorem distinct (h : manifest.IsCurrent disk settings full) :
    manifest.modules.values.Pairwise fun m other => m.name ≠ other.name := by
  have keys : manifest.modules.Pairwise fun first second => first.1 ≠ second.1 :=
    List.pairwise_map.mp h.ascending.nodup
  refine List.pairwise_map.mpr (List.Pairwise.imp_of_mem ?_ keys)
  intro first second listed listedToo different
  have named {pair : String × Module} (listed : pair ∈ manifest.modules) : pair.2.name = pair.1 :=
    (h.modules pair.1 pair.2 (Assoc.get?_of_mem h.ascending.nodup listed)).1
  rw [named listed, named listedToo]
  exact different

/-- Each source is listed once. -/
theorem nodup_sources (h : manifest.IsCurrent disk settings full) (proper : disk.IsProper) :
    (manifest.indexedFiles.map fun file => file.source.components).Nodup := by
  rw [Manifest.indexedFiles, List.map_flatMap, List.nodup_flatMap]
  have current {m : Module} (listed : m ∈ manifest.modules.values) :=
    (h.modules m.name m (h.module?_of_mem listed)).2
  constructor
  · -- in one module paths differ, and so do sources
    intro m listed
    rw [List.map_map]
    refine List.Nodup.map_on ?_ (List.Nodup.of_map _ (current listed).once)
    rintro ⟨category, entry⟩ here ⟨kind, file⟩ there same
    have path := ((current listed).source_eq (current listed) proper here there same).2
    exact List.inj_on_of_nodup_map (current listed).once here there path
  · refine List.Pairwise.imp_of_mem ?_ h.distinct
    intro m other listed listedToo different
    refine List.disjoint_left.mpr fun place here there => ?_
    simp only [List.map_map] at here there
    obtain ⟨⟨category, entry⟩, member, rfl⟩ := List.mem_map.mp here
    obtain ⟨⟨kind, file⟩, memberToo, same⟩ := List.mem_map.mp there
    have folder := ((current listed).source_eq (current listedToo) proper member memberToo same.symm).1
    exact different ((current listed).name_eq (current listedToo) folder)

end Manifest.IsCurrent

theorem getLast?_filter_of_only {α : Type} {xs : List α} {p : α → Bool} {x : α} (listed : x ∈ xs)
    (holds : p x = true) (only : ∀ y ∈ xs, p y = true → y = x) : (xs.filter p).getLast? = some x := by
  have member : x ∈ xs.filter p := List.mem_filter.mpr ⟨listed, holds⟩
  obtain ⟨last, isLast⟩ := Option.isSome_iff_exists.mp
    (List.getLast?_isSome.mpr (List.ne_nil_of_mem member))
  obtain ⟨listedToo, holdsToo⟩ := List.mem_filter.mp (List.mem_of_getLast? isLast)
  rw [isLast, only last listedToo holdsToo]

namespace ManifestIndex

/-- Every source belongs to one module, which lists it once, and look-ups by source and by folder
lead there. -/
structure IsOwned (index : ManifestIndex) : Prop where
  absolute : ∀ file ∈ index.files, file.source.isAbsolute = true
  once : (index.files.map fun file => file.source.components).Nodup
  found : ∀ file ∈ index.files, index.bySource? file.source = some file
  owned : ∀ file ∈ index.files, ∃ m, index.moduleForFolder? file.source = some m ∧
    index.manifest.module? file.moduleName = some m ∧ (file.category, file.entry) ∈ m.entries

variable {index : ManifestIndex} {disk : Disk} {settings : Settings} {full : Bool} {name : String}
  {m : Module} {folder : Path}

/-- The owner of a folder of a module is that module. -/
theorem ownerOf?_eq_some (h : index.manifest.IsCurrent disk settings full)
    (named : index.manifest.module? name = some m)
    (same : folder.components = m.source.components) : index.ownerOf? folder = some m.name := by
  rw [ownerOf?, getLast?_filter_of_only (Manifest.IsCurrent.mem_values named)
    (decide_eq_true same.symm), Option.map_some]
  intro other listed there
  have alike : m.source.components = other.source.components :=
    same.symm.trans (of_decide_eq_true there).symm
  exact (h.eq_of_source named (h.module?_of_mem listed) alike).symm

theorem ownerOf?_eq_none (h : index.manifest.IsCurrent disk settings full)
    (apart : ∀ other : Module, other.IsCurrent disk settings full →
      other.source.components ≠ folder.components) : index.ownerOf? folder = none := by
  rw [ownerOf?, List.filter_eq_nil_iff.mpr, List.getLast?_nil, Option.map_none]
  intro other listed same
  exact apart other (h.modules _ other (h.module?_of_mem listed)).2 (of_decide_eq_true same)

/-- The module of a folder above a file is the one that lists it. -/
theorem moduleForFolder?_source (h : index.manifest.IsCurrent disk settings full)
    (proper : disk.IsProper) (named : index.manifest.module? name = some m) {category : Category}
    {entry : FileEntry} (listed : (category, entry) ∈ m.entries) :
    index.moduleForFolder? (m.sourcePath entry) = some m := by
  obtain ⟨rfl, current⟩ := h.modules name m named
  obtain ⟨names, _, place, _, _, between⟩ := current.place proper listed
  obtain ⟨nearer, above, further, ancestors, isAbove, way⟩ := Path.exists_ancestors
    (current.isAbsolute_sourcePath proper listed) place current.rooted
  have unowned : nearer.findSome? index.ownerOf? = none := by
    refine List.findSome?_eq_none_iff.mpr fun folder near => ownerOf?_eq_none h ?_
    obtain ⟨names, some, start, whole⟩ := way folder near
    rw [whole]
    exact fun other current => between other current names some start
  rw [moduleForFolder?, ancestors, List.findSome?_append, unowned, Option.none_or,
    List.findSome?_cons, ownerOf?_eq_some h named isAbove]
  exact named

/-- Of a snapshot of the modules that a workspace has on a disk, every file is owned. -/
theorem isOwned_of_take (path : Path) {root : Path} {graph : ModuleGraph} {session : Session}
    {now : Nat} {manifest : Manifest} (proper : disk.IsProper)
    (resolved : Workspace.resolve disk root = .ok graph) (isOf : session.IsOf disk)
    (taken : (Snapshot.take disk settings full now graph session).2 = .ok manifest) :
    (ofManifest path manifest).IsOwned := by
  have current : manifest.IsCurrent disk settings full :=
    Snapshot.isCurrent_manifest proper (Workspace.isHoused_resolve resolved) isOf taken
  have once := current.nodup_sources proper
  have indexed {file : IndexedFile} (listed : file ∈ manifest.indexedFiles) :=
    (Manifest.mem_indexedFiles current.ascending).mp listed
  refine ⟨fun file listed => ?_, once, fun file listed => ?_, fun file listed => ?_⟩
  · obtain ⟨name, m, category, entry, named, member, rfl⟩ := indexed listed
    exact (current.modules name m named).2.isAbsolute_sourcePath proper member
  · refine getLast?_filter_of_only listed (decide_eq_true rfl) fun other member same => ?_
    exact List.inj_on_of_nodup_map once member listed (of_decide_eq_true same)
  · obtain ⟨name, m, category, entry, named, member, rfl⟩ := indexed listed
    have own : manifest.module? m.name = some m := (current.modules name m named).1 ▸ named
    have led : (ofManifest path manifest).moduleForFolder? (m.sourcePath entry) = some m :=
      moduleForFolder?_source current proper named member
    exact ⟨m, led, own, member⟩

/-! A module that is installed below another one's folder. -/

section Nested

def nestedSettings : Settings where
  workspaceRoot := ⟨"/w"⟩
  toolFolder := ⟨"/w/.t"⟩
  outputRoot := ⟨"/o"⟩
  compilerOutput := ⟨"/c"⟩
  typesOutput := ⟨"/t"⟩
  manifestPath := ⟨"/m"⟩
  profiles := []
  excluded := []
  compilerUrl := none

def nestedModule (name : String) (source : Path) (main : Bool) (parents : List String)
    (files : Assoc Category (List FileEntry)) : Module where
  name
  version := "0.0.0"
  source
  output := ⟨"/o/node_modules/" ++ name⟩
  main
  workspace := main
  internal := false
  prod := true
  roles := [.standard]
  parents
  profiles := []
  files

def nestedPackage : Category × List FileEntry :=
  (.package, [⟨"package.json", .package, 5, none, []⟩])

/-- The installed module by a scan that is full or not. -/
def nestedInstalled (full : Bool) : Module :=
  let tests : Category × List FileEntry :=
    (.test, [⟨"test/a.test.js", .compiled, 5, some .test, []⟩])
  nestedModule "x" ⟨"/w/node_modules/x"⟩ false ["w"]
    (nestedPackage :: if full then [tests] else [])

def nestedManifest (full : Bool) : Manifest where
  version := 1
  workspace := ⟨⟨"/w"⟩, "w", false, .npm⟩
  paths := ⟨⟨"/c"⟩, ⟨"/o"⟩, ⟨".t"⟩, ⟨"/t"⟩, none⟩
  main := ⟨"w", "0.0.0", ⟨"/w"⟩⟩
  generated := 9
  modules :=
    [("w", nestedModule "w" ⟨"/w"⟩ true [] [nestedPackage]), ("x", nestedInstalled full)]

/-- The workspace after a build with a full scan. -/
def nestedDisk : Disk :=
  let file (name text : String) : String × Item := (name, .file (.text text) 5)
  let folder (name : String) (entries : List (String × Item)) : String × Item :=
    (name, .folder entries 5)
  let tests : String × Item := folder "test" [file "a.test.js" ""]
  ⟨[file "m" (nestedManifest true).text,
    folder "o" [folder "node_modules" [folder "x" [tests]]],
    folder "w"
      [folder "node_modules" [folder "x" [file "package.json" "\x7b\"loom\":\x7b\x7d\x7d", tests]],
        file "package.json" "\x7b\"dependencies\":\x7b\"x\":\"*\"\x7d\x7d"]]⟩

def nestedWorkspace : Workspace := ⟨⟨"/w"⟩, { dependencies := [("x", "*")] }, ⟨[]⟩⟩

def nestedInner : GraphNode where
  name := "x"
  dir := ⟨"/w/node_modules/x"⟩
  roles := [.standard]
  parents := ["w"]

def nestedGraph (inner : GraphNode) : ModuleGraph where
  root := "w"
  nodes :=
    [("w", { name := "w", dir := ⟨"/w"⟩, main := true, workspace := true, prod := inner.prod,
             roles := [.standard], roleRoot := true, dependencies := [⟨"x", .production⟩] }),
      ("x", inner)]
  order := ["w", "x"]

set_option maxRecDepth 4000

def nestedVisit : Visit := ⟨⟨"/w/node_modules/x"⟩, "w", .production, [.standard]⟩

theorem walk_nested : nestedWorkspace.walk nestedDisk = .ok (nestedGraph nestedInner) := by
  have loaded : Descriptor.load nestedDisk nestedVisit.folder = .ok { framework := some {} } :=
    eq_ok_of_toOption (by decide +kernel)
  have expanded : nestedWorkspace.expand nestedDisk (nestedWorkspace.start nestedDisk).graph
      nestedVisit { framework := some {} } = .ok (nestedGraph nestedInner, []) :=
    eq_ok_of_toOption (by decide +kernel)
  have walked : nestedWorkspace.walkOn nestedDisk (17 + 1) (nestedWorkspace.start nestedDisk).graph []
      [nestedVisit] = .ok ⟨nestedGraph nestedInner, [], []⟩ := by
    refine (Workspace.walkOn_of_expand loaded (by decide +kernel) rfl (by decide +kernel)
      expanded).trans ?_
    rw [List.append_nil, Workspace.walkOn.eq_def]
  have most : Workspace.mostModules nestedDisk = 17 + 1 := by decide +kernel
  have pending : (nestedWorkspace.start nestedDisk).pending = [nestedVisit] := by decide +kernel
  unfold Workspace.walk
  simp only [most, pending]
  exact congrArg (Except.map Walk.graph) walked

def nestedShipped : GraphNode := { nestedInner with prod := true }

theorem resolve_nested : Workspace.resolve nestedDisk ⟨"/w"⟩ = .ok (nestedGraph nestedShipped) := by
  have loaded : Workspace.load nestedDisk ⟨"/w"⟩ = .ok nestedWorkspace :=
    eq_ok_of_toOption (by decide +kernel)
  have completes : (nestedGraph nestedInner).complete = (.ok (), nestedGraph nestedShipped) :=
    Prod.ext (eq_ok_of_toOption (by decide +kernel)) (by decide +kernel)
  rw [Workspace.resolve, loaded]
  simp only [bind, Except.bind, walk_nested, completes]
  rfl

theorem take_nested (full : Bool) :
    (Snapshot.take nestedDisk nestedSettings full 9 (nestedGraph nestedShipped) .empty).2 =
      .ok (nestedManifest full) := by
  cases full <;> exact eq_ok_of_toOption (by decide +kernel)

end Nested

theorem isOwned_of_take_nested : nestedDisk.IsProper ∧
    Workspace.resolve nestedDisk ⟨"/w"⟩ = .ok (nestedGraph nestedShipped) ∧
      Session.empty.IsOf nestedDisk ∧
        (Snapshot.take nestedDisk nestedSettings true 9 (nestedGraph nestedShipped) .empty).2 =
          .ok (nestedManifest true) ∧
        (ofManifest ⟨"/m"⟩ (nestedManifest true)).IsOwned := by
  have proper : nestedDisk.IsProper := by decide +kernel
  have isOf := Session.isOf_empty nestedDisk
  have taken := take_nested true
  exact ⟨proper, resolve_nested, isOf, taken, isOwned_of_take _ proper resolve_nested isOf taken⟩

end ManifestIndex

end WorkspaceBuild
