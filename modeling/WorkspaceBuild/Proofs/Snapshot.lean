import WorkspaceBuild.ManifestFile
import WorkspaceBuild.Snapshot
import WorkspaceBuild.Proofs.Assoc
import WorkspaceBuild.Proofs.Results

/-! # The manifests of a build

What holds of the manifest that a snapshot takes, and of one that is read back. The kind of a file
and the folder of its output are functions of what the delta works with, so that what is produced
and what is deleted can be told from events alone.
-/

namespace WorkspaceBuild

theorem exists_of_forall₂_right {α β : Type} {R : α → β → Prop} {xs : List α} {ys : List β}
    (all : List.Forall₂ R xs ys) : ∀ y ∈ ys, ∃ x ∈ xs, R x y := by
  induction all with
  | nil => simp
  | cons here _ ih =>
      rw [List.forall_mem_cons]
      refine ⟨⟨_, List.mem_cons_self, here⟩, fun y listed => ?_⟩
      obtain ⟨x, member, related⟩ := ih y listed
      exact ⟨x, List.mem_cons_of_mem _ member, related⟩

/-- The kind of a scanned file is that of its path. -/
def ScannedFile.IsClassified (file : ScannedFile) : Prop :=
  file.kind = fileKind file.path file.category

theorem Scan.isClassified_of_run {disk : Disk} {moduleName : String} {scope : Scope}
    {files : List ScannedFile} (found : run disk moduleName scope = .ok files) :
    ∀ file ∈ files, file.IsClassified := by
  rw [run] at found
  split at found
  · cases found
  · refine forall_of_mapM (fun entry _ file said => ?_) found
    simp only [classified] at said
    split at said
    · cases said
      rfl
    · cases said

namespace Session

/-- A session that was made by scanning. -/
inductive Made : Session → Prop where
  | empty : Made .empty
  | scan {session : Session} (made : Made session) (disk : Disk) (moduleName : String)
      (scope : Scan.Scope) : Made (session.scan disk moduleName scope).1

theorem scan_cases (session : Session) (disk : Disk) (moduleName : String) (scope : Scan.Scope) :
    (∃ files, (scope.key, files) ∈ session.scans ∧
        session.scan disk moduleName scope = ({ session with hits := session.hits + 1 }, .ok files)) ∨
      (∃ files, Scan.run disk moduleName scope = .ok files ∧
        session.scan disk moduleName scope =
          ({ session with scans := (scope.key, files) :: session.scans }, .ok files)) ∨
      ∃ e, session.scan disk moduleName scope = (session, .error e) := by
  rw [scan]
  split
  · rename_i files kept
    obtain ⟨before, after, split, _⟩ := List.lookup_eq_some_iff.mp kept
    exact .inl ⟨files, by simp [split], rfl⟩
  · split
    · rename_i files found
      exact .inr (.inl ⟨files, found, rfl⟩)
    · rename_i e _
      exact .inr (.inr ⟨e, rfl⟩)

/-- All lists of files that a session keeps are of a sort. -/
def Keeps (session : Session) (sort : List ScannedFile → Prop) : Prop :=
  ∀ kept ∈ session.scans, sort kept.2

/-- A session keeps lists of a sort, and answers with them, if scanning finds no others. -/
theorem Keeps.scan {session : Session} {sort : List ScannedFile → Prop} (keeps : session.Keeps sort)
    {disk : Disk} {moduleName : String} {scope : Scan.Scope}
    (finds : ∀ files, Scan.run disk moduleName scope = .ok files → sort files) :
    (session.scan disk moduleName scope).1.Keeps sort ∧
      ∀ files, (session.scan disk moduleName scope).2 = .ok files → sort files := by
  rcases session.scan_cases disk moduleName scope with
    ⟨found, kept, same⟩ | ⟨found, ran, same⟩ | ⟨e, same⟩
  · rw [same]
    refine ⟨keeps, fun files answer => ?_⟩
    cases answer
    exact keeps _ kept
  · rw [same]
    refine ⟨List.forall_mem_cons.mpr ⟨finds found ran, keeps⟩, fun files answer => ?_⟩
    cases answer
    exact finds found ran
  · rw [same]
    refine ⟨keeps, fun files answer => ?_⟩
    cases answer

/-- All files that a session keeps have the kind of their path. -/
def IsClassified (session : Session) : Prop :=
  session.Keeps fun files => ∀ file ∈ files, file.IsClassified

theorem Made.isClassified {session : Session} (made : session.Made) : session.IsClassified := by
  induction made with
  | empty =>
      intro kept member
      cases member
  | scan _ disk moduleName scope ih => exact (ih.scan fun _ => Scan.isClassified_of_run).1

end Session

instance : Std.TransOrd Category := transOrd_of_index fun a b =>
  (rfl : compare a b = compare a.ctorIdx b.ctorIdx)

instance : Std.LawfulEqOrd Category :=
  lawfulEqOrd_of_index (fun a b => (rfl : compare a b = compare a.ctorIdx b.ctorIdx)) (by
    intro a b same
    cases a <;> cases b <;> first | rfl | cases same)

namespace Snapshot

/-- The entries of a category are those of its scanned files, in their order. -/
theorem entriesOf_spec (node : GraphNode) (files : List ScannedFile) :
    IsAscending (entriesOf node files).keys ∧ ∀ category,
      ((entriesOf node files).get? category).getD [] =
        (files.filter (·.category = category)).map (entryOf node) := by
  have step (table : Assoc Category (List FileEntry)) (ascending : IsAscending table.keys) :
      IsAscending (files.foldl (fun table file =>
          Assoc.push table file.category (entryOf node file)) table).keys ∧ ∀ category,
        (Assoc.get? (files.foldl (fun table file =>
            Assoc.push table file.category (entryOf node file)) table) category).getD [] =
          (table.get? category).getD [] ++
            (files.filter (·.category = category)).map (entryOf node) := by
    induction files generalizing table with
    | nil => exact ⟨ascending, fun category => (List.append_nil _).symm⟩
    | cons file rest ih =>
        obtain ⟨kept, found⟩ := ih (table.push file.category (entryOf node file))
          (Assoc.isAscending_put ascending _ _)
        refine ⟨kept, fun category => (found category).trans ?_⟩
        rw [Assoc.push, Assoc.get?_put]
        by_cases same : category = file.category
        · simp [same]
        · simp [same, Ne.symm same]
  simpa [entriesOf] using step [] List.Pairwise.nil

theorem eq_of_mem_entriesOf {node : GraphNode} {files : List ScannedFile}
    {pair : Category × List FileEntry} (listed : pair ∈ entriesOf node files) :
    pair.2 = (files.filter (·.category = pair.1)).map (entryOf node) := by
  obtain ⟨ascending, found⟩ := entriesOf_spec node files
  rw [← found, Assoc.get?_of_mem ascending.nodup listed, Option.getD_some]

end Snapshot

namespace Module

variable {m : Module}

/-- What the manifest of a snapshot says of a module. -/
structure IsSound (m : Module) (outputRoot : Path) : Prop where
  output : m.output = moduleOutput outputRoot m.name
  ascending : IsAscending m.files.keys
  kinds : ∀ category entry, (category, entry) ∈ m.entries →
    entry.kind = fileKind entry.path category

theorem mem_entries (ascending : IsAscending m.files.keys) {category : Category}
    {entry : FileEntry} :
    (category, entry) ∈ m.entries ↔ entry ∈ (m.files.get? category).getD [] := by
  rw [entries, List.mem_flatMap]
  constructor
  · rintro ⟨⟨c, files⟩, listed, member⟩
    obtain ⟨e, present, same⟩ := List.mem_map.mp member
    cases same
    rw [Assoc.get?_of_mem ascending.nodup listed]
    exact present
  · intro member
    cases listed : m.files.get? category with
    | none => simp [listed] at member
    | some files =>
        rw [listed] at member
        exact ⟨(category, files), Assoc.mem_of_get? listed, List.mem_map_of_mem member⟩

end Module

namespace Snapshot

variable {disk : Disk} {settings : Settings} {full : Bool} {session : Session}

/-- The files of a module are those that were found, under their categories. -/
theorem mem_entries_moduleOf {node : GraphNode} {files : List ScannedFile} {category : Category}
    {entry : FileEntry} : (category, entry) ∈ (moduleOf settings node files).entries ↔
      ∃ file ∈ files, file.category = category ∧ entryOf node file = entry := by
  obtain ⟨ascending, found⟩ := entriesOf_spec node files
  have listed : (category, entry) ∈ (moduleOf settings node files).entries ↔
      entry ∈ ((entriesOf node files).get? category).getD [] := Module.mem_entries ascending
  rw [listed, found, List.mem_map]
  simp [and_assoc]

theorem isSound_moduleOf (node : GraphNode) {files : List ScannedFile}
    (classified : ∀ file ∈ files, file.IsClassified) :
    (moduleOf settings node files).IsSound settings.outputRoot := by
  refine ⟨rfl, (entriesOf_spec node files).1, fun category entry member => ?_⟩
  obtain ⟨file, scanned, rfl, rfl⟩ := mem_entries_moduleOf.mp member
  exact classified file scanned

/-- Scanning modules one after another: what holds of the session stays, and each module is made of
what was found for its node. -/
theorem modulesOf_induct (invariant : Session → Prop) (finds : GraphNode → List ScannedFile → Prop)
    {nodes : List GraphNode}
    (scans : ∀ session, invariant session → ∀ node ∈ nodes,
      invariant (session.scan disk node.name (scopeOf settings full node)).1 ∧ ∀ files,
        (session.scan disk node.name (scopeOf settings full node)).2 = .ok files → finds node files)
    (start : invariant session) :
    invariant (modulesOf disk settings full session nodes).1 ∧
      ∀ modules, (modulesOf disk settings full session nodes).2 = .ok modules →
        List.Forall₂ (fun node m => ∃ files, finds node files ∧ m = moduleOf settings node files)
          nodes modules := by
  induction nodes generalizing session with
  | nil =>
      refine ⟨start, fun modules found => ?_⟩
      cases found
      exact .nil
  | cons node rest ih =>
      obtain ⟨next, answers⟩ := scans session start node List.mem_cons_self
      have later := fun session kept node listed =>
        scans session kept node (List.mem_cons_of_mem _ listed)
      cases scanned : session.scan disk node.name (scopeOf settings full node) with
      | mk session answer =>
          rw [scanned] at next answers
          cases answer with
          | error e =>
              refine ⟨by simpa only [modulesOf, scanned] using next, fun modules found => ?_⟩
              simp only [modulesOf, scanned] at found
              cases found
          | ok files =>
              obtain ⟨after, made⟩ := ih later next
              simp only [modulesOf, scanned]
              refine ⟨after, fun modules found => ?_⟩
              obtain ⟨others, all, rfl⟩ := map_eq_ok.mp found
              exact .cons ⟨files, answers files rfl, rfl⟩ (made others all)

theorem take_eq_ok {now : Nat} {graph : ModuleGraph} {manifest : Manifest}
    (taken : (take disk settings full now graph session).2 = .ok manifest) :
    ∃ main modules, graph.get? graph.root = some main ∧
      (modulesOf disk settings full session graph.inOrder).2 = .ok modules ∧
      manifest = manifestOf disk settings graph main now modules := by
  rw [take] at taken
  split at taken
  · cases taken
  · rename_i main found
    obtain ⟨modules, all, rfl⟩ := map_eq_ok.mp taken
    exact ⟨main, modules, found, all, rfl⟩

theorem version_of_take {now : Nat} {graph : ModuleGraph} {manifest : Manifest}
    (taken : (take disk settings full now graph session).2 = .ok manifest) :
    manifest.version = Manifest.currentVersion := by
  obtain ⟨main, modules, _, _, rfl⟩ := take_eq_ok taken
  rfl

theorem mem_of_manifestOf {graph : ModuleGraph} {main : GraphNode} {now : Nat}
    {modules : List Module} {name : String} {m : Module}
    (found : (manifestOf disk settings graph main now modules).module? name = some m) :
    m ∈ modules ∧ m.name = name := by
  have listed : (name, m) ∈ (modules.map fun m => (m.name, m)).reverse := by
    refine Assoc.mem_of_get? ?_
    rw [← Assoc.get?_ofPairs]
    exact found
  obtain ⟨listed, member, same⟩ := List.mem_map.mp (List.mem_reverse.mp listed)
  cases same
  exact ⟨member, rfl⟩

theorem made_take (made : session.Made) {now : Nat} {graph : ModuleGraph} :
    (take disk settings full now graph session).1.Made := by
  rw [take]
  cases graph.get? graph.root with
  | none => exact made
  | some main =>
      obtain ⟨after, _⟩ : (modulesOf disk settings full session graph.inOrder).1.Made ∧ _ :=
        modulesOf_induct Session.Made (fun _ _ => True)
          (fun session made node _ =>
            ⟨made.scan disk node.name (scopeOf settings full node), fun _ _ => trivial⟩) made
      exact after

/-- The manifest of a snapshot names its modules once, and they are sound. -/
theorem isSound_of_take (classified : session.IsClassified) {now : Nat} {graph : ModuleGraph}
    {manifest : Manifest} (taken : (take disk settings full now graph session).2 = .ok manifest) :
    IsAscending manifest.modules.keys ∧ ∀ name m, manifest.module? name = some m →
      m.name = name ∧ m.IsSound settings.outputRoot := by
  obtain ⟨_, found⟩ :
      (modulesOf disk settings full session graph.inOrder).1.IsClassified ∧ _ :=
    modulesOf_induct Session.IsClassified (fun _ files => ∀ file ∈ files, file.IsClassified)
      (fun _ classified _ _ => classified.scan fun _ => Scan.isClassified_of_run) classified
  obtain ⟨main, modules, _, all, rfl⟩ := take_eq_ok taken
  refine ⟨Assoc.isAscending_ofPairs _, fun name m named => ?_⟩
  obtain ⟨member, same⟩ := mem_of_manifestOf named
  obtain ⟨node, _, files, classified, rfl⟩ := exists_of_forall₂_right (found modules all) m member
  exact ⟨same, isSound_moduleOf node classified⟩

end Snapshot

theorem Json.isAscending_of_table? {α : Type} {decode : Json → Option α} {value : Json}
    {table : Assoc String α} (decoded : Json.table? decode value = some table) :
    IsAscending table.keys := by
  cases value with
  | object members =>
      obtain ⟨pairs, _, rfl⟩ := Option.map_eq_some_iff.mp decoded
      exact Assoc.isAscending_ofPairs pairs
  | _ => cases decoded

namespace Manifest

theorem isAscending_of_ofJson? {value : Json} {manifest : Manifest}
    (decoded : ofJson? value = some manifest) : IsAscending manifest.modules.keys := by
  simp only [ofJson?, Option.bind_eq_bind, Option.bind_eq_some_iff] at decoded
  obtain ⟨fields, _, decoded⟩ := decoded
  split at decoded
  · simp only [Option.bind_eq_some_iff] at decoded
    obtain ⟨_, _, _, _, _, _, _, _, _, _, modules, table, same⟩ := decoded
    cases same
    exact Json.isAscending_of_table? table
  · cases decoded

/-- A manifest that is read back names its modules once. -/
theorem isAscending_of_loadPrevious? {disk : Disk} {path : Path} {manifest : Manifest}
    (loaded : loadPrevious? disk path = some manifest) : IsAscending manifest.modules.keys := by
  rw [loadPrevious?] at loaded
  split at loaded
  · rw [load] at loaded
    split at loaded
    · cases loaded
    · rename_i text _
      rw [ofText] at loaded
      split at loaded
      · cases loaded
      · simp only at loaded
        split at loaded
        · split at loaded
          · rename_i manifest decoded
            cases loaded
            exact isAscending_of_ofJson? decoded
          · cases loaded
        · cases loaded
  · cases loaded

end Manifest

end WorkspaceBuild
