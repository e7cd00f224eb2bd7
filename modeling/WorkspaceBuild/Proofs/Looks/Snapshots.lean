import WorkspaceBuild.Proofs.Looks.Resolutions
import WorkspaceBuild.Proofs.Looks.Sessions

/-! # Snapshots of a disk that changes

A snapshot looks at the descriptors that lead to the modules, at lock files, and at what its scans
look at. Where these are as they were it finds the same modules with the same files, whether their
scans were kept or are made anew.
-/

namespace WorkspaceBuild

variable {before after disk : Disk}

/-- There is something at a path just when there was, if its file is the same and no folder is
new. -/
theorem Disk.exists?_congr (grown : KeepsFolders before after) {path : Path}
    (reaches : before.Reaches path) (file : after.fileAt? path.target = before.fileAt? path.target)
    (folder : after.HoldsFolder path.target → before.HoldsFolder path.target) :
    after.exists? path = before.exists? path := by
  have holds_iff (disk : Disk) (place : Place) :
      disk.Holds place ↔ (disk.fileAt? place).isSome ∨ disk.HoldsFolder place := by
    rw [← kindAt?_eq_true_iff, HoldsFolder, Holds]
    cases disk.kindAt? place with
    | none => simp
    | some isFile => cases isFile <;> simp
  have exists_iff (disk : Disk) : disk.exists? path = true ↔ disk.Reaches path ∧ disk.Holds path.target := by
    rw [← modified?_isSome_iff, modified?, Option.isSome_map, exists?]
  rw [Bool.eq_iff_iff, exists_iff, exists_iff, and_iff_right reaches,
    and_iff_right (grown.reaches reaches), holds_iff, holds_iff, file]
  exact or_congr_right ⟨folder, grown _⟩

namespace PackageManager

/-- The names of lock files. -/
def lockFiles : List String := ["pnpm-lock.yaml", "yarn.lock", "bun.lockb", "bun.lock"]

theorem isPlain_lockFile {name : String} (listed : name ∈ lockFiles) : Path.IsPlain name := by
  simp only [lockFiles, List.mem_cons, List.not_mem_nil, or_false] at listed
  rcases listed with rfl | rfl | rfl | rfl <;> exact ⟨by decide, by decide, by decide⟩

/-- The package manager goes by which lock files there are. -/
theorem detect_congr {root : Path} (same : ∀ name ∈ lockFiles,
    after.exists? (root.join name) = before.exists? (root.join name)) :
    detect after root = detect before root := by
  simp only [lockFiles, List.forall_mem_cons] at same
  obtain ⟨pnpm, yarn, bun, bunText, _⟩ := same
  rw [detect, detect, pnpm, yarn, bun, bunText]

end PackageManager

namespace Session

variable {session : Session} {scope other : Scan.Scope} {moduleName : String}
  {files : List ScannedFile}

/-- What a session keeps for a scope is what scanning it finds. -/
def Agrees (session : Session) (disk : Disk) (scope : Scan.Scope) : Prop :=
  ∀ files, (scope.key, files) ∈ session.scans → ∀ moduleName,
    Scan.run disk moduleName scope = .ok files

theorem IsOf.agrees (isOf : session.IsOf disk) (folder : disk.isFolder scope.folder = true) :
    session.Agrees disk scope := by
  intro files kept moduleName
  obtain ⟨otherName, other, key, ran⟩ := isOf _ kept
  exact Scan.run_of_key key.symm ran (Disk.exists?_of_isFolder folder)

/-- A session that agrees answers as scanning does. -/
theorem Agrees.answer (agrees : session.Agrees disk scope)
    (ran : Scan.run disk moduleName scope = .ok files) :
    (session.scan disk moduleName scope).2 = .ok files := by
  rw [Session.scan]
  cases kept : session.scans.lookup scope.key with
  | none => simp only [ran]
  | some others =>
      have member : (scope.key, others) ∈ session.scans := by
        obtain ⟨first, last, split, _⟩ := List.lookup_eq_some_iff.mp kept
        simp [split]
      exact (agrees others member moduleName).symm.trans ran

theorem Agrees.scan (agrees : session.Agrees disk other) (folder : disk.isFolder scope.folder = true)
    (moduleName : String) : (session.scan disk moduleName scope).1.Agrees disk other := by
  rcases session.scan_cases disk moduleName scope with
    ⟨found, kept, same⟩ | ⟨found, ran, same⟩ | ⟨e, same⟩
  · rw [same]
    exact agrees
  · rw [same]
    intro files kept otherName
    rcases List.mem_cons.mp kept with here | later
    · obtain ⟨key, rfl⟩ := Prod.mk.inj here
      have there := Disk.isFolder_spelled (congrArg ScanKey.folder key.symm) folder
      exact Scan.run_of_key key.symm ran (Disk.exists?_of_isFolder there)
    · exact agrees files later otherName
  · rw [same]
    exact agrees

end Session

namespace Snapshot

variable {settings : Settings} {full : Bool} {session : Session} {now : Nat} {graph : ModuleGraph}

/-- A module is made of what scanning the folder of its node finds. -/
def IsScanOf (disk : Disk) (settings : Settings) (full : Bool) (node : GraphNode) (m : Module) : Prop :=
  ∃ files, Scan.run disk node.name (scopeOf settings full node) = .ok files ∧
    m = moduleOf settings node files

/-- A session that agrees with a disk makes the modules that scanning it does. -/
theorem modulesOf_eq_ok {nodes : List GraphNode} {modules : List Module}
    (scans : List.Forall₂ (IsScanOf disk settings full) nodes modules)
    (folders : ∀ node ∈ nodes, disk.isFolder (scopeOf settings full node).folder = true)
    (agrees : ∀ node ∈ nodes, session.Agrees disk (scopeOf settings full node)) :
    (modulesOf disk settings full session nodes).2 = .ok modules := by
  induction scans generalizing session with
  | nil => rfl
  | @cons node m rest others here _ ih =>
      obtain ⟨files, ran, rfl⟩ := here
      obtain ⟨folder, laterFolders⟩ := List.forall_mem_cons.mp folders
      obtain ⟨agreesHere, agreesLater⟩ := List.forall_mem_cons.mp agrees
      have answer := agreesHere.answer ran
      have next (other : GraphNode) (listed : other ∈ rest) :=
        (agreesLater other listed).scan folder node.name
      cases scanned : session.scan disk node.name (scopeOf settings full node) with
      | mk after result =>
          rw [scanned] at answer next
          cases answer
          rw [modulesOf, scanned]
          exact map_eq_ok.mpr ⟨others, ih laterFolders next, rfl⟩

theorem take_of_main {main : GraphNode} (found : graph.get? graph.root = some main) :
    take disk settings full now graph session =
      ((modulesOf disk settings full session graph.inOrder).1,
        (modulesOf disk settings full session graph.inOrder).2.map
          (manifestOf disk settings graph main now)) := by
  rw [take, found]

/-- A snapshot of a disk where all that scans look at is as it was has the modules of the one taken
before. -/
theorem take_grown (proper : before.IsProper) (alsoProper : after.IsProper)
    (grown : Disk.KeepsFolders before after) (housed : graph.IsHoused before)
    (isOf : session.IsOf before) {manifest : Manifest}
    (taken : (take before settings full now graph session).2 = .ok manifest)
    (looked : ∀ node ∈ graph.inOrder, ∀ place,
      (scopeOf settings full node).LooksAt before place → after.fileAt? place = before.fileAt? place)
    {again : Session}
    (kept : again = (take before settings full now graph session).1 ∨ again.IsOf after) (later : Nat) :
    (take after settings full later graph again).2 = .ok
      { manifest with
        generated := later
        workspace := { manifest.workspace with
          packageManager := .detect after settings.workspaceRoot } } := by
  obtain ⟨main, modules, found, all, rfl⟩ := take_eq_ok taken
  have folders : ∀ node ∈ graph.inOrder,
      before.isFolder (scopeOf settings full node).folder = true := fun _ => housed.isFolder
  have foldersAfter : ∀ node ∈ graph.inOrder,
      after.isFolder (scopeOf settings full node).folder = true :=
    fun node listed => grown.isFolder (folders node listed)
  have rerun {node : GraphNode} (listed : node ∈ graph.inOrder) {moduleName : String}
      {files : List ScannedFile}
      (ran : Scan.run before moduleName (scopeOf settings full node) = .ok files) :
      Scan.run after moduleName (scopeOf settings full node) = .ok files :=
    Scan.run_congr proper.ordered alsoProper.ordered grown (looked node listed) ran
  -- what was scanned before would be found after
  have found_again (session : Session) (isOf : session.IsOf before) (node : GraphNode)
      (listed : node ∈ graph.inOrder) :=
    And.imp_right (fun ran files answer => rerun listed (ran files answer))
      (isOf.scan node.name (folders node listed))
  obtain ⟨isOfNext, scans⟩ :
      (modulesOf before settings full session graph.inOrder).1.IsOf before ∧ _ :=
    modulesOf_induct (·.IsOf before) (fun node files =>
      Scan.run after node.name (scopeOf settings full node) = .ok files) found_again isOf
  have agrees : ∀ node ∈ graph.inOrder, again.Agrees after (scopeOf settings full node) := by
    intro node listed
    rcases kept with rfl | isOfAfter
    · rw [take_of_main found]
      intro files keeps moduleName
      exact rerun listed (isOfNext.agrees (folders node listed) files keeps moduleName)
    · exact isOfAfter.agrees (foldersAfter node listed)
  rw [take_of_main found]
  exact map_eq_ok.mpr ⟨modules, modulesOf_eq_ok (scans modules all) foldersAfter agrees, rfl⟩

end Snapshot

end WorkspaceBuild
