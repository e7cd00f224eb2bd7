import WorkspaceBuild.Proofs.Looks.Finds
import WorkspaceBuild.Proofs.Path.Sorted
import WorkspaceBuild.Proofs.Snapshot

/-! # What a session answers

Scans with one key find the same files, however their folder and what they leave out are spelled. So
a session that was made on a disk answers as scanning this disk does.
-/

namespace WorkspaceBuild

theorem Path.exists_mem_sortedDistinct {p : Path} {paths : List Path} (listed : p ∈ paths) :
    ∃ q ∈ sortedDistinct paths, q.components = p.components := by
  have alike : ∀ q r : Path, q.same r → q.same p = r.same p := by
    intro q r same
    rw [Path.same, Path.same, of_decide_eq_true same]
  have some : (sortedDistinct paths).filter (·.same p) ≠ [] := by
    have sorted : ((paths.filter (·.same p)).mergeSort notAfter) ≠ [] := by
      rw [← List.length_pos_iff_ne_nil, List.length_mergeSort, List.length_pos_iff_ne_nil]
      exact List.ne_nil_of_mem (List.mem_filter.mpr ⟨listed, decide_eq_true rfl⟩)
    rw [filter_sortedDistinct alike]
    obtain ⟨first, rest, split⟩ := List.exists_cons_of_ne_nil sorted
    obtain ⟨others, same⟩ := distinct_eq_cons first rest
    have whole : sortedDistinct (paths.filter (·.same p)) = first :: others := by
      rw [← same, ← split]
      rfl
    rw [whole]
    exact List.cons_ne_nil _ _
  obtain ⟨q, member⟩ := List.exists_mem_of_ne_nil _ some
  obtain ⟨kept, same⟩ := List.mem_filter.mp member
  exact ⟨q, kept, of_decide_eq_true same⟩

theorem Path.mem_of_mem_sortedDistinct {p : Path} {paths : List Path}
    (listed : p ∈ sortedDistinct paths) : p ∈ paths :=
  List.mem_mergeSort.mp (distinct_subset _ listed)

namespace Scan

variable {disk : Disk} {scope other : Scope}

theorem exists_excluded_of_key (same : scope.key = other.key) {e : Path} (listed : e ∈ scope.excluded) :
    ∃ e' ∈ other.excluded, e'.components = e.components := by
  have alike : (Path.sortedDistinct scope.excluded).map Path.components =
      (Path.sortedDistinct other.excluded).map Path.components := congrArg ScanKey.excluded same
  obtain ⟨q, kept, spelled⟩ := Path.exists_mem_sortedDistinct listed
  have member : q.components ∈ (Path.sortedDistinct other.excluded).map Path.components :=
    alike ▸ List.mem_map_of_mem kept
  obtain ⟨r, keptToo, spelledToo⟩ := List.mem_map.mp member
  exact ⟨r, Path.mem_of_mem_sortedDistinct keptToo, spelledToo.trans spelled⟩

/-- Scans with one key enter the same folders. -/
theorem enters_congr (same : scope.key = other.key) (absolute : scope.folder.isAbsolute = true)
    (path name : String) (entries : List (String × Item)) :
    scope.enters path name entries = other.enters path name entries := by
  have folder : scope.folder.components = other.folder.components := congrArg ScanKey.folder same
  have full : scope.full = other.full := congrArg ScanKey.full same
  have leaves {first second : Scope} (same : first.key = second.key)
      (absolute : first.folder.isAbsolute = true)
      (left : first.excluded.any fun e =>
        (first.folder.join path).same (first.folder.join e.text)) :
      second.excluded.any fun e => (second.folder.join path).same (second.folder.join e.text) := by
    have folder : first.folder.components = second.folder.components := congrArg ScanKey.folder same
    obtain ⟨e, listed, left⟩ := List.any_eq_true.mp left
    obtain ⟨e', listedToo, spelled⟩ := exists_excluded_of_key same listed
    refine List.any_eq_true.mpr ⟨e', listedToo, decide_eq_true ?_⟩
    rw [← Path.components_join_congr absolute folder spelled.symm,
      ← Path.components_join_congr absolute folder (rfl : (Path.mk path).components = _)]
    exact of_decide_eq_true left
  have excluded : (scope.excluded.any fun e =>
        (scope.folder.join path).same (scope.folder.join e.text)) =
      other.excluded.any fun e => (other.folder.join path).same (other.folder.join e.text) :=
    Bool.eq_iff_iff.mpr
      ⟨leaves same absolute, leaves same.symm (Path.isAbsolute_congr folder ▸ absolute)⟩
  rw [Scope.enters, Scope.enters, excluded, full]

mutual

theorem filesOf_congr (enters : ∀ path name entries,
      scope.enters path name entries = other.enters path name entries) (path : String) (item : Item) :
    filesOf scope path item = filesOf other path item := by
  cases item with
  | file contents time => rfl
  | folder entries time => exact filesIn_congr_scope enters path entries

theorem filesIn_congr_scope (enters : ∀ path name entries,
      scope.enters path name entries = other.enters path name entries) (folder : String)
    (entries : List (String × Item)) : filesIn scope folder entries = filesIn other folder entries := by
  cases entries with
  | nil => rfl
  | cons entry rest =>
      obtain ⟨name, item⟩ := entry
      have keeps : scope.keeps (below folder name) name item = other.keeps (below folder name) name item := by
        cases item with
        | file contents time => rfl
        | folder inner time => rw [Scope.keeps, Scope.keeps, enters]
      rw [filesIn, filesIn, keeps, filesOf_congr enters (below folder name) item,
        filesIn_congr_scope enters folder rest]

end

/-- Scans with one key that find something find the same, whatever module they are for. -/
theorem run_of_key {moduleName otherName : String} {files : List ScannedFile}
    (same : scope.key = other.key) (found : run disk moduleName scope = .ok files)
    (there : disk.exists? other.folder = true) : run disk otherName other = .ok files := by
  have renamed (listed : List (String × Nat)) (files : List ScannedFile)
      (found : (listed.mapM fun pair => classified moduleName pair.1 pair.2) = .ok files) :
      (listed.mapM fun pair => classified otherName pair.1 pair.2) = .ok files := by
    induction listed generalizing files with
    | nil => exact found
    | cons first rest ih =>
        obtain ⟨file, others, here, later, rfl⟩ := mapM_cons_eq_ok.mp found
        exact mapM_cons_eq_ok.mpr
          ⟨file, others, classified_eq_ok_iff.mpr (classified_eq_ok_iff.mp here), ih others later, rfl⟩
  cases item : disk.item scope.folder with
  | error fault => simp [run, item] at found
  | ok entry =>
      have enters := enters_congr same (Disk.item_eq_ok_iff.mp item).1.1
      rw [run, item] at found
      rw [run, Disk.item_respelled (congrArg ScanKey.folder same) item there]
      simp only [← filesOf_congr enters]
      exact renamed _ files found

end Scan

namespace Session

/-- All that a session keeps was found on a disk. -/
def IsOf (session : Session) (disk : Disk) : Prop :=
  ∀ kept ∈ session.scans, ∃ moduleName scope,
    kept.1 = Scan.Scope.key scope ∧ Scan.run disk moduleName scope = .ok kept.2

theorem isOf_empty (disk : Disk) : empty.IsOf disk := by
  intro kept listed
  cases listed

theorem IsOf.isClassified {session : Session} {disk : Disk} (isOf : session.IsOf disk) :
    session.IsClassified := by
  intro kept listed
  obtain ⟨moduleName, scope, _, ran⟩ := isOf kept listed
  exact Scan.isClassified_of_run ran

/-- A session of a disk answers as scanning a folder of it does, and goes on to be one. -/
theorem IsOf.scan {session : Session} {disk : Disk} (isOf : session.IsOf disk) (moduleName : String)
    {scope : Scan.Scope} (folder : disk.isFolder scope.folder = true) :
    (session.scan disk moduleName scope).1.IsOf disk ∧ ∀ files,
      (session.scan disk moduleName scope).2 = .ok files → Scan.run disk moduleName scope = .ok files := by
  rcases session.scan_cases disk moduleName scope with
    ⟨found, kept, same⟩ | ⟨found, ran, same⟩ | ⟨e, same⟩
  · rw [same]
    refine ⟨isOf, ?_⟩
    rintro files ⟨⟩
    obtain ⟨otherName, other, key, ran⟩ := isOf _ kept
    exact Scan.run_of_key key.symm ran (Disk.exists?_of_isFolder folder)
  · rw [same]
    refine ⟨List.forall_mem_cons.mpr ⟨⟨moduleName, scope, rfl, ran⟩, isOf⟩, ?_⟩
    rintro files ⟨⟩
    exact ran
  · rw [same]
    refine ⟨isOf, ?_⟩
    rintro files ⟨⟩

end Session

namespace Snapshot

variable {disk : Disk} {settings : Settings} {full : Bool} {session : Session} {now : Nat}
  {graph : ModuleGraph}

/-- The modules of a snapshot hold what scanning the folders of the graph finds. -/
theorem exists_run_of_take (isOf : session.IsOf disk)
    (folders : ∀ node ∈ graph.inOrder, disk.isFolder node.dir = true) {manifest : Manifest}
    (taken : (take disk settings full now graph session).2 = .ok manifest) {name : String} {m : Module}
    (named : manifest.module? name = some m) : ∃ node ∈ graph.inOrder, ∃ files,
      Scan.run disk node.name (scopeOf settings full node) = .ok files ∧
        m = moduleOf settings node files ∧ node.name = name := by
  obtain ⟨main, modules, _, all, rfl⟩ := take_eq_ok taken
  obtain ⟨member, same⟩ := mem_of_manifestOf named
  obtain ⟨_, found⟩ : (modulesOf disk settings full session graph.inOrder).1.IsOf disk ∧ _ :=
    modulesOf_induct (·.IsOf disk)
      (fun node files => Scan.run disk node.name (scopeOf settings full node) = .ok files)
      (fun session isOf node listed => isOf.scan node.name (folders node listed)) isOf
  obtain ⟨node, listed, files, ran, rfl⟩ := exists_of_forall₂_right (found modules all) m member
  exact ⟨node, listed, files, ran, rfl, same⟩

end Snapshot

end WorkspaceBuild
