import WorkspaceBuild.Package.Members
import WorkspaceBuild.Proofs.Looks.Wildcards
import WorkspaceBuild.Proofs.Path.Sorted

/-! # What is read for members

To find the members of a workspace is to read the descriptors in the folders that its patterns stand
for. Where these are the same, the members are the same, whatever other folders have come.
-/

namespace WorkspaceBuild

variable {before after : Disk}

theorem Path.isAbsolute_descriptorFile : Path.isAbsolute ⟨descriptorFile⟩ = false := by decide

/-- A descriptor that is read again is read as it was. -/
theorem Descriptor.load_congr {folder : Path}
    (same : after.contents? (folder.join descriptorFile) =
      before.contents? (folder.join descriptorFile)) :
    Descriptor.load after folder = Descriptor.load before folder := by
  rw [load, load, Disk.isFile_eq, same, ← Disk.isFile_eq]
  split
  · rename_i present
    rw [Disk.readText_congr same present]
  · rfl

namespace Members

variable {root : Path} {descriptor : Descriptor}

/-- The patterns of what is left out, read. -/
def exclusionsOf (descriptor : Descriptor) : Except PackageError (List (List Wildcard.Token)) :=
  descriptor.patterns.filterMapM fun pattern =>
    match Text.dropStart? pattern "!" with
    | some rest => (exclusion pattern rest).map some
    | .none => .ok .none

/-- The patterns of members. -/
def inclusionsOf (descriptor : Descriptor) : List String :=
  descriptor.patterns.filter fun pattern => (Text.dropStart? pattern "!").isNone

/-- Put the members that patterns stand for to those found before. -/
def collect (disk : Disk) (root : Path) (exclusions : List (List Wildcard.Token))
    (patterns : List String) (m : Members) : Except PackageError Members :=
  patterns.foldlM (fun m pattern => do
    (← expand disk root pattern).foldlM (consider disk root exclusions) m) m

theorem discover_eq (disk : Disk) (root : Path) (descriptor : Descriptor) :
    discover disk root descriptor = (exclusionsOf descriptor).bind fun exclusions =>
      collect disk root exclusions (inclusionsOf descriptor) Members.none := rfl

/-- Whether an exclusion stands for a folder. -/
def isExcluded (root : Path) (exclusions : List (List Wildcard.Token)) (folder : Path) : Bool :=
  (folder.below? root).any fun below => exclusions.any (Wildcard.covers · below.text)

/-- To find the members of a workspace is to read the descriptor in a folder: a pattern stands for
the folder, and no exclusion does. -/
def LooksInto (disk : Disk) (root : Path) (descriptor : Descriptor) (folder : Path) : Prop :=
  ∃ exclusions, exclusionsOf descriptor = .ok exclusions ∧ isExcluded root exclusions folder = false ∧
    ∃ pattern ∈ inclusionsOf descriptor, ∃ folders,
      expand disk root pattern = .ok folders ∧ folder ∈ folders

/-- Of the folders that a pattern stands for, those that were there before. -/
theorem expand_grown (proper : before.IsProper) (alsoProper : after.IsProper)
    (grown : Disk.KeepsFolders before after) (root : Path) (pattern : String) :
    (expand after root pattern).map (List.filter before.isFolder) = expand before root pattern := by
  delta expand
  cases trimmedPattern? pattern with
  | none => rfl
  | some trimmed =>
      simp only [Option.bind_some]
      rw [← Wildcard.filter_folders? proper alsoProper grown]
      cases Wildcard.folders? after (Wildcard.escape root.text ++ "/" ++ trimmed) with
      | none => rfl
      | some folders =>
          simp only [Except.map, Option.map_some]
          rw [Path.filter_sortedDistinct fun p q => Disk.isFolder_congr, List.filter_comm]

theorem consider_congr {exclusions : List (List Wildcard.Token)} {folder : Path}
    (same : isExcluded root exclusions folder = false →
      after.contents? (folder.join descriptorFile) = before.contents? (folder.join descriptorFile))
    (m : Members) :
    consider after root exclusions m folder = consider before root exclusions m folder := by
  rw [consider, consider]
  split
  · rfl
  · rename_i below seen
    split
    · rfl
    · rename_i included
      have alike := same (by simpa [isExcluded, seen] using included)
      rw [Disk.isFile_eq, alike, ← Disk.isFile_eq, Descriptor.load_congr alike]

/-- A folder without a descriptor is no member. -/
theorem consider_of_none {disk : Disk} {exclusions : List (List Wildcard.Token)} {folder : Path}
    (none : disk.contents? (folder.join descriptorFile) = .none) (m : Members) :
    consider disk root exclusions m folder = .ok m := by
  rw [consider]
  split
  · rfl
  · split
    · rfl
    · rw [if_pos (by rw [Disk.isFile_eq, none]; rfl)]

theorem consider_of_isExcluded {disk : Disk} {exclusions : List (List Wildcard.Token)} {folder : Path}
    (excluded : isExcluded root exclusions folder = true) (m : Members) :
    consider disk root exclusions m folder = .ok m := by
  rw [isExcluded, Option.any_eq_true] at excluded
  obtain ⟨below, seen, covered⟩ := excluded
  simp only [consider, seen, covered, if_true]

/-- New folders do not count as long as no descriptor is new. -/
theorem foldlM_consider_grown {exclusions : List (List Wildcard.Token)} {folders : List Path}
    (same : ∀ folder ∈ folders, isExcluded root exclusions folder = false →
      after.contents? (folder.join descriptorFile) = before.contents? (folder.join descriptorFile))
    (m : Members) :
    folders.foldlM (consider after root exclusions) m =
      (folders.filter before.isFolder).foldlM (consider before root exclusions) m := by
  induction folders generalizing m with
  | nil => rfl
  | cons folder rest ih =>
      obtain ⟨here, later⟩ := List.forall_mem_cons.mp same
      cases was : before.isFolder folder with
      | true =>
          rw [List.filter_cons_of_pos was, List.foldlM_cons, List.foldlM_cons, consider_congr here]
          exact congrArg _ (funext fun m => ih later m)
      | false =>
          have skipped : consider after root exclusions m folder = .ok m := by
            cases excluded : isExcluded root exclusions folder with
            | true => exact consider_of_isExcluded excluded m
            | false =>
                exact consider_of_none ((here excluded).trans
                  (Disk.contents?_eq_none Path.isAbsolute_descriptorFile was)) m
          rw [List.filter_cons_of_neg (by simp [was]), List.foldlM_cons, skipped]
          exact ih later m

/-- Where the descriptors that are read are the same, the members are. -/
theorem discover_congr (proper : before.IsProper) (alsoProper : after.IsProper)
    (grown : Disk.KeepsFolders before after)
    (same : ∀ folder, LooksInto after root descriptor folder →
      after.contents? (folder.join descriptorFile) = before.contents? (folder.join descriptorFile)) :
    discover after root descriptor = discover before root descriptor := by
  rw [discover_eq, discover_eq]
  refine bind_congr_of_ok fun exclusions read => ?_
  have each : ∀ pattern ∈ inclusionsOf descriptor, ∀ m : Members,
      ((expand after root pattern).bind fun folders =>
          folders.foldlM (consider after root exclusions) m) =
        (expand before root pattern).bind fun folders =>
          folders.foldlM (consider before root exclusions) m := by
    intro pattern listed m
    rw [← expand_grown proper alsoProper grown, bind_map]
    refine bind_congr_of_ok fun folders expanded => ?_
    exact foldlM_consider_grown (fun folder member included =>
      same folder ⟨exclusions, read, included, pattern, listed, folders, expanded, member⟩) m
  generalize inclusionsOf descriptor = patterns at each
  generalize Members.none = m
  induction patterns generalizing m with
  | nil => rw [collect, collect, List.foldlM_nil, List.foldlM_nil]
  | cons pattern rest ih =>
      obtain ⟨here, later⟩ := List.forall_mem_cons.mp each
      rw [collect, collect, List.foldlM_cons, List.foldlM_cons]
      refine (congrArg (Except.bind · _) (here m)).trans ?_
      exact bind_congr_of_ok fun m _ => ih later m

end Members

end WorkspaceBuild
