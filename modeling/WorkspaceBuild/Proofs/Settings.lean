import WorkspaceBuild.Proofs.Path.Below
import WorkspaceBuild.Proofs.Results
import WorkspaceBuild.Settings

/-! # What settings leave out

A build writes to the tool's folder and to those of outputs, of the compiler and of types. Wherever
the project file or the environment puts them, one that lies below the workspace is not scanned.
-/

namespace WorkspaceBuild.Settings

variable {root folder : Path} {folders : List Path} {cs : List Path.Component}

/-- The folders that are there for builds. -/
def ownFolders (s : Settings) : List Path :=
  [s.toolFolder, s.outputRoot, s.compilerOutput, s.typesOutput]

theorem subset_exclude (folders : List Path) (folder : Path) : folders ⊆ exclude folders folder := by
  rw [exclude]
  split
  · exact List.Subset.refl _
  · exact List.subset_append_left _ _

theorem subset_excludeBelow (root : Path) (folders : List Path) (folder : Path) :
    folders ⊆ excludeBelow root folders folder := by
  rw [excludeBelow]
  split
  · exact subset_exclude _ _
  · exact List.Subset.refl _

theorem subset_foldl {add : List Path → Path → List Path}
    (grows : ∀ folders folder, folders ⊆ add folders folder) (more folders : List Path) :
    folders ⊆ more.foldl add folders := by
  induction more generalizing folders with
  | nil => exact List.Subset.refl _
  | cons folder rest ih => exact List.Subset.trans (grows folders folder) (ih _)

/-- A folder that is left out is added, unless it is there in another spelling. -/
theorem exists_mem_exclude (some : folder.components ≠ []) :
    ∃ e ∈ exclude folders folder, e.components = folder.components := by
  have named : folder.text ≠ "" := by
    intro empty
    obtain ⟨text⟩ := folder
    cases empty
    exact some rfl
  cases known : folders.any folder.same with
  | true =>
      obtain ⟨e, listed, same⟩ := List.any_eq_true.mp known
      exact ⟨e, subset_exclude folders folder listed, (of_decide_eq_true same).symm⟩
  | false =>
      refine ⟨folder, ?_, rfl⟩
      simp [exclude, named, known]

theorem exists_mem_excludeBelow (absolute : root.isAbsolute = true)
    (below : folder.components = root.components ++ cs) (some : cs ≠ []) :
    ∃ e ∈ excludeBelow root folders folder, e.components = cs := by
  obtain ⟨seen, found, rfl⟩ := Path.exists_below? absolute below
  simp only [excludeBelow, found]
  exact exists_mem_exclude some

theorem exists_mem_foldl_excludeBelow {more : List Path} (listed : folder ∈ more)
    (absolute : root.isAbsolute = true) (below : folder.components = root.components ++ cs)
    (some : cs ≠ []) : ∃ e ∈ more.foldl (excludeBelow root) folders, e.components = cs := by
  obtain ⟨before, after, rfl⟩ := List.append_of_mem listed
  rw [List.foldl_append, List.foldl_cons]
  obtain ⟨e, member, same⟩ := exists_mem_excludeBelow absolute below some
  exact ⟨e, subset_foldl (subset_excludeBelow root) after _ member, same⟩

/-- Settings leave the folders of builds out: a path below the workspace that leads to one of them
is listed. -/
def ExcludesOwn (s : Settings) : Prop :=
  ∀ own ∈ s.ownFolders, ∀ cs, own.components = s.workspaceRoot.components ++ cs → cs ≠ [] →
    ∃ e ∈ s.excluded, e.components = cs

theorem excludesOwn_ofProject (absolute : root.isAbsolute = true) (project : ProjectFile) :
    (ofProject root project).ExcludesOwn := by
  intro own listed cs below some
  obtain ⟨e, member, same⟩ := exists_mem_foldl_excludeBelow listed absolute below some
  exact ⟨e, subset_foldl subset_exclude _ _ member, same⟩

/-- The place of outputs that the environment names is left out like the one before. -/
theorem ExcludesOwn.overrideOutput {env : Environment} {s next : Settings} (h : s.ExcludesOwn)
    (absolute : s.workspaceRoot.isAbsolute = true) (done : overrideOutput env s = .ok next) :
    next.ExcludesOwn := by
  rw [Settings.overrideOutput] at done
  split at done
  · cases done
    exact h
  split at done
  · cases done
  rename_i value _ _
  cases done
  intro own listed cs below some
  have kept (known : own ∈ s.ownFolders) :
      ∃ e ∈ excludeBelow s.workspaceRoot s.excluded (s.workspaceRoot.join value), e.components = cs := by
    obtain ⟨e, member, same⟩ := h own known cs below some
    exact ⟨e, subset_excludeBelow _ _ _ member, same⟩
  rw [ownFolders, List.mem_cons, List.mem_cons] at listed
  rcases listed with rfl | rfl | others
  · exact kept List.mem_cons_self
  · exact exists_mem_excludeBelow absolute below some
  · exact kept (List.mem_cons_of_mem _ (List.mem_cons_of_mem _ others))

/-- Settings come from the project file of the workspace, whose root is told without detours, and
then from the environment. -/
theorem exists_of_load {disk : Disk} {env : Environment} {s : Settings}
    (loaded : load disk env folder root = .ok s) : ∃ workspace project next,
      workspace.isAbsolute = true ∧ overrideOutput env (ofProject workspace project) = .ok next ∧
        s = overrideRest env next := by
  rw [load] at loaded
  split at loaded
  · cases loaded
  split at loaded
  · cases loaded
  rename_i workspace canonical
  obtain ⟨project, _, rest⟩ := bind_eq_ok.mp loaded
  obtain ⟨next, overridden, same⟩ := bind_eq_ok.mp rest
  cases same
  refine ⟨workspace, project, next, ?_, overridden, rfl⟩
  obtain ⟨place, _, found⟩ := bind_eq_ok.mp canonical
  split at found
  · cases found
    simp [Path.isAbsolute]
  · cases found

/-- However settings were put together, the folders of builds below the workspace are left out. -/
theorem excludesOwn_of_load {disk : Disk} {env : Environment} {s : Settings}
    (loaded : load disk env folder root = .ok s) : s.ExcludesOwn := by
  obtain ⟨workspace, project, next, absolute, overridden, rfl⟩ := exists_of_load loaded
  have whole : next.ExcludesOwn :=
    (excludesOwn_ofProject absolute project).overrideOutput absolute overridden
  exact whole

end WorkspaceBuild.Settings
