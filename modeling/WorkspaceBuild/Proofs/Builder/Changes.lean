import WorkspaceBuild.Proofs.Builder.Convergence
import WorkspaceBuild.Proofs.Builder.Failures
import WorkspaceBuild.Proofs.Disk.Named

/-! # What a build changes

A build that comes to its end has changed the outputs that its events lead to and the manifest, and
has made folders on the way there. All else is as it was, whether there was a host or not.
-/

namespace WorkspaceBuild

namespace Disk

variable {disk next : Disk} {path : Path} {time : Nat}

theorem replaceFile_confined (ordered : disk.IsOrdered) {contents : Contents}
    (replaced : disk.replaceFile path contents time = .ok next) :
    Confined disk next [path.target] [] := by
  obtain ⟨reaches, noFolder, rfl⟩ := eq_setAt_of_replaceFile replaced
  have named := reaches.endsInName noFolder
  obtain ⟨stillOrdered, reachesAgain, stillNoFolder⟩ := reaches.setAt_none ordered noFolder time
  have taken : Confined disk (disk.setAt path.target none time) [path.target] [] := by
    refine confined_setAt ordered named.trail_eq.2.1 (reaches.above named) noFolder ?_ time
    rintro inner ⟨⟩
  have put : Confined (disk.setAt path.target none time)
      ((disk.setAt path.target none time).setAt path.target (some (.file contents time)) time)
      [path.target] [] := by
    refine confined_setAt stillOrdered named.trail_eq.2.1 (reachesAgain.above named) stillNoFolder ?_
      time
    rintro inner ⟨⟩
    rfl
  exact (taken.trans put).mono (by simp) (List.Subset.refl _)

theorem makeFolderOf_confined (ordered : disk.IsOrdered) (absolute : path.isAbsolute = true)
    (made : (Manifest.makeFolderOf disk path time).1 = next) : Confined disk next [] path.way := by
  rw [Manifest.makeFolderOf] at made
  split at made
  · rename_i folder found
    split at made
    · cases made
      exact .refl ordered
    · exact createParent_confined ordered absolute found made
  · cases made
    exact .refl ordered

/-- Keeping a manifest changes its file, and makes folders on the way there. -/
theorem save_confined (ordered : disk.IsOrdered) {manifest : Manifest}
    (saved : Manifest.save disk manifest path time = (next, .ok ())) :
    Confined disk next [path.target] path.way := by
  obtain ⟨middle, made, replaced⟩ := Manifest.save_eq_ok_iff.mp saved
  have absolute := (eq_setAt_of_replaceFile replaced).1.1
  have folder := makeFolderOf_confined ordered absolute (congrArg Prod.fst made)
  exact (folder.trans (replaceFile_confined folder.ordered replaced)).mono
    (List.Subset.refl _) (by simp)

end Disk

namespace Builder

open Production

variable {σ : Type} {b : Builder σ} {disk : Disk} {plan : BuildPlan} {now : Nat} {notes : σ}
  {last : BuildState σ}

/-- The places of the folders that a build may make. -/
def passes (b : Builder σ) (plan : BuildPlan) (now : Nat) : List Place :=
  (eventsOf plan.delta).flatMap (b.production plan.manifest now).passed ++ b.settings.manifestPath.way

theorem confined_execute (ordered : disk.IsOrdered)
    (executed : b.execute plan now ⟨disk, notes, {}⟩ = (last, .ok ())) :
    Disk.Confined disk last.disk (b.writes plan now) (b.passes plan now) := by
  obtain ⟨middle, handled, others⟩ := andThen_eq_ok.mp executed
  obtain ⟨saving, saved, recorded⟩ := andThen_eq_ok.mp others
  cases recorded
  have run := confined_handleAll (by exact ordered) handled
  exact run.trans (Disk.save_confined run.ordered (save_eq_ok saved).1)

theorem isPlain_of_mem_writes : ∀ place ∈ b.writes plan now, ∀ name ∈ place, Path.IsPlain name := by
  refine List.forall_mem_append.mpr ⟨fun place written => ?_,
    List.forall_mem_singleton.mpr Path.isPlain_of_mem_target⟩
  obtain ⟨item, _, touched⟩ := List.mem_flatMap.mp written
  rw [Production.touched] at touched
  split at touched
  · rw [List.mem_singleton.mp touched]
    exact Path.isPlain_of_mem_target
  · obtain ⟨output, _, rfl⟩ := Option.map_eq_some_iff.mp (Option.mem_toList.mp touched)
    exact Path.isPlain_of_mem_target

theorem isPlain_of_mem_passes : ∀ place ∈ b.passes plan now, ∀ name ∈ place, Path.IsPlain name := by
  refine List.forall_mem_append.mpr ⟨fun place passed => ?_, Path.isPlain_of_mem_way⟩
  obtain ⟨item, _, inItem⟩ := List.mem_flatMap.mp passed
  rw [Production.passed] at inItem
  cases wanted : (b.production plan.manifest now).wanted? item.1 item.2 with
  | none =>
      rw [wanted] at inItem
      cases inItem
  | some output =>
      rw [wanted] at inItem
      exact Path.isPlain_of_mem_way place inItem

/-- A build keeps a disk as file systems have them. -/
theorem isProper_of_execute (proper : disk.IsProper)
    (executed : b.execute plan now ⟨disk, notes, {}⟩ = (last, .ok ())) : last.disk.IsProper :=
  (confined_execute proper.ordered executed).isProper proper isPlain_of_mem_writes isPlain_of_mem_passes

end Builder

end WorkspaceBuild
