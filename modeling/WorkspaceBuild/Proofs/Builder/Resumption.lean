import WorkspaceBuild.Proofs.Builder.Convergence
import WorkspaceBuild.Proofs.Builder.Failures
import WorkspaceBuild.Proofs.Delta.Remainders

/-! # Builds are taken up again

The manifest is written last, and an event that fails leaves its output as it was, unless the write
of it broke off. So planning again after a build that has failed on its way finds what was left to do:
the event that has failed and those after it, called as they were.
-/

namespace WorkspaceBuild

namespace Disk

variable {before after : Disk} {places : List Place}

/-- Nothing has changed but the times of the files at some places; folders have the times that they
had. -/
structure FilesRetimed (before after : Disk) (places : List Place) : Prop
    extends Retimed before after places where
  folders : ∀ place, before.HoldsFolder place → after.timeAt? place = before.timeAt? place

namespace FilesRetimed

theorem refl (proper : before.IsProper) (places : List Place) : FilesRetimed before before places :=
  ⟨.refl proper places, fun _ _ => rfl⟩

theorem modified?_eq (h : FilesRetimed before after places) {path : Path}
    (other : path.target ∉ places) : after.modified? path = before.modified? path := by
  have times : after.timeAt? path.target = before.timeAt? path.target := by
    by_cases held : before.Holds path.target
    · rcases holds_cases held with isFile | folder
      · exact timeAt?_of_fileAt? isFile (h.files _ other)
      · exact h.folders _ folder
    · have notHeld : ¬ after.Holds path.target := by rwa [Holds, h.kindAt?_eq]
      rw [← isSome_timeAt?_iff, Option.not_isSome_iff_eq_none] at held notHeld
      rw [held, notHeld]
  refine Option.ext fun time => ?_
  rw [modified?_eq_some_iff, modified?_eq_some_iff, h.reaches_iff, times]

end FilesRetimed

end Disk

/-- A path crosses what it leads through and out of again. -/
theorem Path.Passes.crosses {path : Path} {place : Place} (h : path.Passes place) :
    path.Crosses place :=
  ⟨h.1, fun above => h.2 (above.trans (List.dropLast_prefix _))⟩

/-- The build before has given the files that are gone the kinds that builds give them. -/
def BuildPlan.IsTyped (plan : BuildPlan) : Prop :=
  ∀ name path category entry, Manifest.listed? (some plan.manifest) name path = none →
    Manifest.listed? plan.previous name path = some (category, entry) →
      entry.kind = fileKind path category

/-- The manifest of the build before is the one that its file holds. -/
theorem Manifest.loadPrevious?_congr {before after : Disk} {path : Path}
    (same : after.contents? path = before.contents? path) :
    loadPrevious? after path = loadPrevious? before path := by
  have isFile : after.isFile path = before.isFile path := by
    rw [Disk.isFile_eq, Disk.isFile_eq, same]
  rw [loadPrevious?, loadPrevious?, isFile]
  split
  · rename_i present
    rw [load, load, Disk.readText_congr same present]
  · rfl

namespace Builder

open Production

variable {σ : Type} {b : Builder σ} {disk later : Disk} {session : Session} {now k : Nat} {notes : σ}
  {plan : BuildPlan} {last : BuildState σ}

/-- Where the output of a file goes that a plan compares: a file of the workspace, or else one that
the build before has tracked. -/
def outputOf? (b : Builder σ) (plan : BuildPlan) (name path : String) : Option Path :=
  ((Manifest.listed? (some plan.manifest) name path).or
    (Manifest.listed? plan.previous name path)).map fun (_, entry) =>
      (moduleOutput b.settings.outputRoot name).join entry.outputPath

theorem outputOf?_of_listed {name path : String} {file : Category × FileEntry}
    (listed : (Manifest.listed? (some plan.manifest) name path).or
      (Manifest.listed? plan.previous name path) = some file) :
    b.outputOf? plan name path =
      some ((moduleOutput b.settings.outputRoot name).join file.2.outputPath) := by
  rw [outputOf?, listed]
  rfl

/-- Different files have different outputs, and no output is in the folder that another one is. -/
def KeepsApart (b : Builder σ) (plan : BuildPlan) : Prop :=
  ∀ name path output other otherPath otherOutput, b.outputOf? plan name path = some output →
    b.outputOf? plan other otherPath = some otherOutput → output.target <+: otherOutput.target →
      (name, path) = (other, otherPath)

/-- A path that planning goes along leads through a folder and out of it again: that of a descriptor,
of the manifest or of an output. -/
inductive Crosses (b : Builder σ) (plan : BuildPlan) (disk : Disk) : Place → Prop where
  | descriptor {folder : Path} {place : Place}
      (opened : Workspace.Opens disk b.settings.workspaceRoot folder)
      (crossed : (folder.join descriptorFile).Crosses place) : Crosses b plan disk place
  | manifest {place : Place} (crossed : b.settings.manifestPath.Crosses place) :
      Crosses b plan disk place
  | output {name path : String} {output : Path} {place : Place}
      (known : b.outputOf? plan name path = some output) (crossed : output.Crosses place) :
      Crosses b plan disk place

/-- Nothing that has been written, deleted or made stands where planning reads or goes along. -/
structure StaysClear (b : Builder σ) (plan : BuildPlan) (written : List Place)
    (disk last later : Disk) : Prop where
  unread : ∀ place, b.Reads disk place ∨ b.Reads later place → place ∉ written
  manifest : b.settings.manifestPath.target ∉ written
  uncrossed : ∀ place, b.Crosses plan disk place ∨ b.Crosses plan later place →
    last.HoldsFolder place → disk.HoldsFolder place

/-- The places of the files that the first events of a plan change. -/
def writtenBefore (b : Builder σ) (plan : BuildPlan) (now k : Nat) : List Place :=
  ((eventsOf plan.delta).take k).flatMap (b.production plan.manifest now).touched

section Events

/-- An event of a plan asks for the output of a file of the workspace, or for that of a file that
only the build before has tracked to be deleted. -/
theorem IsPlanned.event_cases (h : b.IsPlanned disk plan) (now : Nat) {item : String × DeltaEvent}
    (member : item ∈ eventsOf plan.delta) :
    (item.2.action.needsOutput = true ∧ ∃ entry,
      Manifest.listed? (some plan.manifest) item.1 item.2.path = some (item.2.category, entry) ∧
        (b.production plan.manifest now).wanted? item.1 item.2 =
          some ((moduleOutput b.settings.outputRoot item.1).join entry.outputPath)) ∨
    (item.2.action = .removed ∧
      Manifest.listed? (some plan.manifest) item.1 item.2.path = none ∧ ∃ entry,
        Manifest.listed? plan.previous item.1 item.2.path = some (item.2.category, entry)) := by
  obtain ⟨name, event⟩ := item
  rw [mem_eventsOf, h.delta, Delta.reports_iff h.named h.namedBefore] at member
  cases needed : event.action.needsOutput with
  | true =>
      obtain ⟨entry, listed, _⟩ := (Delta.mem_eventsOf_of_needsOutput needed).mp member
      refine .inl ⟨rfl, entry, listed, ?_⟩
      obtain ⟨m, known, inModule⟩ := Option.bind_eq_some_iff.mp listed
      obtain ⟨rfl, sound⟩ := h.sound name m known
      obtain ⟨inEntries, _, path⟩ := Module.mem_of_listed? inModule
      have alike := outputPath_entryOf? sound inEntries path.symm rfl
      rw [Module.outputPath, sound.output] at alike
      rw [wanted?, if_pos needed]
      exact (congrArg (Option.bind · _) known).trans alike
  | false =>
      have removed : event.action = .removed := by
        simpa [DeltaAction.needsOutput] using needed
      obtain ⟨gone, entry, listed, _⟩ := (Delta.mem_eventsOf_of_removed removed).mp member
      exact .inr ⟨removed, gone, entry, listed⟩

/-- The output of the file that an event is about is the file that it changes, and the folders that it
makes are on the way there. -/
theorem IsPlanned.exists_output (h : b.IsPlanned disk plan) (now : Nat) (typed : plan.IsTyped)
    {item : String × DeltaEvent} (member : item ∈ eventsOf plan.delta) :
    ∃ output, b.outputOf? plan item.1 item.2.path = some output ∧
      (b.production plan.manifest now).touched item = [output.target] ∧
        (b.production plan.manifest now).passed item ⊆ output.way := by
  rcases h.event_cases now member with ⟨needed, entry, listed, wanted⟩ | ⟨removed, gone, entry, listed⟩
  · have kept : item.2.action ≠ .removed := by
      intro removed
      simp [removed, DeltaAction.needsOutput] at needed
    refine ⟨_, outputOf?_of_listed (by rw [listed, Option.some_or]), ?_, ?_⟩
    · rw [touched, if_neg kept, wanted]
      rfl
    · rw [passed, wanted, Option.map_some, Option.getD_some]
      exact fun _ onWay => onWay
  · refine ⟨_, outputOf?_of_listed (by rw [gone, Option.none_or, listed]), ?_, ?_⟩
    · obtain ⟨old, _, inModule⟩ := Option.bind_eq_some_iff.mp listed
      obtain ⟨_, _, path⟩ := Module.mem_of_listed? inModule
      have kind := typed _ _ _ _ gone listed
      rw [touched, if_pos removed, goneOutput, FileEntry.outputPath, kind, path]
      rfl
    · rw [passed, wanted?, removed]
      exact List.nil_subset _

/-- Each event of a plan is about a file of its own. -/
theorem IsPlanned.nodup_slots (h : b.IsPlanned disk plan) :
    ((eventsOf plan.delta).map slotOf).Nodup := by
  rw [eventsOf, List.map_flatMap, List.nodup_flatMap]
  constructor
  · rintro ⟨name, events⟩ listed
    rw [h.eq_eventsOf listed, List.map_map]
    have paths := Delta.nodup_eventsOf disk b.settings.outputRoot name (plan.manifest.module? name)
      (plan.previous.bind fun o => o.module? name)
    exact (List.Nodup.of_map Prod.snd) (by simpa [slotOf, Function.comp_def] using paths)
  · refine (List.pairwise_map.mp h.isAscending).imp fun less slot listed listedToo => ?_
    simp only [List.mem_map] at listed listedToo
    obtain ⟨_, ⟨_, _, rfl⟩, rfl⟩ := listed
    obtain ⟨_, ⟨_, _, rfl⟩, same⟩ := listedToo
    have names := congrArg Prod.fst same
    exact absurd names.symm (ne_of_lt (compareOfLessAndEq_eq_lt.mp less))

end Events

section Failures

/-- A build with a host has failed at an event of its plan, but has not broken off. The outputs keep
apart, and no folder has been made that leads an output through itself and out again. -/
structure HasFailed (b : Builder σ) (plan : BuildPlan) (now k : Nat) (disk : Disk) (notes : σ)
    (last : BuildState σ) : Prop where
  hosted : b.host.isSome
  ordered : disk.IsOrdered
  planned : b.IsPlanned disk plan
  typed : plan.IsTyped
  apart : b.KeepsApart plan
  fails : (b.production plan.manifest now).FailsAt ⟨disk, notes, {}⟩ (eventsOf plan.delta) k last
  whole : ¬ (b.production plan.manifest now).BreaksAt ⟨disk, notes, {}⟩ (eventsOf plan.delta) k
  uncrossed : ∀ name path output place, b.outputOf? plan name path = some output →
    output.Crosses place → last.disk.HoldsFolder place → disk.HoldsFolder place

namespace HasFailed

variable {name path : String} {output : Path} {item : String × DeltaEvent}

/-- What the build has done is confined to the outputs of the files that come before. -/
theorem confined (h : b.HasFailed plan now k disk notes last) :
    Disk.Confined disk last.disk (b.writtenBefore plan now k)
      (((eventsOf plan.delta).take (k + 1)).flatMap (b.production plan.manifest now).passed) :=
  h.fails.confined h.whole h.ordered

/-- The files that have been written are outputs of other files than the one at hand. -/
theorem not_prefix_of_written (h : b.HasFailed plan now k disk notes last)
    (known : b.outputOf? plan name path = some output) {events : List (String × DeltaEvent)}
    (part : events ⊆ eventsOf plan.delta) (other : (name, path) ∉ events.map slotOf) {place : Place}
    (written : place ∈ events.flatMap (b.production plan.manifest now).touched) :
    ¬ output.target <+: place := by
  intro below
  obtain ⟨item, listed, inItem⟩ := List.mem_flatMap.mp written
  obtain ⟨itemOutput, knownToo, places, _⟩ := h.planned.exists_output now h.typed (part listed)
  rw [places, List.mem_singleton] at inItem
  subst inItem
  refine other (List.mem_map.mpr ⟨item, listed, ?_⟩)
  exact (h.apart _ _ _ _ _ _ known knownToo below).symm

/-- No folder is new at or below an output. -/
theorem holdsFolder_of_passed (h : b.HasFailed plan now k disk notes last)
    (known : b.outputOf? plan name path = some output) {place : Place} (below : output.target <+: place)
    (member : item ∈ eventsOf plan.delta)
    (onWay : place ∈ (b.production plan.manifest now).passed item)
    (folder : last.disk.HoldsFolder place) : disk.HoldsFolder place := by
  obtain ⟨itemOutput, knownToo, _, way⟩ := h.planned.exists_output now h.typed member
  by_cases above : place <+: itemOutput.target.dropLast
  · -- an output is below no other one, and below itself at the root only
    have within := above.trans (List.dropLast_prefix _)
    obtain ⟨rfl, rfl⟩ := Prod.mk.inj (h.apart _ _ _ _ _ _ known knownToo (below.trans within))
    obtain rfl : output = itemOutput := Option.some_inj.mp (known.symm.trans knownToo)
    have shorter := (below.trans above).length_le
    rw [List.length_dropLast] at shorter
    have root : output.target = [] := List.length_eq_zero_iff.mp (by omega)
    rw [root] at above
    rw [List.prefix_nil.mp above]
    exact Disk.holdsFolder_root
  · exact h.uncrossed _ _ _ _ knownToo ⟨way onWay, above⟩ folder

/-- The outputs of files that no event before was about are as they were. -/
theorem modified?_eq (h : b.HasFailed plan now k disk notes last)
    (known : b.outputOf? plan name path = some output)
    (other : (name, path) ∉ ((eventsOf plan.delta).take k).map slotOf) :
    last.disk.modified? output = disk.modified? output := by
  have changes := h.confined
  refine changes.modified?_eq (fun place written => ?_) (fun place below folder => ?_)
    fun place crossed => h.uncrossed _ _ _ _ known crossed
  · exact h.not_prefix_of_written known (List.take_subset _ _) other written
  · rcases changes.made place folder with was | new
    · exact was
    · obtain ⟨item, listed, onWay⟩ := List.mem_flatMap.mp new
      exact h.holdsFolder_of_passed known below (List.mem_of_mem_take listed) onWay folder

/-- The event of a file is handled, and those after it are about other files. -/
theorem exists_effect (h : b.HasFailed plan now k disk notes last)
    (member : item ∈ (eventsOf plan.delta).take k) :
    ∃ first next after, Disk.KeepsFolders disk first.disk ∧
      Effect (b.production plan.manifest now) item first next ∧
        Disk.Confined next.disk last.disk (after.flatMap (b.production plan.manifest now).touched)
          (((eventsOf plan.delta).take (k + 1)).flatMap (b.production plan.manifest now).passed) ∧
            after ⊆ eventsOf plan.delta ∧ slotOf item ∉ after.map slotOf := by
  obtain ⟨before, after, split⟩ := List.append_of_mem member
  obtain ⟨first, next, start, effect, later⟩ := h.fails.exists_effect h.whole h.hosted h.ordered split
    (h.planned.reaches_goneOutput (List.mem_of_mem_take member))
  have once := h.planned.nodup_slots.sublist ((List.take_sublist k _).map slotOf)
  rw [split, List.map_append, List.map_cons] at once
  have part : after ⊆ (eventsOf plan.delta).take k := by
    rw [split]
    exact fun item listed => List.mem_append_right _ (List.mem_cons_of_mem _ listed)
  exact ⟨first, next, after, start, effect, later, List.Subset.trans part (List.take_subset _ _),
    (List.nodup_cons.mp (List.nodup_append'.mp once).2.1).1⟩

/-- The output of a file that has been produced is there. -/
theorem isSome_modified? (h : b.HasFailed plan now k disk notes last)
    (member : item ∈ (eventsOf plan.delta).take k)
    (known : b.outputOf? plan item.1 item.2.path = some output)
    (wanted : (b.production plan.manifest now).wanted? item.1 item.2 = some output) :
    (last.disk.modified? output).isSome := by
  obtain ⟨first, next, after, _, effect, later, part, other⟩ := h.exists_effect member
  obtain ⟨reaches, atTarget⟩ := effect.produced output wanted
  have makes : (b.production plan.manifest now).Makes item output.target := ⟨output, wanted, atTarget⟩
  have held : next.disk.Holds output.target :=
    (effect.holds_iff _).mpr ⟨.inr makes, makes.not_clears _⟩
  refine Disk.modified?_isSome_iff.mpr ⟨later.keepsFolders.reaches reaches, ?_⟩
  rcases Disk.holds_cases held with isFile | folder
  · have unchanged := later.keepsFiles output.target fun written =>
      h.not_prefix_of_written known part other written List.prefix_rfl
    rw [Disk.kindAt?_eq_true_iff, ← unchanged, ← Disk.kindAt?_eq_true_iff] at isFile
    rw [Disk.Holds, isFile]
    rfl
  · exact (later.keepsFolders _ folder).holds

/-- The output of a file that is gone has been deleted, if the event has been handled. -/
theorem modified?_eq_none (h : b.HasFailed plan now k disk notes last)
    (member : item ∈ (eventsOf plan.delta).take k) (removed : item.2.action = .removed)
    (known : b.outputOf? plan item.1 item.2.path = some output) :
    last.disk.modified? output = none := by
  obtain ⟨first, next, after, start, effect, later, part, other⟩ := h.exists_effect member
  obtain ⟨itemOutput, same, places, _⟩ :=
    h.planned.exists_output now h.typed (List.mem_of_mem_take member)
  obtain rfl : output = itemOutput := Option.some_inj.mp (known.symm.trans same)
  rw [touched, if_pos removed, List.cons.injEq] at places
  have gone : ¬ next.disk.Holds output.target := fun held =>
    ((effect.holds_iff _).mp held).2 ⟨removed, places.1⟩
  rw [← Option.not_isSome_iff_eq_none, Disk.modified?_isSome_iff]
  rintro ⟨_, held⟩
  refine gone ?_
  rcases Disk.holds_cases held with isFile | folder
  · have unchanged := later.keepsFiles output.target fun written =>
      h.not_prefix_of_written known part other written List.prefix_rfl
    rw [Disk.kindAt?_eq_true_iff, unchanged, ← Disk.kindAt?_eq_true_iff] at isFile
    rw [Disk.Holds, isFile]
    rfl
  · rcases later.made _ folder with was | new
    · exact was.holds
    · obtain ⟨item, listed, onWay⟩ := List.mem_flatMap.mp new
      have was := h.holdsFolder_of_passed known List.prefix_rfl (List.mem_of_mem_take listed) onWay folder
      exact (effect.folders _ (start _ was)).holds

/-- Once outputs that have been produced are not older than their files, what remains are the events
from the one that has failed on. -/
theorem remains (h : b.HasFailed plan now k disk notes last)
    (retimed : last.disk.FilesRetimed later (b.writtenBefore plan now k))
    (fresh : ∀ name path category entry, (name, path) ∈ ((eventsOf plan.delta).take k).map slotOf →
      Manifest.listed? (some plan.manifest) name path = some (category, entry) → ∀ time,
        Delta.outputTime? later (moduleOutput b.settings.outputRoot name) entry = some time →
          entry.updated ≤ time) :
    Delta.Remains disk later b.settings.outputRoot plan.manifest plan.previous
      fun name path => (name, path) ∈ ((eventsOf plan.delta).take k).map slotOf where
  produced := by
    rintro name path category entry done listed (missing | ⟨time, seen, older⟩)
    · obtain ⟨item, member, same⟩ := List.mem_map.mp done
      obtain ⟨rfl, rfl⟩ := Prod.mk.inj same
      have known : b.outputOf? plan item.1 item.2.path = some _ :=
        outputOf?_of_listed (by rw [listed, Option.some_or])
      rcases h.planned.event_cases now (List.mem_of_mem_take member) with
        ⟨_, other, alsoListed, wanted⟩ | ⟨_, gone, _⟩
      · cases listed.symm.trans alsoListed
        have present := h.isSome_modified? member known wanted
        rw [← retimed.isSome_modified?] at present
        rw [Delta.outputTime?] at missing
        rw [missing] at present
        cases present
      · cases listed.symm.trans gone
    · exact absurd (fresh name path category entry done listed time seen) (Nat.not_le_of_lt older)
  gone := by
    intro name path category entry done notListed listed
    obtain ⟨item, member, same⟩ := List.mem_map.mp done
    obtain ⟨rfl, rfl⟩ := Prod.mk.inj same
    have known : b.outputOf? plan item.1 item.2.path = some _ :=
      outputOf?_of_listed (by rw [notListed, Option.none_or, listed])
    rcases h.planned.event_cases now (List.mem_of_mem_take member) with
      ⟨_, _, inNew, _⟩ | ⟨removed, _⟩
    · cases notListed.symm.trans inNew
    · have none := h.modified?_eq_none member removed known
      rwa [← Option.not_isSome_iff_eq_none, ← retimed.isSome_modified?,
        Option.not_isSome_iff_eq_none] at none
  kept := by
    intro name path category entry other listed
    have known : b.outputOf? plan name path = some _ := outputOf?_of_listed listed
    have unwritten : ((moduleOutput b.settings.outputRoot name).join entry.outputPath).target ∉
        b.writtenBefore plan now k := fun written =>
      h.not_prefix_of_written known (List.take_subset _ _) other written List.prefix_rfl
    exact (retimed.modified?_eq unwritten).trans (h.modified?_eq known other)

end HasFailed

end Failures

/-- A build whose plan fails at an event fails, and leaves what the event has left. -/
theorem exists_build_of_failsAt (planned : (b.plan disk session now).2 = .ok plan)
    (fails : (b.production plan.manifest now).FailsAt ⟨disk, notes, {}⟩ (eventsOf plan.delta) k last) :
    ∃ e, b.build session now disk notes =
      ((b.plan disk session now).1, last, .error (.failed e)) := by
  obtain ⟨e, handled⟩ := exists_failsAt_iff.mp ⟨k, fails⟩
  have executed : b.execute plan now ⟨disk, notes, {}⟩ = (last, .error (.failed e)) := by
    change andThen ((b.production plan.manifest now).handleAll _ _) _ = _
    rw [handled]
    rfl
  have same := eq_mk_of_snd planned
  generalize (b.plan disk session now).1 = next at same ⊢
  refine ⟨e, ?_⟩
  unfold build
  simp only [same, executed]
  rfl

/-- A build fails at an event of its plan, other than by breaking off while an output is written. It
leaves the manifest as it is, and once the outputs that it has produced are not older than their files,
planning again finds the events from that one on. -/
theorem resumes_of_build (hosted : b.host.isSome) (proper : disk.IsProper) (isOf : session.IsOf disk)
    (planned : (b.plan disk session now).2 = .ok plan) (typed : plan.IsTyped)
    (apart : b.KeepsApart plan)
    (fails : (b.production plan.manifest now).FailsAt ⟨disk, notes, {}⟩ (eventsOf plan.delta) k last)
    (whole : ¬ (b.production plan.manifest now).BreaksAt ⟨disk, notes, {}⟩ (eventsOf plan.delta) k)
    (retimed : last.disk.FilesRetimed later (b.writtenBefore plan now k))
    (clear : b.StaysClear plan (b.writtenBefore plan now k) disk last.disk later)
    (fresh : ∀ name m path file, (name, path) ∈ ((eventsOf plan.delta).take k).map slotOf →
      plan.manifest.module? name = some m → m.tracked.get? path = some file → ∀ time,
        later.modified? (m.outputPath file.entry) = some time → file.entry.updated ≤ time)
    {again : Session} (kept : again = (b.plan disk session now).1 ∨ again.IsOf later) (soon : Nat) :
    (∃ e, b.build session now disk notes =
        ((b.plan disk session now).1, last, .error (.failed e))) ∧
      last.disk.fileAt? b.settings.manifestPath.target =
          disk.fileAt? b.settings.manifestPath.target ∧
        ∃ replan, (b.plan later again soon).2 = .ok replan ∧
          eventsOf replan.delta = (eventsOf plan.delta).drop k := by
  have isPlanned := isPlanned_of_plan isOf.isClassified planned
  have failed : b.HasFailed plan now k disk notes last :=
    { hosted, typed, apart, fails, whole, ordered := proper.ordered, planned := isPlanned
      uncrossed := fun _ _ _ place known crossed => clear.uncrossed place (.inl (.output known crossed)) }
  have changes := failed.confined
  have grown : Disk.KeepsFolders disk later := fun place folder =>
    (retimed.holdsFolder_iff place).mpr (changes.keepsFolders place folder)
  have unchanged {place : Place} (unwritten : place ∉ b.writtenBefore plan now k) :
      later.fileAt? place = disk.fileAt? place :=
    (retimed.files place unwritten).trans (changes.keepsFiles place unwritten)
  have uncrossed {place : Place} (crossed : b.Crosses plan disk place ∨ b.Crosses plan later place)
      (folder : later.HoldsFolder place) : disk.HoldsFolder place :=
    clear.uncrossed place crossed ((retimed.holdsFolder_iff place).mp folder)
  have spares : b.SparesModules disk later :=
    .of_reads proper retimed.proper grown (fun place reads => unchanged (clear.unread place reads))
      fun folder place opens passed => uncrossed
        (opens.imp (.descriptor · passed.crosses) (.descriptor · passed.crosses))
  have previous : Manifest.loadPrevious? later b.settings.manifestPath = plan.previous := by
    obtain ⟨_, _, _, _, rfl⟩ := plan_eq_ok_iff.mp planned
    exact Manifest.loadPrevious?_congr (Disk.contents?_congr grown (unchanged clear.manifest)
      fun place passed => uncrossed (.inl (.manifest passed.crosses)))
  have remains := failed.remains retimed fun name path category entry done listed time seen => by
    obtain ⟨m, known, inModule⟩ := Option.bind_eq_some_iff.mp listed
    obtain ⟨rfl, sound⟩ := isPlanned.sound name m known
    rw [sound.outputTime?_eq] at seen
    exact fresh m.name m path ⟨category, entry⟩ done known
      (by rw [Module.get?_tracked, inModule]; rfl) time seen
  have events := eventsOf_of_remains remains isPlanned.named isPlanned.namedBefore
  rw [← isPlanned.delta] at events
  refine ⟨exists_build_of_failsAt planned fails, changes.keepsFiles _ clear.manifest, _,
    spares.plan isOf planned kept soon, ?_⟩
  rw [planFor, previous]
  refine events.trans (Eq.trans ?_ (filter_eq_drop isPlanned.nodup_slots k))
  exact List.filter_congr fun item _ => decide_eq_decide.mpr Iff.rfl

/-- A file that a plan compares is listed by its manifest or by that of the build before. -/
theorem exists_entry_of_outputOf? {name path : String} {output : Path}
    (known : b.outputOf? plan name path = some output) :
    ∃ manifest m category entry, (manifest = plan.manifest ∨ plan.previous = some manifest) ∧
      manifest.module? name = some m ∧ (category, entry) ∈ m.entries ∧ entry.path = path ∧
        output = (moduleOutput b.settings.outputRoot name).join entry.outputPath := by
  obtain ⟨⟨category, entry⟩, listed, rfl⟩ := Option.map_eq_some_iff.mp known
  have inOne : ∃ manifest, (manifest = plan.manifest ∨ plan.previous = some manifest) ∧
      Manifest.listed? (some manifest) name path = some (category, entry) := by
    rcases Option.or_eq_some_iff.mp listed with inNew | ⟨_, inOld⟩
    · exact ⟨_, .inl rfl, inNew⟩
    · obtain ⟨_, known, _⟩ := Option.bind_eq_some_iff.mp inOld
      obtain ⟨old, isOld, _⟩ := Option.bind_eq_some_iff.mp known
      exact ⟨old, .inr isOld, by rw [← isOld]; exact inOld⟩
  obtain ⟨manifest, which, inManifest⟩ := inOne
  obtain ⟨m, found, inModule⟩ := Option.bind_eq_some_iff.mp inManifest
  obtain ⟨member, _, same⟩ := Module.mem_of_listed? inModule
  exact ⟨manifest, m, category, entry, which, found, member, same, rfl⟩

/-- Whether outputs keep apart can be checked on a table of them. -/
theorem keepsApart_of_table (table : List ((String × String) × Path))
    (whole : ∀ name path output, b.outputOf? plan name path = some output →
      ((name, path), output) ∈ table)
    (apart : ∀ first ∈ table, ∀ second ∈ table, first.2.target <+: second.2.target →
      first.1 = second.1) : b.KeepsApart plan := by
  intro name path output other otherPath otherOutput known knownToo below
  exact apart _ (whole name path output known) _ (whole other otherPath otherOutput knownToo) below

/-- The workspace of one module reads below its own folder. -/
theorem within_of_reads_lone {disk : Disk}
    (loaded : Workspace.load disk ⟨"/w"⟩ = .ok renamedWorkspace) {place : Place}
    (reads : (loneBuilder ⟨"/o"⟩).Reads disk place) : ["w"] <+: place := by
  have inside : ∀ place ∈ ["w", "package.json"] :: lockPlaces, ["w"] <+: place := by decide
  have target : loneScope.folder.target = ["w"] := by decide
  rcases reads_lone loaded reads with listed | rfl | ⟨_, _, names, _, _, rfl⟩
  · exact inside place listed
  · exact target ▸ List.prefix_rfl
  · exact target ▸ List.prefix_append _ _

theorem not_within_of_below {place : Place} (below : ["o"] <+: place) : ¬ ["w"] <+: place := by
  rintro ⟨_, inW⟩
  obtain ⟨_, inO⟩ := below
  exact absurd (List.cons.inj (inW.trans inO.symm)).1 (by decide)

/-! The first build of a workspace whose source no host knows. -/

section Halted

def haltedBuilder (manifestPath : Path) : Builder Unit :=
  { loneBuilder ⟨"/o"⟩ with
    settings := { (loneBuilder ⟨"/o"⟩).settings with manifestPath }
    host := some (UnitHost.compiler ⟨[], .ofTables default [] []⟩) }

/-- The disk with a text in the output of the descriptor. -/
def copiedDisk (text : String) : Disk :=
  ⟨("o", .folder [("node_modules", .folder [("w", .folder [("package.json",
    .file (.text text) 9)] 9)] 9)] 9) :: loneDisk.entries⟩

/-- The disk that the build leaves. -/
def haltedLast : Disk := copiedDisk "\x7b\x7d"

theorem load_halted : Workspace.load haltedLast ⟨"/w"⟩ = .ok renamedWorkspace :=
  eq_ok_of_toOption (by decide)

variable {manifestPath : Path}

def haltedTable : List ((String × String) × Path) :=
  [(("w", "package.json"), ⟨"/o/node_modules/w/package.json"⟩),
    (("w", "src/a.ts"), ⟨"/o/node_modules/w/src/a.js"⟩)]

theorem outputOf?_halted {name path : String} {output : Path}
    (known : (haltedBuilder manifestPath).outputOf? (lonePlan ⟨"/o"⟩) name path = some output) :
    ((name, path), output) ∈ haltedTable := by
  obtain ⟨manifest, m, category, entry, rfl | none, found, member, rfl, rfl⟩ :=
    exists_entry_of_outputOf? known
  · cases List.mem_singleton.mp (Assoc.mem_of_get? found)
    have all : ∀ pair ∈ (loneModule ⟨"/o"⟩).entries,
        (("w", pair.2.path), (moduleOutput ⟨"/o"⟩ "w").join pair.2.outputPath) ∈ haltedTable := by
      decide
    exact all _ member
  · cases none

theorem keepsApart_halted : (haltedBuilder manifestPath).KeepsApart (lonePlan ⟨"/o"⟩) :=
  keepsApart_of_table haltedTable (fun _ _ _ => outputOf?_halted) (by decide)

theorem isTyped_lone : (lonePlan ⟨"/o"⟩).IsTyped := by
  intro name path category entry _ listed
  cases listed

set_option maxRecDepth 4000

/-- What comes of the first event. -/
def haltedRun (manifestPath : Path) : Production.Step Unit :=
  ((haltedBuilder manifestPath).production (lonePlan ⟨"/o"⟩).manifest 9).handle
    ⟨loneDisk, (), {}⟩ "w" ⟨"package.json", .package, .added⟩

/-- The descriptor is copied, and then the source cannot be parsed. -/
theorem failsAt_halted (manifestPath : Path)
    (copied : (haltedRun manifestPath).2.toOption = some () ∧
      (haltedRun manifestPath).1.disk.entries = haltedLast.entries) :
    ∃ last, ((haltedBuilder manifestPath).production (lonePlan ⟨"/o"⟩).manifest 9).FailsAt
      ⟨loneDisk, (), {}⟩ (eventsOf (lonePlan ⟨"/o"⟩).delta) 1 last ∧ last.disk = haltedLast := by
  obtain ⟨middle, first, disk⟩ := exists_mk_of_outcome copied
  refine ⟨middle, ⟨("w", ⟨"src/a.ts", .src, .added⟩), middle,
    .transform (.unitNotFound ⟨"/w/src/a.ts"⟩), rfl, ?_, ?_⟩, disk⟩
  · rw [eventsOf_lone]
    exact andThen_eq_ok.mpr ⟨middle, first, rfl⟩
  · let entry : FileEntry := ⟨"src/a.ts", .source, 7, none, []⟩
    have source : (loneModule ⟨"/o"⟩).sourcePath entry = ⟨"/w/src/a.ts"⟩ := by decide
    have read : middle.disk.readText ⟨"/w/src/a.ts"⟩ = .ok "" := by
      rw [disk]
      exact eq_ok_of_toOption (by decide)
    change transform ((haltedBuilder manifestPath).production (lonePlan ⟨"/o"⟩).manifest 9)
      (UnitHost.compiler ⟨[], .ofTables default [] []⟩) ((loneModule ⟨"/o"⟩).sourcePath entry)
        ((loneModule ⟨"/o"⟩).outputPath entry) middle = _
    rw [source, transform, read]
    rfl

theorem delta_lone : Delta.between loneDisk ⟨"/o"⟩ (loneManifest ⟨"/o"⟩ .npm 9) none =
    (lonePlan ⟨"/o"⟩).delta := by
  decide

theorem reads_halted {disk : Disk} {place : Place}
    (reads : (haltedBuilder manifestPath).Reads disk place) :
    (loneBuilder ⟨"/o"⟩).Reads disk place := by
  cases reads with
  | descriptor opened => exact .descriptor opened
  | lockFile listed => exact .lockFile listed
  | scanned found listed looked => exact .scanned found listed looked

/-- What is below `/o` is not read. -/
theorem unread_halted {written : List Place} (below : ∀ place ∈ written, ["o"] <+: place)
    {place : Place} (reads : (haltedBuilder manifestPath).Reads loneDisk place ∨
      (haltedBuilder manifestPath).Reads haltedLast place) : place ∉ written := by
  intro listed
  refine not_within_of_below (below _ listed) ?_
  exact reads.elim (fun reads => within_of_reads_lone facts_lone.2.1 (reads_halted reads))
    fun reads => within_of_reads_lone load_halted (reads_halted reads)

/-- No path of the workspace leads through a folder and out of it again, if that of the manifest does
not. -/
theorem not_crosses_halted
    (straight : ∀ place ∈ manifestPath.way, place <+: manifestPath.target.dropLast) {disk : Disk}
    (loaded : Workspace.load disk ⟨"/w"⟩ = .ok renamedWorkspace) {place : Place} :
    ¬ (haltedBuilder manifestPath).Crosses (lonePlan ⟨"/o"⟩) disk place := by
  have noTurns : ∀ path ∈ (Path.join ⟨"/w"⟩ descriptorFile) :: haltedTable.map Prod.snd,
      ∀ place ∈ path.way, place <+: path.target.dropLast := by decide
  intro crosses
  cases crosses with
  | descriptor opened crossed =>
      obtain rfl := opens_lone (Workspace.load_eq_ok_iff.mp loaded).2.1 opened
      exact crossed.2 (noTurns _ List.mem_cons_self place crossed.1)
  | manifest crossed => exact crossed.2 (straight place crossed.1)
  | output known crossed =>
      have listed : _ ∈ haltedTable.map Prod.snd := List.mem_map.mpr ⟨_, outputOf?_halted known, rfl⟩
      exact crossed.2 (noTurns _ (List.mem_cons_of_mem _ listed) place crossed.1)

theorem fresh_halted {name path : String} {m : Module} {file : TrackedFile}
    (done : (name, path) ∈ ((eventsOf (lonePlan ⟨"/o"⟩).delta).take 1).map slotOf)
    (found : (lonePlan ⟨"/o"⟩).manifest.module? name = some m)
    (tracked : m.tracked.get? path = some file) {time : Nat}
    (seen : haltedLast.modified? (m.outputPath file.entry) = some time) :
    file.entry.updated ≤ time := by
  have known : (loneModule ⟨"/o"⟩).tracked.get? "package.json" =
      some ⟨.package, ⟨"package.json", .package, 5, none, []⟩⟩ := by decide
  have nine : haltedLast.modified? ((loneModule ⟨"/o"⟩).outputPath
      ⟨"package.json", .package, 5, none, []⟩) = some 9 := by decide
  obtain ⟨rfl, rfl⟩ := Prod.mk.inj (List.mem_singleton.mp done)
  cases List.mem_singleton.mp (Assoc.mem_of_get? found)
  cases known.symm.trans tracked
  cases nine.symm.trans seen
  decide

end Halted

/-- Building the workspace fails at its source, and planning again finds that only. -/
theorem resumes_of_build_halted : (haltedBuilder ⟨"/m"⟩).host.isSome ∧ loneDisk.IsProper ∧
    Session.empty.IsOf loneDisk ∧ (lonePlan ⟨"/o"⟩).IsTyped ∧
    (haltedBuilder ⟨"/m"⟩).KeepsApart (lonePlan ⟨"/o"⟩) ∧ ∃ next last e,
      (haltedBuilder ⟨"/m"⟩).build .empty 9 loneDisk () = (next, last, .error (.failed e)) ∧
        ∃ replan, ((haltedBuilder ⟨"/m"⟩).plan last.disk .empty 10).2 = .ok replan ∧
          eventsOf replan.delta = [("w", ⟨"src/a.ts", .src, .added⟩)] := by
  obtain ⟨proper, loaded, first⟩ := facts_lone
  have planned : ((haltedBuilder ⟨"/m"⟩).plan loneDisk .empty 9).2 = .ok (lonePlan ⟨"/o"⟩) :=
    plan_of_load loaded (eq_ok_of_toOption (by decide)) first delta_lone
  obtain ⟨last, fails, disk⟩ := failsAt_halted ⟨"/m"⟩ (by decide +kernel)
  have whole : ¬ ((haltedBuilder ⟨"/m"⟩).production (lonePlan ⟨"/o"⟩).manifest 9).BreaksAt
      ⟨loneDisk, (), {}⟩ (eventsOf (lonePlan ⟨"/o"⟩).delta) 1 := not_breaksAt_of_sound rfl
  have properAfter : haltedLast.IsProper := by decide
  have written : (∀ place ∈ (haltedBuilder ⟨"/m"⟩).writtenBefore (lonePlan ⟨"/o"⟩) 9 1,
      ["o"] <+: place) ∧ Path.target ⟨"/m"⟩ ∉
        (haltedBuilder ⟨"/m"⟩).writtenBefore (lonePlan ⟨"/o"⟩) 9 1 := by decide
  have straight : ∀ place ∈ Path.way ⟨"/m"⟩, place <+: (Path.target ⟨"/m"⟩).dropLast := by
    decide
  have clear : (haltedBuilder ⟨"/m"⟩).StaysClear (lonePlan ⟨"/o"⟩)
      ((haltedBuilder ⟨"/m"⟩).writtenBefore (lonePlan ⟨"/o"⟩) 9 1) loneDisk haltedLast haltedLast :=
    { unread := fun _ => unread_halted written.1
      manifest := written.2
      uncrossed := fun _ crosses _ => (crosses.elim (not_crosses_halted straight facts_lone.2.1)
        (not_crosses_halted straight load_halted)).elim }
  have retimed : last.disk.FilesRetimed last.disk
      ((haltedBuilder ⟨"/m"⟩).writtenBefore (lonePlan ⟨"/o"⟩) 9 1) := by
    rw [disk]
    exact .refl properAfter _
  have outcome := resumes_of_build rfl proper (Session.isOf_empty _) planned isTyped_lone
    keepsApart_halted fails whole retimed (by rw [disk]; exact clear)
    (fun name m path file done found tracked time seen =>
      fresh_halted done found tracked (disk ▸ seen))
    (.inr (Session.isOf_empty _)) 10
  obtain ⟨⟨e, built⟩, _, replan, replanned, events⟩ := outcome
  exact ⟨rfl, proper, Session.isOf_empty _, isTyped_lone, keepsApart_halted, _, last, e, built,
    replan, replanned, events⟩

/-! A workspace whose build before has left a manifest that no build writes: it says that a file with
the extension of a source is compiled, and the path of another file leads through a folder and out of
it again. -/

section Crossed

def crossedPieces : List String :=
  renamedPieces.take 21 ++ ["\"src\":[\x7b\"path\":\"src/b.ts\",", "\"type\":\"compiled\",",
    "\"updated\":5\x7d,\x7b\"path\":\"src/c.js\",", "\"type\":\"compiled\",", "\"updated\":5\x7d],",
    "\"doc\":[\x7b\"path\":\"doc/../c.js\",", "\"type\":\"compiled\",",
    "\"updated\":5\x7d]\x7d\x7d\x7d\x7d"]

/-- The text of the manifest. -/
def crossedText : String := .join crossedPieces

def crossedBefore : Manifest :=
  renamedManifest 0 (renamedModule [] [(.src, [⟨"src/b.ts", .compiled, 5, none, []⟩,
    ⟨"src/c.js", .compiled, 5, none, []⟩]), (.doc, [⟨"doc/../c.js", .compiled, 5, none, []⟩])])

/-- The disk with some outputs. -/
def crossedDisk (outputs : Item) : Disk :=
  ⟨[("m", .file (.text crossedText) 5), ("o", .folder [("node_modules", .folder [("w", outputs)] 5)] 5),
    ("w", .folder [("doc", .folder [("x.md", .file (.text "") 7)] 5),
      ("package.json", .file (.text "\x7b\x7d") 5)] 5)]⟩

/-- The outputs of the build before; a folder is where one was. -/
def crossedOutputs : Item :=
  .folder [("c.js", .file (.text "") 5), ("src", .folder [("b.ts", .file (.text "") 5),
    ("c.js", .folder [] 5)] 5)] 5

/-- The outputs that the build leaves. -/
def crossedLater : Item :=
  .folder [("c.js", .file (.text "") 5), ("doc", .folder [("x.md", .file (.text "") 9)] 9),
    ("package.json", .file (.text "\x7b\x7d") 9), ("src", .folder [("b.ts", .file (.text "") 5),
      ("c.js", .folder [] 5)] 5)] 9

def crossedManifest (generated : Nat) : Manifest :=
  renamedManifest generated (renamedModule [.standard]
    [(.package, [⟨"package.json", .package, 5, none, []⟩]),
      (.doc, [⟨"doc/x.md", .markdown, 7, some .doc, []⟩])])

def crossedPlan : BuildPlan where
  manifest := crossedManifest 9
  previous := some crossedBefore
  delta := [("w", [⟨"doc/x.md", .doc, .added⟩, ⟨"package.json", .package, .added⟩,
    ⟨"src/b.ts", .src, .removed⟩, ⟨"src/c.js", .src, .removed⟩])]

set_option maxRecDepth 4000

theorem ofText_crossed {text : String}
    (chars : text.toList = crossedPieces.flatMap String.toList) :
    Manifest.ofText text = .ok crossedBefore := by
  unfold Manifest.ofText Json.read? Json.readLoosely?
  simp only [crossedPieces, renamedPieces, List.take_succ_cons, List.take_zero, List.cons_append,
    List.nil_append, List.flatMap_cons, List.flatMap_nil] at chars
  repeat rw [String.toList_ofList] at chars
  rw [chars]
  exact eq_ok_of_toOption (by decide +kernel)

theorem loadPrevious?_crossed (outputs : Item) :
    Manifest.loadPrevious? (crossedDisk outputs) ⟨"/m"⟩ = some crossedBefore := by
  have placed : (crossedDisk outputs).place ⟨"/m"⟩ = .ok ["m"] := by
    refine Disk.place_eq_ok_iff.mpr ⟨⟨by decide, ?_⟩, by decide⟩
    rw [show Path.way ⟨"/m"⟩ = [] by decide]
    exact List.forall_mem_nil _
  have item : (crossedDisk outputs).item ⟨"/m"⟩ = .ok (.file (.text crossedText) 5) := by
    simp only [Disk.item, placed, bind, Except.bind]
    rfl
  have isFile : (crossedDisk outputs).isFile ⟨"/m"⟩ = true := by
    rw [Disk.isFile, item]
    rfl
  have text : (crossedDisk outputs).readText ⟨"/m"⟩ = .ok crossedText := by
    simp only [Disk.readText, Disk.read, item, bind, Except.bind]
  have said : Manifest.ofText crossedText = .ok crossedBefore := ofText_crossed String.toList_join
  rw [Manifest.loadPrevious?, if_pos isFile, Manifest.load, text]
  simp only [said]
  rfl

def crossedTable : List ((String × String) × Path) :=
  [(("w", "package.json"), ⟨"/o/node_modules/w/package.json"⟩),
    (("w", "doc/x.md"), ⟨"/o/node_modules/w/doc/x.md"⟩),
    (("w", "src/b.ts"), ⟨"/o/node_modules/w/src/b.ts"⟩),
    (("w", "src/c.js"), ⟨"/o/node_modules/w/src/c.js"⟩),
    (("w", "doc/../c.js"), ⟨"/o/node_modules/w/doc/../c.js"⟩)]

theorem keepsApart_crossed : (loneBuilder ⟨"/o"⟩).KeepsApart crossedPlan := by
  refine keepsApart_of_table crossedTable (fun name path output known => ?_)
    (by decide +kernel)
  have all : ∀ manifest ∈ [crossedManifest 9, crossedBefore], ∀ pair ∈ manifest.modules,
      pair.1 = "w" ∧ ∀ entry ∈ pair.2.entries,
        (("w", entry.2.path), (moduleOutput ⟨"/o"⟩ "w").join entry.2.outputPath) ∈ crossedTable := by
    decide
  obtain ⟨manifest, m, category, entry, which, found, member, rfl, rfl⟩ :=
    exists_entry_of_outputOf? known
  have listed : manifest ∈ [crossedManifest 9, crossedBefore] := by
    rcases which with rfl | before
    · exact List.mem_cons_self
    · cases before
      exact List.mem_cons_of_mem _ List.mem_cons_self
  obtain ⟨rfl, entries⟩ := all manifest listed (name, m) (Assoc.mem_of_get? found)
  exact entries _ member

/-- What comes of the events but the last. -/
def crossedRun : Production.Step Unit :=
  ((loneBuilder ⟨"/o"⟩).production crossedPlan.manifest 9).handleAll
    ⟨crossedDisk crossedOutputs, (), {}⟩ ((eventsOf crossedPlan.delta).take 3)

theorem run_crossed : ∃ middle, crossedRun = (middle, .ok ()) ∧
    middle.disk = crossedDisk crossedLater :=
  exists_mk_of_outcome (by decide +kernel)

theorem removeFile_crossed (time : Nat) :
    (crossedDisk crossedLater).removeFile ⟨"/o/node_modules/w/src/c.js"⟩ time = .error .isAFolder := by
  have placed : (crossedDisk crossedLater).place ⟨"/o/node_modules/w/src/c.js"⟩ =
      .ok ["o", "node_modules", "w", "src", "c.js"] := eq_ok_of_toOption (by decide)
  rw [Disk.removeFile, placed]
  rfl

/-- Where an output was there is a folder, which cannot be deleted. -/
theorem failsAt_crossed {middle : BuildState Unit} (run : crossedRun = (middle, .ok ()))
    (disk : middle.disk = crossedDisk crossedLater) :
    ((loneBuilder ⟨"/o"⟩).production crossedPlan.manifest 9).FailsAt
      ⟨crossedDisk crossedOutputs, (), {}⟩ (eventsOf crossedPlan.delta) 3 middle := by
  refine ⟨("w", ⟨"src/c.js", .src, .removed⟩), middle,
    .fileFault ⟨"/o/node_modules/w/src/c.js"⟩ .isAFolder, rfl, run, ?_⟩
  have output : goneOutput ((loneBuilder ⟨"/o"⟩).production crossedPlan.manifest 9) "w"
      ⟨"src/c.js", .src, .removed⟩ = ⟨"/o/node_modules/w/src/c.js"⟩ := by decide
  unfold handle
  refine (if_neg Bool.false_ne_true).trans ?_
  unfold remove
  simp only [output]
  rw [disk, removeFile_crossed]

end Crossed

/-- A first build fails at an event. Outputs keep apart, those that it has produced are not older than
their files, and it has written nothing that graph resolution and scanning read. -/
structure FailsApart (b : Builder σ) (plan : BuildPlan) (now k : Nat) (disk : Disk) (notes : σ)
    (last : BuildState σ) : Prop where
  hosted : b.host.isSome
  proper : disk.IsProper
  planned : (b.plan disk .empty now).2 = .ok plan
  apart : b.KeepsApart plan
  fails : (b.production plan.manifest now).FailsAt ⟨disk, notes, {}⟩ (eventsOf plan.delta) k last
  unread : ∀ place, b.Reads disk place ∨ b.Reads last.disk place →
    place ∉ b.writtenBefore plan now k
  fresh : ∀ name m path file, (name, path) ∈ ((eventsOf plan.delta).take k).map slotOf →
    plan.manifest.module? name = some m → m.tracked.get? path = some file → ∀ time,
      last.disk.modified? (m.outputPath file.entry) = some time → file.entry.updated ≤ time

/-- The removal that was done is asked for again, and so is one that the folder of a new output has
made possible. -/
theorem replan_crossed : ∃ last, (loneBuilder ⟨"/o"⟩).FailsApart crossedPlan 9 3
      (crossedDisk crossedOutputs) () last ∧
    ∃ replan, ((loneBuilder ⟨"/o"⟩).plan last.disk .empty 10).2 = .ok replan ∧
      eventsOf replan.delta = [("w", ⟨"doc/../c.js", .doc, .removed⟩),
        ("w", ⟨"src/b.ts", .src, .removed⟩), ("w", ⟨"src/c.js", .src, .removed⟩)] := by
  have loaded : Workspace.load (crossedDisk crossedOutputs) ⟨"/w"⟩ = .ok renamedWorkspace :=
    eq_ok_of_toOption (by decide)
  have loadedAfter : Workspace.load (crossedDisk crossedLater) ⟨"/w"⟩ = .ok renamedWorkspace :=
    eq_ok_of_toOption (by decide)
  obtain ⟨last, run, disk⟩ := run_crossed
  have fails := failsAt_crossed run disk
  have below : ∀ place ∈ (loneBuilder ⟨"/o"⟩).writtenBefore crossedPlan 9 3, ["o"] <+: place := by
    decide
  have fresh : ∀ pair ∈ crossedPlan.manifest.modules, ∀ tracked ∈ pair.2.tracked,
      ∀ time ∈ (crossedDisk crossedLater).modified? (pair.2.outputPath tracked.2.entry),
        tracked.2.entry.updated ≤ time := by decide
  refine ⟨last, ?_, ?_⟩
  · refine
      { hosted := rfl
        proper := by decide
        planned :=
          plan_of_load loaded (eq_ok_of_toOption (by decide)) (loadPrevious?_crossed _) (by decide)
        apart := keepsApart_crossed
        fails
        unread := fun place reads listed => not_within_of_below (below place listed) ?_
        fresh := fun name m path file _ known tracked time seen => ?_ }
    · rw [disk] at reads
      exact reads.elim (within_of_reads_lone loaded) (within_of_reads_lone loadedAfter)
    · rw [disk] at seen
      exact fresh (name, m) (Assoc.mem_of_get? known) (path, file) (Assoc.mem_of_get? tracked) time seen
  · rw [disk]
    let replan : BuildPlan := ⟨crossedManifest 10, some crossedBefore,
      [("w", [⟨"doc/../c.js", .doc, .removed⟩, ⟨"src/b.ts", .src, .removed⟩,
        ⟨"src/c.js", .src, .removed⟩])]⟩
    have replanned : ((loneBuilder ⟨"/o"⟩).plan (crossedDisk crossedLater) .empty 10).2 =
        .ok replan :=
      plan_of_load loadedAfter (eq_ok_of_toOption (by decide)) (loadPrevious?_crossed _) (by decide)
    exact ⟨replan, replanned, rfl⟩

/-- The manifest is where the output of the descriptor goes. -/
theorem overwrites_halted : ∃ last,
    (haltedBuilder ⟨"/o/node_modules/w/package.json"⟩).FailsApart (lonePlan ⟨"/o"⟩) 9 1 loneDisk ()
      last ∧
    last.disk.fileAt? (Path.target ⟨"/o/node_modules/w/package.json"⟩) ≠
      loneDisk.fileAt? (Path.target ⟨"/o/node_modules/w/package.json"⟩) := by
  obtain ⟨proper, loaded, _⟩ := facts_lone
  have first : Manifest.loadPrevious? loneDisk ⟨"/o/node_modules/w/package.json"⟩ = none := by
    have isFile : loneDisk.isFile ⟨"/o/node_modules/w/package.json"⟩ = false := by decide
    rw [Manifest.loadPrevious?, isFile]
    rfl
  have planned : ((haltedBuilder ⟨"/o/node_modules/w/package.json"⟩).plan loneDisk .empty 9).2 =
      .ok (lonePlan ⟨"/o"⟩) :=
    plan_of_load loaded (eq_ok_of_toOption (by decide)) first delta_lone
  obtain ⟨last, fails, disk⟩ := failsAt_halted ⟨"/o/node_modules/w/package.json"⟩
    (by decide +kernel)
  have below : ∀ place ∈ (haltedBuilder ⟨"/o/node_modules/w/package.json"⟩).writtenBefore
      (lonePlan ⟨"/o"⟩) 9 1, ["o"] <+: place := by decide
  refine ⟨last, ?_, ?_⟩
  · exact
      { hosted := rfl, proper, planned, apart := keepsApart_halted, fails
        unread := fun _ reads => unread_halted below (disk ▸ reads)
        fresh := fun name m path file done known tracked time seen =>
          fresh_halted done known tracked (disk ▸ seen) }
  · rw [disk]
    decide

/-! The same build on a system that breaks off at the first output, which is left there and empty. -/

section Broken

def brokenBuilder : Builder Unit :=
  { haltedBuilder ⟨"/m"⟩ with
    system := ⟨fun _ path =>
      if path = ⟨"/o/node_modules/w/package.json"⟩ then
        some (.broken (.other "No space left on device (os error 28)") fun _ => .text "")
      else none⟩ }

/-- What comes of the first event. -/
def brokenRun : Production.Step Unit :=
  (brokenBuilder.production (lonePlan ⟨"/o"⟩).manifest 9).handle
    ⟨loneDisk, (), {}⟩ "w" ⟨"package.json", .package, .added⟩

theorem run_broken : brokenRun.2 = .error (.failed (.fileFault ⟨"/w/package.json"⟩
      (.other "No space left on device (os error 28)"))) ∧
    brokenRun.1.disk.entries = (copiedDisk "").entries := by
  decide +kernel

theorem failsApart_broken :
    brokenBuilder.FailsApart (lonePlan ⟨"/o"⟩) 9 0 loneDisk () brokenRun.1 := by
  obtain ⟨proper, loaded, first⟩ := facts_lone
  have fails : (brokenBuilder.production (lonePlan ⟨"/o"⟩).manifest 9).FailsAt ⟨loneDisk, (), {}⟩
      (eventsOf (lonePlan ⟨"/o"⟩).delta) 0 brokenRun.1 := by
    refine ⟨("w", ⟨"package.json", .package, .added⟩), ⟨loneDisk, (), {}⟩, _, ?_, rfl,
      eq_mk_of_snd run_broken.1⟩
    rw [eventsOf_lone]
    rfl
  exact
    { hosted := rfl, proper, apart := keepsApart_halted
      planned := plan_of_load loaded (eq_ok_of_toOption (by decide)) first delta_lone
      fails
      unread := fun _ _ => List.not_mem_nil
      fresh := fun _ _ _ _ done => absurd done List.not_mem_nil }

/-- The empty output is not older than its file, so its event is not found again. -/
theorem replan_broken : ∃ replan,
    (brokenBuilder.plan brokenRun.1.disk .empty 10).2 = .ok replan ∧
      eventsOf replan.delta = [("w", ⟨"src/a.ts", .src, .added⟩)] := by
  let replan : BuildPlan :=
    ⟨loneManifest ⟨"/o"⟩ .npm 10, none, [("w", [⟨"src/a.ts", .src, .added⟩])]⟩
  have disk : brokenRun.1.disk = copiedDisk "" := congrArg Disk.mk run_broken.2
  have none : Manifest.loadPrevious? (copiedDisk "") ⟨"/m"⟩ = none := by
    have isFile : (copiedDisk "").isFile ⟨"/m"⟩ = false := by decide
    rw [Manifest.loadPrevious?, isFile]
    rfl
  have replanned : (brokenBuilder.plan (copiedDisk "") .empty 10).2 = .ok replan :=
    plan_of_load (eq_ok_of_toOption (by decide)) (eq_ok_of_toOption (by decide)) none (by decide)
  rw [disk]
  exact ⟨replan, replanned, rfl⟩

end Broken

/-- A build that fails may leave more than the events from the one that has failed on, when the
manifest of the build before is not what builds write, and it may have written over that manifest. It
may leave fewer, when it broke off while an output was written. -/
theorem not_resumes_crossed :
    (∃ last, (loneBuilder ⟨"/o"⟩).FailsApart crossedPlan 9 3 (crossedDisk crossedOutputs) () last ∧
      ∃ replan, ((loneBuilder ⟨"/o"⟩).plan last.disk .empty 10).2 = .ok replan ∧
        eventsOf replan.delta ≠ (eventsOf crossedPlan.delta).drop 3) ∧
    (∃ last, (haltedBuilder ⟨"/o/node_modules/w/package.json"⟩).FailsApart (lonePlan ⟨"/o"⟩) 9 1
        loneDisk () last ∧
      last.disk.fileAt? (Path.target ⟨"/o/node_modules/w/package.json"⟩) ≠
        loneDisk.fileAt? (Path.target ⟨"/o/node_modules/w/package.json"⟩)) ∧
    ∃ last, brokenBuilder.FailsApart (lonePlan ⟨"/o"⟩) 9 0 loneDisk () last ∧
      ∃ replan, (brokenBuilder.plan last.disk .empty 10).2 = .ok replan ∧
        eventsOf replan.delta ≠ eventsOf (lonePlan ⟨"/o"⟩).delta := by
  obtain ⟨last, fails, replan, replanned, events⟩ := replan_crossed
  obtain ⟨broken, replannedBroken, eventsBroken⟩ := replan_broken
  refine ⟨⟨last, fails, replan, replanned, ?_⟩, overwrites_halted,
    _, failsApart_broken, broken, replannedBroken, ?_⟩
  · rw [events]
    decide
  · rw [eventsBroken, eventsOf_lone]
    decide

end Builder

end WorkspaceBuild
