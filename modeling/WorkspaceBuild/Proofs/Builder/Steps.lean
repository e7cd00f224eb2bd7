import WorkspaceBuild.Builder
import WorkspaceBuild.Proofs.Disk.Changes
import WorkspaceBuild.Proofs.Results

/-! # Steps of a build

What handling one event does to the disk and to the report. An event that needs its output makes the
places on the trail of that output; a removal clears the place of one. Which places these are can be
told from the event and the manifest, before anything is done.
-/

namespace WorkspaceBuild

namespace Manifest

theorem makeFolderOf_adds {disk made : Disk} {path : Path} {time : Nat}
    (ordered : disk.IsOrdered) (absolute : path.isAbsolute = true)
    (making : (makeFolderOf disk path time).1 = made) :
    (∃ places, places ⊆ path.trail ∧ Disk.Adds disk made places) ∧
      Disk.KeepsFiles disk made [] := by
  rw [makeFolderOf] at making
  split at making
  · rename_i folder found
    split at making
    · cases making
      exact ⟨⟨[], List.nil_subset _, .refl ordered⟩, .refl _ []⟩
    · exact Disk.createParent_adds ordered absolute found making
  · cases making
    exact ⟨⟨[], List.nil_subset _, .refl ordered⟩, .refl _ []⟩

/-- A manifest that is kept replaces its file once the folder of it is there. -/
theorem save_eq_ok_iff {disk last : Disk} {manifest : Manifest} {path : Path} {time : Nat} :
    save disk manifest path time = (last, .ok ()) ↔
      ∃ middle, makeFolderOf disk path time = (middle, .ok ()) ∧
        middle.replaceFile path (.text manifest.text) time = .ok last := by
  rw [save]
  obtain ⟨middle, result⟩ := makeFolderOf disk path time
  cases result with
  | error e => simp
  | ok _ => cases replaced : middle.replaceFile path (.text manifest.text) time <;> simp [replaced]

end Manifest

namespace Builder.Production

variable {σ : Type}

/-- The output that an event asks for. -/
def wanted? (p : Production σ) (name : String) (event : DeltaEvent) : Option Path :=
  if event.action.needsOutput then
    (p.manifest.module? name).bind fun m => (entryOf? m event).map m.outputPath
  else none

/-- Handling an event makes a place. -/
def Makes (p : Production σ) (item : String × DeltaEvent) (place : Place) : Prop :=
  ∃ output, p.wanted? item.1 item.2 = some output ∧ place ∈ output.trail

/-- Handling an event leaves nothing at a place. -/
def Clears (p : Production σ) (item : String × DeltaEvent) (place : Place) : Prop :=
  item.2.action = .removed ∧ (p.goneOutput item.1 item.2).target = place

/-- The places of the files that handling an event may change. -/
def touched (p : Production σ) (item : String × DeltaEvent) : List Place :=
  if item.2.action = .removed then [(p.goneOutput item.1 item.2).target]
  else ((p.wanted? item.1 item.2).map Path.target).toList

/-- A path that leads to a place has been reported as deleted. -/
def Deleted (report : BuildReport) (place : Place) : Prop :=
  ∃ path ∈ report.removed, path.target = place

section Steps

variable {state next : BuildState σ}

theorem andThen_eq_ok {first : Step σ} {rest : BuildState σ → Step σ} :
    andThen first rest = (next, .ok ()) ↔
      ∃ middle, first = (middle, .ok ()) ∧ rest middle = (next, .ok ()) := by
  obtain ⟨middle, result⟩ := first
  cases result with
  | ok _ => simp [andThen]
  | error e => simp [andThen]

theorem onDisk_eq_ok {path : Path} {outcome : Disk.Outcome} :
    onDisk state path outcome = (next, .ok ()) ↔
      ∃ disk, outcome = (disk, .ok ()) ∧ next = { state with disk } := by
  obtain ⟨disk, result⟩ := outcome
  cases result with
  | ok _ => simp [onDisk, Except.mapError, eq_comm]
  | error fault => simp [onDisk, Except.mapError]

/-- A step adds the trail of an output to the disk, changes no other file, and reports nothing as
deleted. -/
structure Writes (output : Path) (state next : BuildState σ) : Prop where
  adds : Disk.Adds state.disk next.disk output.trail
  files : Disk.KeepsFiles state.disk next.disk [output.target]
  reaches : next.disk.Reaches output
  atTarget : output.target ∈ output.trail
  removed : next.report.removed = state.report.removed

theorem makeFolder_adds {p : Production σ} {output : Path} (ordered : state.disk.IsOrdered)
    (absolute : output.isAbsolute = true) (made : p.makeFolder output state = (next, .ok ())) :
    (∃ places, places ⊆ output.trail ∧ Disk.Adds state.disk next.disk places) ∧
      Disk.KeepsFiles state.disk next.disk [] ∧ next.report = state.report := by
  rw [makeFolder] at made
  split at made
  · rename_i folder found
    obtain ⟨disk, created, rfl⟩ := onDisk_eq_ok.mp made
    obtain ⟨adds, files⟩ := Disk.createParent_adds ordered absolute found (congrArg Prod.fst created)
    exact ⟨adds, files, rfl⟩
  · cases made
    exact ⟨⟨[], List.nil_subset _, .refl ordered⟩, .refl _ [], rfl⟩

/-- Making the folder of an output and then its file adds its trail. -/
theorem writes_of_parts {p : Production σ} {output : Path} (ordered : state.disk.IsOrdered)
    {middle : BuildState σ} {disk : Disk} {contents : Contents}
    (made : p.makeFolder output state = (middle, .ok ()))
    (written : middle.disk.write output contents p.now = .ok disk) (report : BuildReport)
    (removed : report.removed = middle.report.removed) :
    Writes output state { middle with disk, report } := by
  obtain ⟨reaches, _, _⟩ := Disk.eq_setAt_of_write written
  obtain ⟨⟨places, within, folders⟩, files, same⟩ := makeFolder_adds ordered reaches.1 made
  have file := Disk.write_adds folders.ordered written
  exact
    { adds := folders.trans_of_subset file within
      files := files.trans (Disk.write_files folders.ordered written).1
      reaches := file.keepsFolders.reaches reaches
      atTarget := Disk.target_mem_trail_of_write written
      removed := removed.trans (congrArg BuildReport.removed same) }

/-- A file that a system says it has put is written. -/
theorem exists_write_of_puts {system : System} {disk made : Disk} {path : Path} {time : Nat}
    (puts : Disk.Puts system disk path time (made, .ok ())) :
    ∃ contents, disk.write path contents time = .ok made := by
  cases puts with
  | written put => exact ⟨_, put⟩

theorem copy_writes {p : Production σ} {source output : Path} (ordered : state.disk.IsOrdered)
    (copied : p.copy source output state = (next, .ok ())) : Writes output state next := by
  simp only [copy, andThen_eq_ok, onDisk_eq_ok] at copied
  obtain ⟨middle, made, last, ⟨disk, copied, rfl⟩, recorded⟩ := copied
  obtain ⟨contents, written⟩ := exists_write_of_puts (copied ▸ Disk.puts_copy _ _)
  cases recorded
  exact writes_of_parts ordered made written _ rfl

theorem write_writes {p : Production σ} {output : Path} {text : String}
    (ordered : state.disk.IsOrdered) (wrote : p.write output text state = (next, .ok ())) :
    Writes output state next := by
  simp only [write, andThen_eq_ok, onDisk_eq_ok] at wrote
  obtain ⟨middle, made, last, ⟨disk, wrote, rfl⟩, recorded⟩ := wrote
  obtain ⟨contents, written⟩ := exists_write_of_puts (wrote ▸ Disk.puts_write _ _)
  cases recorded
  exact writes_of_parts ordered made written _ rfl

theorem transform_writes {p : Production σ} {host : CompilerHost} {source output : Path}
    (ordered : state.disk.IsOrdered)
    (transformed : p.transform host source output state = (next, .ok ())) :
    Writes output state next := by
  unfold transform at transformed
  split at transformed
  · cases transformed
  split at transformed
  · cases transformed
  simp only at transformed
  split at transformed
  · cases transformed
  · rename_i notes _
    have wrote : Writes output { state with notes } next := write_writes ordered transformed
    exact ⟨wrote.adds, wrote.files, wrote.reaches, wrote.atTarget, wrote.removed⟩

/-- With a host, producing a file writes its output. -/
theorem produce_writes {p : Production σ} (hosted : p.builder.host.isSome) {m : Module}
    {entry : FileEntry} (ordered : state.disk.IsOrdered)
    (produced : p.produce m entry state = (next, .ok ())) :
    Writes (m.outputPath entry) state next := by
  obtain ⟨host, isHost⟩ := Option.isSome_iff_exists.mp hosted
  rw [produce] at produced
  simp only [isHost] at produced
  split at produced
  · exact copy_writes ordered produced
  · exact transform_writes ordered produced

/-- What handling an event does: it adds what the event makes, or deletes what it clears. -/
structure Effect (p : Production σ) (item : String × DeltaEvent) (state next : BuildState σ) :
    Prop where
  ordered : next.disk.IsOrdered
  folders : Disk.KeepsFolders state.disk next.disk
  files : Disk.KeepsFiles state.disk next.disk (p.touched item)
  holds_iff : ∀ place, next.disk.Holds place ↔
    (state.disk.Holds place ∨ p.Makes item place) ∧ ¬ p.Clears item place
  deleted_iff : ∀ place, Deleted next.report place ↔
    Deleted state.report place ∨ p.Clears item place ∧ state.disk.Holds place
  produced : ∀ output, p.wanted? item.1 item.2 = some output →
    next.disk.Reaches output ∧ output.target ∈ output.trail

/-- An event that makes places is no removal. -/
theorem Makes.not_clears {p : Production σ} {item : String × DeltaEvent} {place : Place}
    (h : p.Makes item place) (other : Place) : ¬ p.Clears item other := by
  rintro ⟨removed, _⟩
  obtain ⟨output, wanted, _⟩ := h
  simp [wanted?, removed, DeltaAction.needsOutput] at wanted

theorem Writes.effect {p : Production σ} {item : String × DeltaEvent} {output : Path}
    (h : Writes output state next) (wanted : p.wanted? item.1 item.2 = some output) :
    Effect p item state next := by
  have makes (place : Place) : p.Makes item place ↔ place ∈ output.trail := by
    simp [Makes, wanted]
  have clearsNot (place : Place) : ¬ p.Clears item place :=
    ((makes output.target).mpr h.atTarget).not_clears place
  have kept : item.2.action ≠ .removed := fun removed => clearsNot _ ⟨removed, rfl⟩
  refine
    { ordered := h.adds.ordered
      folders := h.adds.keepsFolders
      files := by simpa [touched, kept, wanted] using h.files
      holds_iff := fun place => ?_
      deleted_iff := fun place => ?_
      produced := fun path same => ?_ }
  · rw [h.adds.holds_iff, makes, and_iff_left (clearsNot place)]
  · rw [or_iff_left (fun cleared => clearsNot place cleared.1), Deleted, Deleted, h.removed]
  · rw [wanted] at same
    cases same
    exact ⟨h.reaches, h.atTarget⟩

theorem Effect.idle {p : Production σ} {item : String × DeltaEvent}
    (ordered : state.disk.IsOrdered) (wanted : p.wanted? item.1 item.2 = none)
    (kept : item.2.action ≠ .removed) : Effect p item state state where
  ordered := ordered
  folders := fun _ folder => folder
  files := .refl _ _
  holds_iff := by simp [Makes, Clears, wanted, kept]
  deleted_iff := by simp [Clears, kept]
  produced := by simp [wanted]

theorem remove_effect {p : Production σ} {item : String × DeltaEvent}
    (ordered : state.disk.IsOrdered) (isRemoval : item.2.action = .removed)
    (reaches : state.disk.Reaches (p.goneOutput item.1 item.2))
    (done : p.remove item.1 item.2 state = (next, .ok ())) : Effect p item state next := by
  have wanted : p.wanted? item.1 item.2 = none := by
    simp [wanted?, isRemoval, DeltaAction.needsOutput]
  have clears (place : Place) :
      p.Clears item place ↔ (p.goneOutput item.1 item.2).target = place := by
    simp [Clears, isRemoval]
  unfold remove at done
  dsimp only at done
  split at done
  · rename_i disk removed
    have drops := Disk.removeFile_drops ordered removed
    cases done
    refine
      { ordered := drops.ordered
        folders := drops.keepsFolders
        files := by simpa [touched, isRemoval] using Disk.removeFile_files ordered removed
        holds_iff := fun place => ?_
        deleted_iff := fun place => ?_
        produced := by simp [wanted] }
    · rw [drops.holds_iff, clears]
      simp [Makes, wanted, eq_comm]
    · have wasThere : state.disk.Holds (p.goneOutput item.1 item.2).target := by
        rw [Disk.Holds, drops.wasFile]
        rfl
      simp only [Deleted, clears, List.mem_append, List.mem_singleton, or_and_right, exists_or,
        exists_eq_left]
      refine or_congr_right (and_iff_left_of_imp ?_).symm
      rintro rfl
      exact wasThere
  · rename_i missing
    -- the way is there, so it is the file that is missing
    have nothing := Disk.not_holds_of_removeFile reaches missing
    cases done
    refine
      { ordered := ordered
        folders := fun _ folder => folder
        files := .refl _ _
        holds_iff := fun place => ?_
        deleted_iff := fun place => ?_
        produced := by simp [wanted] }
    · have other : state.disk.Holds place → ¬ p.Clears item place := by
        rw [clears]
        rintro held rfl
        exact nothing held
      simpa [Makes, wanted] using other
    · have other : p.Clears item place → ¬ state.disk.Holds place := by
        rw [clears]
        rintro rfl
        exact nothing
      simpa using fun cleared held => absurd held (other cleared)
  · cases done

/-- With a host, handling an event has its effect, if the way to what it deletes is there. -/
theorem handle_effect {p : Production σ} (hosted : p.builder.host.isSome)
    {item : String × DeltaEvent} (ordered : state.disk.IsOrdered)
    (reaches : item.2.action = .removed → state.disk.Reaches (p.goneOutput item.1 item.2))
    (done : p.handle state item.1 item.2 = (next, .ok ())) : Effect p item state next := by
  rw [handle] at done
  split at done
  · rename_i needed
    have kept : item.2.action ≠ .removed := by
      intro removed
      simp [removed, DeltaAction.needsOutput] at needed
    cases known : p.manifest.module? item.1 with
    | none =>
        rw [known] at done
        cases done
        exact .idle ordered (by simp [wanted?, known]) kept
    | some m =>
        rw [known] at done
        cases listed : entryOf? m item.2 with
        | none =>
            simp only [listed] at done
            cases done
            exact .idle ordered (by simp [wanted?, known, listed]) kept
        | some entry =>
            simp only [listed] at done
            exact (produce_writes hosted ordered done).effect
              (by simp [wanted?, needed, known, listed])
  · rename_i notNeeded
    have isRemoval : item.2.action = .removed := by
      simpa [DeltaAction.needsOutput] using notNeeded
    exact remove_effect ordered isRemoval (reaches isRemoval) done

theorem save_eq_ok {b : Builder σ} {manifest : Manifest} {now : Nat}
    (saved : b.save manifest now state = (next, .ok ())) :
    Manifest.save state.disk manifest b.settings.manifestPath now = (next.disk, .ok ()) ∧
      next.report = state.report := by
  rw [save] at saved
  generalize Manifest.save state.disk manifest b.settings.manifestPath now = outcome at saved ⊢
  obtain ⟨same, done⟩ := Prod.mk.inj saved
  subst same
  exact ⟨Prod.ext rfl (mapError_eq_ok.mp done), rfl⟩

/-- Writing the manifest adds its trail and changes no other file. -/
theorem save_adds {b : Builder σ} {manifest : Manifest} {now : Nat}
    (ordered : state.disk.IsOrdered) (saved : b.save manifest now state = (next, .ok ())) :
    Disk.Adds state.disk next.disk b.settings.manifestPath.trail ∧
      Disk.KeepsFiles state.disk next.disk [b.settings.manifestPath.target] ∧
        next.report = state.report := by
  obtain ⟨saved, report⟩ := save_eq_ok saved
  obtain ⟨middle, made, replaced⟩ := Manifest.save_eq_ok_iff.mp saved
  have reaches := (Disk.eq_setAt_of_replaceFile replaced).1
  obtain ⟨⟨places, within, folders⟩, files⟩ :=
    Manifest.makeFolderOf_adds ordered reaches.1 (congrArg Prod.fst made)
  exact ⟨folders.trans_of_subset (Disk.replaceFile_adds folders.ordered replaced) within,
    files.trans (Disk.replaceFile_files folders.ordered replaced).1, report⟩

end Steps

end Builder.Production

end WorkspaceBuild
