import WorkspaceBuild.Proofs.Builder.Runs
import WorkspaceBuild.Proofs.Disk.Confined
import WorkspaceBuild.Proofs.Path.Parents

/-! # Builds that fail

An event that fails has made folders on the way of its output at most, unless it broke off while the
output was written. So a build that fails on its way has changed the files that the events before lead
to, and no others.
-/

namespace WorkspaceBuild.Builder.Production

variable {σ : Type}

/-- What a step does is confined to some files and folders, and to the folders if it fails without
breaking off. -/
structure Bounded (state : BuildState σ) (step : Step σ) (files folders : List Place)
    (breaks : Prop) : Prop where
  confined : Disk.Confined state.disk step.1.disk files folders
  failed : ∀ e, step.2 = .error e → ¬ breaks → Disk.Confined state.disk step.1.disk [] folders

/-- The places of the folders that handling an event may make. -/
def passed (p : Production σ) (item : String × DeltaEvent) : List Place :=
  ((p.wanted? item.1 item.2).map Path.way).getD []

/-- A disk is left with an output that the system opened, which made or emptied it, and then broke off
writing. -/
def LeavesBroken (p : Production σ) (disk : Disk) (output : Path) (left : Disk) : Prop :=
  ∃ fault held contents, p.builder.system.interrupts disk output = some (.broken fault held) ∧
    disk.write output (held contents) p.now = .ok left

/-- Handling an event has broken off while its output was written. -/
def BreaksOff (p : Production σ) (state : BuildState σ) (item : String × DeltaEvent) : Prop :=
  ∃ output, p.wanted? item.1 item.2 = some output ∧
    p.LeavesBroken (p.makeFolder output state).1.disk output (p.handle state item.1 item.2).1.disk

section Steps

variable {p : Production σ} {state : BuildState σ} {files folders : List Place} {breaks : Prop}

theorem Bounded.idle {step : Step σ} (ordered : state.disk.IsOrdered)
    (same : step.1.disk = state.disk) : Bounded state step files folders breaks := by
  constructor
  · rw [same]
    exact .refl ordered
  · intro _ _ _
    rw [same]
    exact .refl ordered

/-- A step that changes no files and then another one. -/
theorem Bounded.andThen {first : Step σ} {next : BuildState σ → Step σ}
    (before : Bounded state first [] folders False)
    (after : ∀ middle, first = (middle, .ok ()) → middle.disk.IsOrdered →
      Bounded middle (next middle) files folders breaks) :
    Bounded state (andThen first next) files folders breaks := by
  obtain ⟨middle, result⟩ := first
  have once : folders ++ folders ⊆ folders := by simp
  cases result with
  | ok _ =>
      obtain ⟨confined, failed⟩ := after middle rfl before.confined.ordered
      refine ⟨(before.confined.trans confined).mono (List.Subset.refl _) once, fun e said whole => ?_⟩
      exact (before.confined.trans (failed e said whole)).mono (List.Subset.refl _) once
  | error e =>
      exact ⟨before.confined.mono (List.nil_subset _) (List.Subset.refl _),
        fun _ _ _ => before.confined⟩

/-- A step, and then something is noted in the report. -/
theorem Bounded.andRecord {first : Step σ} (before : Bounded state first files folders breaks)
    (change : BuildReport → BuildReport) :
    Bounded state (Production.andThen first fun state => record state change) files folders
      breaks := by
  obtain ⟨middle, result⟩ := first
  cases result with
  | ok _ =>
      refine ⟨before.confined, ?_⟩
      rintro _ ⟨⟩
  | error e => exact before

theorem bounded_makeFolder (ordered : state.disk.IsOrdered) (output : Path) :
    Bounded state (p.makeFolder output state) [] output.way False := by
  have confined : Disk.Confined state.disk (p.makeFolder output state).1.disk [] output.way := by
    rw [makeFolder]
    split
    · rename_i folder found
      by_cases absolute : folder.isAbsolute = true
      · exact Disk.createParent_confined ordered (Path.isAbsolute_of_parent? found absolute) found rfl
      · rw [onDisk, Disk.createFolders_of_not_absolute absolute]
        exact .refl ordered
    · exact .refl ordered
  exact ⟨confined, fun _ _ _ => confined⟩

/-- What a system is asked to put changes one file, and none if it fails without breaking off. -/
theorem bounded_puts (ordered : state.disk.IsOrdered) {output : Path} {outcome : Disk.Outcome}
    (puts : Disk.Puts p.builder.system state.disk output p.now outcome) (path : Path) :
    Bounded state (onDisk state path outcome) [output.target] folders
      (p.LeavesBroken state.disk output outcome.1) := by
  have only {contents : Contents} {next : Disk}
      (put : state.disk.write output contents p.now = .ok next) :
      Disk.Confined state.disk next [output.target] folders :=
    (Disk.write_confined ordered put).mono (List.Subset.refl _) (List.nil_subset _)
  cases puts with
  | written put =>
      refine ⟨only put, ?_⟩
      rintro _ ⟨⟩
  | refused => exact .idle ordered rfl
  | broken interrupted put =>
      exact ⟨only put, fun _ _ whole => absurd ⟨_, _, _, interrupted, put⟩ whole⟩

/-- The folder of an output is made, and then a system is asked to put the output. -/
theorem bounded_output (ordered : state.disk.IsOrdered) (output path : Path)
    {outcome : BuildState σ → Disk.Outcome}
    (puts : ∀ state, Disk.Puts p.builder.system state.disk output p.now (outcome state))
    (change : BuildReport → BuildReport) :
    let step := andThen (p.makeFolder output state) fun state =>
      andThen (onDisk state path (outcome state)) fun state => record state change
    Bounded state step [output.target] output.way
      (p.LeavesBroken (p.makeFolder output state).1.disk output step.1.disk) := by
  refine .andThen (bounded_makeFolder ordered output) fun middle made ordered => ?_
  have left : (andThen (onDisk middle path (outcome middle)) fun state =>
      record state change).1.disk = (outcome middle).1 := by
    rw [onDisk]
    cases (outcome middle).2 <;> rfl
  have put : Bounded middle _ [output.target] output.way _ :=
    (bounded_puts ordered (puts middle) path).andRecord change
  rw [← left] at put
  rw [made]
  exact put

theorem bounded_copy (ordered : state.disk.IsOrdered) (source output : Path) :
    Bounded state (p.copy source output state) [output.target] output.way
      (p.LeavesBroken (p.makeFolder output state).1.disk output
        (p.copy source output state).1.disk) :=
  bounded_output ordered output source (fun _ => Disk.puts_copy _ source) _

theorem bounded_write (ordered : state.disk.IsOrdered) (output : Path) (text : String) :
    Bounded state (p.write output text state) [output.target] output.way
      (p.LeavesBroken (p.makeFolder output state).1.disk output
        (p.write output text state).1.disk) :=
  bounded_output ordered output output (fun _ => Disk.puts_write _ _) _

/-- What plugins have noted does not matter for making a folder. -/
theorem disk_makeFolder (output : Path) (notes : σ) :
    (p.makeFolder output { state with notes }).1.disk = (p.makeFolder output state).1.disk := by
  unfold makeFolder
  split <;> rfl

theorem bounded_transform (ordered : state.disk.IsOrdered) (host : CompilerHost)
    (source output : Path) :
    Bounded state (p.transform host source output state) [output.target] output.way
      (p.LeavesBroken (p.makeFolder output state).1.disk output
        (p.transform host source output state).1.disk) := by
  unfold transform
  split
  · exact .idle ordered rfl
  split
  · exact .idle ordered rfl
  simp only
  split
  · exact .idle ordered rfl
  · rename_i unit notes _
    have alsoOrdered : ({ state with notes } : BuildState σ).disk.IsOrdered := ordered
    obtain ⟨confined, failed⟩ := bounded_write (p := p) alsoOrdered output unit.text
    rw [disk_makeFolder] at failed
    exact ⟨confined, failed⟩

theorem bounded_produce (ordered : state.disk.IsOrdered) (m : Module) (entry : FileEntry) :
    Bounded state (p.produce m entry state) [(m.outputPath entry).target] (m.outputPath entry).way
      (p.LeavesBroken (p.makeFolder (m.outputPath entry) state).1.disk (m.outputPath entry)
        (p.produce m entry state).1.disk) := by
  unfold produce
  simp only
  split
  · exact bounded_copy ordered _ _
  · split
    · exact bounded_transform ordered _ _ _
    · exact .idle ordered rfl

theorem bounded_remove (ordered : state.disk.IsOrdered) (name : String) (event : DeltaEvent) :
    Bounded state (p.remove name event state) [(p.goneOutput name event).target] folders breaks := by
  unfold remove
  dsimp only
  split
  · rename_i disk removed
    refine ⟨(Disk.removeFile_confined ordered removed).mono (List.Subset.refl _) (List.nil_subset _), ?_⟩
    rintro _ ⟨⟩
  · exact .idle ordered rfl
  · exact .idle ordered rfl

theorem bounded_handle (ordered : state.disk.IsOrdered) (item : String × DeltaEvent) :
    Bounded state (p.handle state item.1 item.2) (p.touched item) (p.passed item)
      (p.BreaksOff state item) := by
  unfold BreaksOff
  rw [handle]
  split
  · rename_i needed
    have kept : item.2.action ≠ .removed := by
      intro removed
      simp [removed, DeltaAction.needsOutput] at needed
    split
    · exact .idle ordered rfl
    · rename_i m known
      split
      · rename_i entry listed
        have wanted : p.wanted? item.1 item.2 = some (m.outputPath entry) := by
          simp [wanted?, needed, known, listed]
        rw [touched, if_neg kept, passed, wanted, Option.map_some, Option.map_some,
          Option.toList_some, Option.getD_some]
        obtain ⟨confined, failed⟩ := bounded_produce (p := p) ordered m entry
        exact ⟨confined, fun e said whole => failed e said fun broken => whole ⟨_, rfl, broken⟩⟩
      · exact .idle ordered rfl
  · rename_i notNeeded
    have isRemoval : item.2.action = .removed := by
      simpa [DeltaAction.needsOutput] using notNeeded
    rw [touched, if_pos isRemoval]
    exact bounded_remove ordered item.1 item.2

end Steps

section Runs

variable {p : Production σ} {state middle last : BuildState σ} {events : List (String × DeltaEvent)}

/-- Events that are handled to the end change the files that they lead to. -/
theorem confined_handleAll (ordered : state.disk.IsOrdered)
    (handled : p.handleAll state events = (last, .ok ())) :
    Disk.Confined state.disk last.disk (events.flatMap p.touched) (events.flatMap p.passed) := by
  induction events generalizing state with
  | nil =>
      cases handled
      exact .refl ordered
  | cons item rest ih =>
      obtain ⟨middle, first, others⟩ := andThen_eq_ok.mp handled
      have here := (bounded_handle ordered item :
        Bounded state (p.handle state item.1 item.2) _ _ _).confined
      rw [first] at here
      exact here.trans (ih here.ordered others)

theorem handleAll_append_eq_ok {more : List (String × DeltaEvent)} :
    p.handleAll state (events ++ more) = (last, .ok ()) ↔
      ∃ middle, p.handleAll state events = (middle, .ok ()) ∧
        p.handleAll middle more = (last, .ok ()) := by
  induction events generalizing state with
  | nil => simp [handleAll]
  | cons item rest ih =>
      simp only [List.cons_append, handleAll, andThen_eq_ok, ih]
      constructor
      · rintro ⟨first, here, middle, others, later⟩
        exact ⟨middle, ⟨first, here, others⟩, later⟩
      · rintro ⟨middle, ⟨first, here, others⟩, later⟩
        exact ⟨first, here, middle, others, later⟩

/-- The event at a position is the first that fails, and leaves a state. -/
def FailsAt (p : Production σ) (state : BuildState σ) (events : List (String × DeltaEvent)) (k : Nat)
    (last : BuildState σ) : Prop :=
  ∃ item middle e, events[k]? = some item ∧ p.handleAll state (events.take k) = (middle, .ok ()) ∧
    p.handle middle item.1 item.2 = (last, .error (.failed e))

/-- The event at a position breaks off while its output is written. -/
def BreaksAt (p : Production σ) (state : BuildState σ) (events : List (String × DeltaEvent)) (k : Nat) :
    Prop :=
  ∃ item middle, events[k]? = some item ∧ p.handleAll state (events.take k) = (middle, .ok ()) ∧
    p.BreaksOff middle item

/-- Nothing breaks off where the system interrupts nothing. -/
theorem not_breaksAt_of_sound {k : Nat} (sound : p.builder.system = .sound) :
    ¬ p.BreaksAt state events k := by
  rintro ⟨_, _, _, _, _, _, _, _, _, interrupted, _⟩
  rw [sound] at interrupted
  cases interrupted

/-- Handling events fails just when the event at some position is the first that does. -/
theorem exists_failsAt_iff : (∃ k, p.FailsAt state events k last) ↔
    ∃ e, p.handleAll state events = (last, .error (.failed e)) := by
  induction events generalizing state with
  | nil => simp [FailsAt, handleAll]
  | cons item rest ih =>
      rw [handleAll]
      constructor
      · rintro ⟨k, other, middle, e, found, handled, fails⟩
        cases k with
        | zero =>
            cases found
            cases handled
            exact ⟨e, by rw [fails]; rfl⟩
        | succ k =>
            rw [List.take_succ_cons, handleAll, andThen_eq_ok] at handled
            obtain ⟨first, here, others⟩ := handled
            rw [here]
            exact ih.mp ⟨k, other, middle, e, found, others, fails⟩
      · rintro ⟨e, handled⟩
        cases first : p.handle state item.1 item.2 with
        | mk middle result =>
            rw [first] at handled
            cases result with
            | error _ =>
                cases handled
                exact ⟨0, item, state, e, rfl, rfl, first⟩
            | ok _ =>
                obtain ⟨k, other, inner, fault, found, before, fails⟩ := ih.mpr ⟨e, handled⟩
                refine ⟨k + 1, other, inner, fault, found, ?_, fails⟩
                rw [List.take_succ_cons, handleAll, andThen_eq_ok]
                exact ⟨middle, first, before⟩

/-- What has changed when an event fails are the files that those before it lead to. -/
theorem FailsAt.confined {k : Nat} (fails : p.FailsAt state events k last)
    (whole : ¬ p.BreaksAt state events k) (ordered : state.disk.IsOrdered) : Disk.Confined state.disk last.disk
      ((events.take k).flatMap p.touched) ((events.take (k + 1)).flatMap p.passed) := by
  obtain ⟨item, middle, e, found, handled, failed⟩ := fails
  have before := confined_handleAll ordered handled
  have here := (bounded_handle before.ordered item :
    Bounded middle (p.handle middle item.1 item.2) _ _ _).failed _ (by rw [failed])
      fun broken => whole ⟨item, middle, found, handled, broken⟩
  rw [failed] at here
  rw [List.take_add_one, found, Option.toList_some, List.flatMap_append, List.flatMap_singleton]
  simpa using before.trans here

/-- An event that is handled has its effect, and those after it, up to the one that fails, change the
files that they lead to. -/
theorem FailsAt.exists_effect {k : Nat} (fails : p.FailsAt state events k last)
    (whole : ¬ p.BreaksAt state events k) (hosted : p.builder.host.isSome) (ordered : state.disk.IsOrdered)
    {before after : List (String × DeltaEvent)} {item : String × DeltaEvent}
    (split : events.take k = before ++ item :: after)
    (reaches : item.2.action = .removed → state.disk.Reaches (p.goneOutput item.1 item.2)) :
    ∃ first next, Disk.KeepsFolders state.disk first.disk ∧ Effect p item first next ∧
      Disk.Confined next.disk last.disk (after.flatMap p.touched)
        ((events.take (k + 1)).flatMap p.passed) := by
  obtain ⟨failed, middle, e, found, handled, fault⟩ := fails
  have unbroken : ¬ p.BreaksOff middle failed := fun broken =>
    whole ⟨failed, middle, found, handled, broken⟩
  rw [split, handleAll_append_eq_ok] at handled
  obtain ⟨first, begun, rest⟩ := handled
  obtain ⟨next, here, others⟩ := andThen_eq_ok.mp rest
  have start := confined_handleAll ordered begun
  have effect := handle_effect hosted start.ordered
    (fun removed => start.keepsFolders.reaches (reaches removed)) here
  have later := confined_handleAll effect.ordered others
  have ending := (bounded_handle later.ordered failed :
    Bounded middle (p.handle middle failed.1 failed.2) _ _ _).failed _ (by rw [fault]) unbroken
  rw [fault] at ending
  refine ⟨first, next, start.keepsFolders, effect, (later.trans ending).mono (by simp) ?_⟩
  rw [List.take_add_one, found, split, Option.toList_some]
  simp only [List.flatMap_append, List.flatMap_cons, List.flatMap_nil, List.append_nil]
  intro place listed
  simp only [List.mem_append] at listed ⊢
  exact listed.imp_left fun inAfter => .inr (.inr inAfter)

end Runs

end WorkspaceBuild.Builder.Production
