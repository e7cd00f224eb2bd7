import WorkspaceBuild.Proofs.Builder.Runs
import WorkspaceBuild.Proofs.Delta
import WorkspaceBuild.Proofs.Snapshot

/-! # Plans of a build

What holds of a plan before it is carried out. Its events come by module, those of files before
removals; the way to every output that is to be deleted is there; and the output of a tracked file
is there or one of the events asks for it.
-/

namespace WorkspaceBuild

/-- A delta looks for outputs where they are produced. -/
theorem Module.IsSound.outputTime?_eq {outputRoot : Path} {m : Module}
    (sound : m.IsSound outputRoot) (disk : Disk) (entry : FileEntry) :
    Delta.outputTime? disk (moduleOutput outputRoot m.name) entry =
      disk.modified? (m.outputPath entry) := by
  rw [Delta.outputTime?, Module.outputPath, sound.output]

namespace Builder

open Production

variable {σ : Type}

theorem mem_eventsOf {delta : Delta} {name : String} {event : DeltaEvent} :
    (name, event) ∈ eventsOf delta ↔ delta.Reports name event := by
  simp only [eventsOf, List.mem_flatMap, List.mem_map, Delta.Reports, Prod.mk.injEq, Prod.exists]
  constructor
  · rintro ⟨_, events, listed, _, member, rfl, rfl⟩
    exact ⟨events, listed, member⟩
  · rintro ⟨events, listed, member⟩
    exact ⟨name, events, listed, event, member, rfl, rfl⟩

section Plans

variable {b : Builder σ} {disk : Disk} {session : Session} {now : Nat} {plan : BuildPlan}

/-- What the plan of a build rests on. -/
structure IsPlanned (b : Builder σ) (disk : Disk) (plan : BuildPlan) : Prop where
  named : IsAscending plan.manifest.modules.keys
  namedBefore : IsAscending (Delta.modulesOf plan.previous).keys
  sound : ∀ name m, plan.manifest.module? name = some m →
    m.name = name ∧ m.IsSound b.settings.outputRoot
  delta : plan.delta = .between disk b.settings.outputRoot plan.manifest plan.previous

theorem plan_cases (b : Builder σ) (disk : Disk) (session : Session) (now : Nat) :
    (∃ e, b.graph disk = .error e ∧ b.plan disk session now = (session, .error e)) ∨
      ∃ graph, b.graph disk = .ok graph ∧ b.plan disk session now =
        ((Snapshot.take disk b.settings b.full now graph session).1,
          (Snapshot.take disk b.settings b.full now graph session).2.map (b.planFor disk)) := by
  unfold Builder.plan
  cases b.graph disk with
  | error e => exact .inl ⟨e, rfl, rfl⟩
  | ok graph => exact .inr ⟨graph, rfl, rfl⟩

theorem plan_eq_ok_iff : (b.plan disk session now).2 = .ok plan ↔
    ∃ graph manifest, b.graph disk = .ok graph ∧
      (Snapshot.take disk b.settings b.full now graph session).2 = .ok manifest ∧
      b.planFor disk manifest = plan := by
  rcases b.plan_cases disk session now with ⟨e, resolved, same⟩ | ⟨graph, resolved, same⟩
  · simp [same, resolved]
  · simp [same, resolved, map_eq_ok]

theorem made_plan (made : session.Made) : (b.plan disk session now).1.Made := by
  rcases b.plan_cases disk session now with ⟨e, _, same⟩ | ⟨graph, _, same⟩
  · rw [same]
    exact made
  · rw [same]
    exact Snapshot.made_take made

theorem isPlanned_of_plan (classified : session.IsClassified)
    (planned : (b.plan disk session now).2 = .ok plan) : b.IsPlanned disk plan := by
  obtain ⟨graph, manifest, _, taken, rfl⟩ := plan_eq_ok_iff.mp planned
  obtain ⟨named, sound⟩ := Snapshot.isSound_of_take classified taken
  refine ⟨named, ?_, sound, rfl⟩
  change IsAscending (Delta.modulesOf (Manifest.loadPrevious? disk b.settings.manifestPath)).keys
  cases previous : Manifest.loadPrevious? disk b.settings.manifestPath with
  | none => exact List.Pairwise.nil
  | some old => exact Manifest.isAscending_of_loadPrevious? previous

theorem IsPlanned.isAscending (h : b.IsPlanned disk plan) : IsAscending plan.delta.keys := by
  rw [h.delta]
  exact Delta.isAscending_between

/-- What a plan lists for a module are the events of the module. -/
theorem IsPlanned.eq_eventsOf (h : b.IsPlanned disk plan) {name : String} {events : List DeltaEvent}
    (listed : (name, events) ∈ plan.delta) :
    events = Delta.eventsOf disk b.settings.outputRoot name (plan.manifest.module? name)
      (plan.previous.bind fun o => o.module? name) := by
  have said := Assoc.get?_of_mem h.isAscending.nodup listed
  rw [h.delta, Delta.get?_between h.named h.namedBefore, Option.ite_none_right_eq_some] at said
  exact (Option.some_inj.mp said.2).symm

/-- The events of a plan come by module, the removals of a module last. -/
theorem IsPlanned.inOrder (h : b.IsPlanned disk plan) :
    (eventsOf plan.delta).Pairwise Precedes := by
  rw [eventsOf, List.pairwise_flatMap]
  constructor
  · rintro ⟨name, events⟩ listed
    rw [h.eq_eventsOf listed, List.pairwise_map]
    exact (Delta.removals_last _ _ _ _ _).imp fun removals => .inr ⟨rfl, removals⟩
  · refine (List.pairwise_map.mp h.isAscending).imp fun less first listed second listedToo => ?_
    obtain ⟨_, _, rfl⟩ := List.mem_map.mp listed
    obtain ⟨_, _, rfl⟩ := List.mem_map.mp listedToo
    exact .inl (compareOfLessAndEq_eq_lt.mp less)

/-- A removal is only planned when the way to the output is there. -/
theorem IsPlanned.reaches_goneOutput (h : b.IsPlanned disk plan) {item : String × DeltaEvent}
    (member : item ∈ eventsOf plan.delta) (removed : item.2.action = .removed) :
    disk.Reaches ((b.production plan.manifest now).goneOutput item.1 item.2) := by
  rw [mem_eventsOf, h.delta, Delta.reports_iff h.named h.namedBefore,
    Delta.mem_eventsOf_of_removed removed] at member
  obtain ⟨_, entry, listed, present⟩ := member
  obtain ⟨old, _, listed⟩ := Option.bind_eq_some_iff.mp listed
  obtain ⟨_, _, path⟩ := Module.mem_of_listed? listed
  obtain ⟨reaches, _⟩ := Disk.modified?_isSome_iff.mp present
  rw [FileEntry.outputPath, Disk.reaches_compiledPath_iff, path] at reaches
  exact Disk.reaches_compiledPath_iff.mpr reaches

/-- An event of a listed file finds an entry that is listed under its category with its path. -/
theorem exists_mem_entryOf? {m : Module} (ascending : IsAscending m.files.keys) {category : Category}
    {entry : FileEntry} (member : (category, entry) ∈ m.entries) {event : DeltaEvent}
    (path : event.path = entry.path) (same : event.category = category) :
    ∃ other, entryOf? m event = some other ∧ (category, other) ∈ m.entries ∧
      other.path = entry.path := by
  subst same
  have listed := (Module.mem_entries ascending).mp member
  rw [entryOf?]
  cases found : ((m.files.get? event.category).getD []).find? (·.path = event.path) with
  | none =>
      have none := List.find?_eq_none.mp found entry listed
      simp [path] at none
  | some other =>
      have otherPath : other.path = event.path := by simpa using List.find?_some found
      exact ⟨other, rfl, (Module.mem_entries ascending).mpr (List.mem_of_find?_eq_some found),
        otherPath.trans path⟩

/-- An event of a file leads to an entry of the file, whatever it says is to be done. -/
theorem exists_entryOf? {outputRoot : Path} {m : Module} (sound : m.IsSound outputRoot)
    {category : Category} {entry : FileEntry} (member : (category, entry) ∈ m.entries)
    {event : DeltaEvent} (path : event.path = entry.path) (same : event.category = category) :
    ∃ other, entryOf? m event = some other ∧ other.path = entry.path ∧ other.kind = entry.kind := by
  obtain ⟨other, found, listed, otherPath⟩ := exists_mem_entryOf? sound.ascending member path same
  refine ⟨other, found, otherPath, ?_⟩
  rw [sound.kinds _ _ listed, sound.kinds _ _ member, otherPath]

theorem outputPath_entryOf? {outputRoot : Path} {m : Module} (sound : m.IsSound outputRoot)
    {category : Category} {entry : FileEntry} (member : (category, entry) ∈ m.entries)
    {event : DeltaEvent} (path : event.path = entry.path) (same : event.category = category) :
    (entryOf? m event).map m.outputPath = some (m.outputPath entry) := by
  obtain ⟨other, found, otherPath, otherKind⟩ := exists_entryOf? sound member path same
  simp [found, Module.outputPath, FileEntry.outputPath, otherPath, otherKind]

/-- The output of a tracked file is there, or an event asks for it. -/
theorem IsPlanned.present_or_wanted (h : b.IsPlanned disk plan) {name path : String} {m : Module}
    {file : TrackedFile} (known : plan.manifest.module? name = some m)
    (tracked : m.tracked.get? path = some file) :
    (disk.modified? (m.outputPath file.entry)).isSome ∨
      ∃ item ∈ eventsOf plan.delta,
        (b.production plan.manifest now).wanted? item.1 item.2 = some (m.outputPath file.entry) := by
  obtain ⟨rfl, sound⟩ := h.sound name m known
  rw [Module.get?_tracked, Option.map_eq_some_iff] at tracked
  obtain ⟨⟨category, entry⟩, listed, rfl⟩ := tracked
  obtain ⟨member, _, rfl⟩ := Module.mem_of_listed? listed
  have outputTime := sound.outputTime?_eq disk entry
  by_cases stale : IsStale (disk.modified? (m.outputPath entry)) entry.updated
  · refine .inr ?_
    let previous := (plan.previous.bind fun o => o.module? m.name).bind fun old =>
      old.listed? entry.path
    let label := Delta.labelOf (disk.modified? (m.outputPath entry)) entry previous
    have needed : label.needsOutput := Delta.labelOf_needsOutput _ _ _
    refine ⟨(m.name, ⟨entry.path, category, label⟩), ?_, ?_⟩
    · rw [mem_eventsOf, h.delta, Delta.reports_iff h.named h.namedBefore,
        Delta.mem_eventsOf_of_needsOutput needed]
      refine ⟨entry, by rw [known]; exact listed, ?_, ?_⟩
      · rwa [outputTime]
      · rw [outputTime]
    · have alike : (entryOf? m ⟨entry.path, category, label⟩).map m.outputPath =
          some (m.outputPath entry) := outputPath_entryOf? sound member rfl rfl
      rw [wanted?, if_pos needed]
      exact (congrArg (Option.bind · _) known).trans alike
  · refine .inl ?_
    cases time : disk.modified? (m.outputPath entry) with
    | none => exact absurd (.inl time) stale
    | some time => rfl

end Plans

end Builder

end WorkspaceBuild
