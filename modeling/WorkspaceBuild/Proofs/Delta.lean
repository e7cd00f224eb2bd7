import WorkspaceBuild.Delta
import WorkspaceBuild.Proofs.Assoc

/-! # What a delta reports

A file of the new manifest is reported exactly when its output is stale, whatever the manifest of
the build before; that manifest only decides what the event is called, and which outputs have lost
their file.
-/

namespace WorkspaceBuild

/-- An output has to be produced: it cannot be read, or it is older than its file. -/
def IsStale (output : Option Nat) (updated : Nat) : Prop :=
  output = none ∨ ∃ time, output = some time ∧ time < updated

namespace Module

/-- Each path stands once in the module. -/
def ListsOnce (m : Module) : Prop := (m.entries.map fun entry => entry.2.path).Nodup

instance (m : Module) : Decidable m.ListsOnce :=
  inferInstanceAs (Decidable (List.Nodup _))

/-- The tracked file that a module lists under a path, the last one if there are several. -/
def listed? (m : Module) (path : String) : Option (Category × FileEntry) :=
  (m.entries.filter fun (category, entry) => category.isTracked && entry.path == path).getLast?

theorem get?_tracked (m : Module) (path : String) :
    m.tracked.get? path = (m.listed? path).map fun (category, entry) => ⟨category, entry⟩ := by
  rw [tracked, Assoc.get?_ofPairs, listed?, List.getLast?_eq_head?_reverse, ← List.filter_reverse,
    ← List.map_reverse, ← List.filter_reverse]
  induction m.entries.reverse with
  | nil => rfl
  | cons pair rest ih =>
      obtain ⟨category, entry⟩ := pair
      by_cases tracked : category.isTracked <;> by_cases found : entry.path = path
      · simp [tracked, found, Assoc.get?_cons]
      · simp [tracked, found, Ne.symm found, Assoc.get?_cons, ih]
      · simp [tracked, ih]
      · simp [tracked, ih]

theorem mem_of_listed? {m : Module} {path : String} {found : Category × FileEntry}
    (listed : m.listed? path = some found) :
    found ∈ m.entries ∧ found.1.isTracked ∧ found.2.path = path := by
  simpa using List.mem_of_getLast? listed

/-- Where each path stands once, a tracked entry is the one listed under its path. -/
theorem ListsOnce.listed? {m : Module} (once : m.ListsOnce) {category : Category}
    {entry : FileEntry} {path : String} :
    m.listed? path = some (category, entry) ↔
      (category, entry) ∈ m.entries ∧ category.isTracked ∧ entry.path = path := by
  refine ⟨mem_of_listed?, ?_⟩
  rintro ⟨member, tracked, same⟩
  cases found : m.listed? path with
  | none =>
      have absent := List.filter_eq_nil_iff.mp (List.getLast?_eq_none_iff.mp found) _ member
      simp [tracked, same] at absent
  | some other =>
      obtain ⟨otherMember, _, otherPath⟩ := mem_of_listed? found
      rw [List.inj_on_of_nodup_map once otherMember member (otherPath.trans same.symm)]

end Module

/-- The tracked file that a manifest, if there is one, lists under a path of a module. -/
def Manifest.listed? (m : Option Manifest) (name path : String) : Option (Category × FileEntry) :=
  (m.bind fun m => m.module? name).bind fun m => m.listed? path

namespace Delta

/-- An event of a module. -/
def Reports (delta : Delta) (name : String) (event : DeltaEvent) : Prop :=
  ∃ events, (name, events) ∈ delta ∧ event ∈ events

/-- A file of a module is reported as one whose output has to be produced. -/
def Demands (delta : Delta) (name path : String) : Prop :=
  ∃ event, delta.Reports name event ∧ event.path = path ∧ event.action.needsOutput

/-- What a stale output is called, by the entry of the build before. -/
def labelOf (output : Option Nat) (entry : FileEntry) : Option (Category × FileEntry) → DeltaAction
  | none => .added
  | some (_, previous) =>
      if previous.updated ≠ entry.updated then .changed
      else if output = none then .missing
      else .dirty

/-- The three ways to compare an output with its file say the same. -/
theorem actionOf?_eq_some_iff {output : Option Nat} {entry : FileEntry}
    {previous : Option (Category × FileEntry)} {action : DeltaAction} :
    actionOf? output entry (previous.map fun (category, entry) => ⟨category, entry⟩) =
        some action ↔
      IsStale output entry.updated ∧ action = labelOf output entry previous := by
  cases previous with
  | none =>
      cases output with
      | none => simp [actionOf?, IsStale, labelOf, eq_comm]
      | some time =>
          rcases Nat.lt_or_ge time entry.updated with older | fresh
          · simp [actionOf?, IsStale, labelOf, older, Nat.not_le_of_lt older, eq_comm]
          · simp [actionOf?, IsStale, labelOf, fresh, Nat.not_lt_of_le fresh]
  | some previous =>
      by_cases touched : previous.2.updated = entry.updated <;> cases output with
      | none => simp [actionOf?, IsStale, labelOf, touched, eq_comm]
      | some time =>
          rcases Nat.lt_or_ge time entry.updated with older | fresh
          · simp [actionOf?, IsStale, labelOf, touched, older, Nat.not_le_of_lt older, eq_comm]
          · simp [actionOf?, IsStale, labelOf, touched, fresh, Nat.not_lt_of_le fresh]

theorem labelOf_needsOutput (output : Option Nat) (entry : FileEntry)
    (previous : Option (Category × FileEntry)) : (labelOf output entry previous).needsOutput := by
  unfold labelOf
  split
  · rfl
  · split
    · rfl
    · split <;> rfl

theorem labelOf_ne_removed (output : Option Nat) (entry : FileEntry)
    (previous : Option (Category × FileEntry)) : labelOf output entry previous ≠ .removed := by
  intro removed
  have needed := labelOf_needsOutput output entry previous
  rw [removed] at needed
  cases needed

theorem get?_trackedOf (m : Option Module) (path : String) :
    (trackedOf m).get? path =
      (m.bind fun m => m.listed? path).map fun (category, entry) => ⟨category, entry⟩ := by
  cases m with
  | none => rfl
  | some m => exact m.get?_tracked path

theorem isAscending_trackedOf (m : Option Module) : IsAscending (trackedOf m).keys := by
  cases m with
  | none => exact List.Pairwise.nil
  | some m => exact Assoc.isAscending_ofPairs _

theorem mem_trackedOf {m : Option Module} {path : String} {file : TrackedFile} :
    (path, file) ∈ trackedOf m ↔
      (m.bind fun m => m.listed? path) = some (file.category, file.entry) := by
  rw [Assoc.mem_iff_get? (isAscending_trackedOf m).nodup, get?_trackedOf, Option.map_eq_some_iff]
  constructor
  · rintro ⟨_, listed, rfl⟩
    exact listed
  · exact fun listed => ⟨_, listed, rfl⟩

theorem eventOf?_eq_some_iff {disk : Disk} {folder : Path} {old : Option Module} {path : String}
    {file : TrackedFile} {event : DeltaEvent} :
    eventOf? disk folder (trackedOf old) path file = some event ↔
      event.path = path ∧ event.category = file.category ∧
        IsStale (outputTime? disk folder file.entry) file.entry.updated ∧
        event.action = labelOf (outputTime? disk folder file.entry) file.entry
          (old.bind fun m => m.listed? path) := by
  rw [eventOf?, get?_trackedOf, Option.map_eq_some_iff]
  simp only [actionOf?_eq_some_iff]
  constructor
  · rintro ⟨action, ⟨stale, rfl⟩, rfl⟩
    exact ⟨rfl, rfl, stale, rfl⟩
  · rintro ⟨rfl, same, stale, label⟩
    exact ⟨event.action, ⟨stale, label⟩, by rw [← same]⟩

theorem removalOf?_eq_some_iff {disk : Disk} {folder : Path} {new : Option Module} {path : String}
    {file : TrackedFile} {event : DeltaEvent} :
    removalOf? disk folder (trackedOf new) path file = some event ↔
      event = ⟨path, file.category, .removed⟩ ∧ (new.bind fun m => m.listed? path) = none ∧
        (outputTime? disk folder file.entry).isSome := by
  rw [removalOf?, Option.ite_none_right_eq_some, Bool.and_eq_true, Bool.not_eq_true', Assoc.has,
    get?_trackedOf, Option.isSome_map, Option.isSome_eq_false_iff, Option.isNone_iff_eq_none,
    Option.some_inj, and_comm, eq_comm]

/-- The events of a module that ask for an output are those of its stale files. -/
theorem mem_eventsOf_of_needsOutput {disk : Disk} {outputRoot : Path} {name : String}
    {new old : Option Module} {event : DeltaEvent} (needed : event.action.needsOutput) :
    event ∈ eventsOf disk outputRoot name new old ↔
      ∃ entry, (new.bind fun m => m.listed? event.path) = some (event.category, entry) ∧
        IsStale (outputTime? disk (moduleOutput outputRoot name) entry) entry.updated ∧
        event.action = labelOf (outputTime? disk (moduleOutput outputRoot name) entry) entry
          (old.bind fun m => m.listed? event.path) := by
  simp only [eventsOf, ofModule, List.mem_append, List.mem_filterMap, Prod.exists, mem_trackedOf,
    eventOf?_eq_some_iff, removalOf?_eq_some_iff]
  constructor
  · rintro (⟨_, file, listed, rfl, category, stale, label⟩ | ⟨_, _, _, rfl, _⟩)
    · exact ⟨file.entry, category ▸ listed, stale, label⟩
    · cases needed
  · rintro ⟨entry, listed, stale, label⟩
    exact .inl ⟨event.path, ⟨event.category, entry⟩, listed, rfl, rfl, stale, label⟩

/-- The removals of a module are the present outputs of files that it tracks no more. -/
theorem mem_eventsOf_of_removed {disk : Disk} {outputRoot : Path} {name : String}
    {new old : Option Module} {event : DeltaEvent} (removed : event.action = .removed) :
    event ∈ eventsOf disk outputRoot name new old ↔
      (new.bind fun m => m.listed? event.path) = none ∧
        ∃ entry, (old.bind fun m => m.listed? event.path) = some (event.category, entry) ∧
          (outputTime? disk (moduleOutput outputRoot name) entry).isSome := by
  simp only [eventsOf, ofModule, List.mem_append, List.mem_filterMap, Prod.exists, mem_trackedOf,
    eventOf?_eq_some_iff, removalOf?_eq_some_iff]
  constructor
  · rintro (⟨_, file, _, _, _, _, label⟩ | ⟨_, file, listed, rfl, gone, present⟩)
    · exact absurd (label.symm.trans removed) (labelOf_ne_removed _ _ _)
    · exact ⟨gone, file.entry, listed, present⟩
  · rintro ⟨gone, entry, listed, present⟩
    exact .inr ⟨event.path, ⟨event.category, entry⟩, listed, by rw [← removed], gone, present⟩

/-- The events of a module end with its removals. -/
theorem removals_last (disk : Disk) (outputRoot : Path) (name : String) (new old : Option Module) :
    (eventsOf disk outputRoot name new old).Pairwise fun first second =>
      first.action = .removed → second.action = .removed := by
  have produced (path : String) (file : TrackedFile) (event : DeltaEvent)
      (said : eventOf? disk (moduleOutput outputRoot name) (trackedOf old) path file = some event) :
      event.action ≠ .removed := by
    obtain ⟨_, _, _, label⟩ := eventOf?_eq_some_iff.mp said
    rw [label]
    exact labelOf_ne_removed _ _ _
  have gone (path : String) (file : TrackedFile) (event : DeltaEvent)
      (said : removalOf? disk (moduleOutput outputRoot name) (trackedOf new) path file =
        some event) : event.action = .removed := by
    obtain ⟨rfl, _⟩ := removalOf?_eq_some_iff.mp said
    rfl
  rw [eventsOf, ofModule, List.pairwise_append, List.pairwise_filterMap, List.pairwise_filterMap]
  refine ⟨?_, ?_, ?_⟩
  · exact List.pairwise_of_forall fun x _ first said _ _ removed =>
      absurd removed (produced _ _ first said)
  · exact List.pairwise_of_forall fun _ y _ _ second said _ => gone _ _ second said
  · intro first member _ _ removed
    obtain ⟨pair, _, said⟩ := List.mem_filterMap.mp member
    exact absurd removed (produced _ _ first said)

/-- Events that keep the paths of their files name a part of the paths of a table. -/
theorem paths_filterMap_sublist (table : TrackedFiles) (f : String → TrackedFile → Option DeltaEvent)
    (keeps : ∀ path file event, f path file = some event → event.path = path) :
    ((table.filterMap fun (path, file) => f path file).map DeltaEvent.path).Sublist table.keys := by
  induction table with
  | nil => exact List.Sublist.slnil
  | cons pair rest ih =>
      obtain ⟨path, file⟩ := pair
      cases selected : f path file with
      | none => simpa [selected] using ih.cons path
      | some event => simpa [selected, keeps path file event selected] using ih.cons_cons path

/-- A module has at most one event for each path. -/
theorem nodup_eventsOf (disk : Disk) (outputRoot : Path) (name : String)
    (new old : Option Module) :
    ((eventsOf disk outputRoot name new old).map DeltaEvent.path).Nodup := by
  have produced := paths_filterMap_sublist (trackedOf new)
    (eventOf? disk (moduleOutput outputRoot name) (trackedOf old))
    fun _ _ _ h => (eventOf?_eq_some_iff.mp h).1
  have removed := paths_filterMap_sublist (trackedOf old)
    (removalOf? disk (moduleOutput outputRoot name) (trackedOf new))
    fun _ _ _ h => congrArg DeltaEvent.path (removalOf?_eq_some_iff.mp h).1
  rw [eventsOf, ofModule, List.map_append, List.nodup_append']
  refine ⟨produced.nodup (isAscending_trackedOf _).nodup,
    removed.nodup (isAscending_trackedOf _).nodup, fun path present gone => ?_⟩
  obtain ⟨event, selected, rfl⟩ := List.mem_map.mp gone
  obtain ⟨pair, _, found⟩ := List.mem_filterMap.mp selected
  obtain ⟨rfl, missing, _⟩ := removalOf?_eq_some_iff.mp found
  have listed := Assoc.get?_isSome_iff.mpr (produced.subset present)
  rw [get?_trackedOf, missing] at listed
  contradiction

/-- The modules of the build before, if there was one. -/
def modulesOf (m : Option Manifest) : Assoc String Module := (m.map Manifest.modules).getD []

theorem get?_modulesOf (m : Option Manifest) (name : String) :
    (modulesOf m).get? name = m.bind fun m => m.module? name := by
  cases m <;> rfl

/-- The events of each module of the new manifest, and those of modules that are gone. -/
theorem between_eq (disk : Disk) (outputRoot : Path) (new : Manifest) (old : Option Manifest) :
    between disk outputRoot new old =
      .ofPairs ((new.modules.mapKeyed fun name m =>
          eventsOf disk outputRoot name (some m) (old.bind fun o => o.module? name)) ++
        (Assoc.mapKeyed ((modulesOf old).filter fun pair => !Assoc.has new.modules pair.1)
          fun name m => eventsOf disk outputRoot name none (some m)).filter
            fun pair => !pair.2.isEmpty) := by
  simp only [← get?_modulesOf]
  rfl

section Tables

variable {disk : Disk} {outputRoot : Path} {new : Manifest} {old : Option Manifest}

theorem isAscending_between : IsAscending (between disk outputRoot new old).keys :=
  Assoc.isAscending_ofPairs _

/-- A module of the delta has its events, and without any it is one of the new manifest. -/
theorem get?_between (named : IsAscending new.modules.keys)
    (namedBefore : IsAscending (modulesOf old).keys) (name : String) :
    (between disk outputRoot new old).get? name =
      let events := eventsOf disk outputRoot name (new.module? name)
        (old.bind fun o => o.module? name)
      if new.modules.has name || !events.isEmpty then some events else none := by
  have goneOnce := (Assoc.keys_filter_sublist (modulesOf old)
    fun pair => !Assoc.has new.modules pair.1).nodup namedBefore.nodup
  rw [between_eq, Assoc.get?_ofPairs_of_nodup, Assoc.get?_append, Assoc.get?_mapKeyed,
    Assoc.get?_filter, Assoc.get?_mapKeyed, Assoc.get?_filter namedBefore.nodup, get?_modulesOf]
  · rw [Assoc.has, Manifest.module?]
    cases here : Assoc.get? new.modules name with
    | some m => simp
    | none =>
        cases before : old.bind fun o => o.module? name with
        | none => simp [eventsOf, ofModule, trackedOf]
        | some m => simp [Assoc.has, here, Option.filter]
  · rw [Assoc.keys_mapKeyed]
    exact goneOnce
  · rw [Assoc.keys_append, Assoc.keys_mapKeyed, List.nodup_append']
    refine ⟨named.nodup, ?_, ?_⟩
    · refine (Assoc.keys_filter_sublist _ _).nodup ?_
      rw [Assoc.keys_mapKeyed]
      exact goneOnce
    · intro key present gone
      have before := (Assoc.keys_filter_sublist _ _).subset gone
      rw [Assoc.keys_mapKeyed] at before
      obtain ⟨pair, kept, rfl⟩ := List.mem_map.mp before
      have absent := (List.mem_filter.mp kept).2
      rw [Assoc.has_iff.mpr present] at absent
      contradiction

theorem reports_iff (named : IsAscending new.modules.keys)
    (namedBefore : IsAscending (modulesOf old).keys) {name : String} {event : DeltaEvent} :
    (between disk outputRoot new old).Reports name event ↔
      event ∈ eventsOf disk outputRoot name (new.module? name)
        (old.bind fun o => o.module? name) := by
  simp only [Reports, Assoc.mem_iff_get? isAscending_between.nodup,
    get?_between named namedBefore, Option.ite_none_right_eq_some, Option.some_inj]
  constructor
  · rintro ⟨_, ⟨_, rfl⟩, member⟩
    exact member
  · intro member
    refine ⟨_, ⟨?_, rfl⟩, member⟩
    simp [List.isEmpty_eq_false_iff_exists_mem.mpr ⟨_, member⟩]

theorem mem_keys_between (named : IsAscending new.modules.keys)
    (namedBefore : IsAscending (modulesOf old).keys) {name : String} :
    name ∈ (between disk outputRoot new old).keys ↔ name ∈ new.modules.keys ∨
      name ∈ (modulesOf old).keys ∧
        ∃ event, (between disk outputRoot new old).Reports name event := by
  simp only [reports_iff named namedBefore]
  rw [← Assoc.get?_isSome_iff, get?_between named namedBefore, ← Assoc.has_iff,
    ← List.isEmpty_eq_false_iff_exists_mem]
  cases here : new.modules.has name with
  | true => simp
  | false =>
      have absent : new.module? name = none := by
        rw [Assoc.has, Option.isSome_eq_false_iff, Option.isNone_iff_eq_none] at here
        exact here
      rw [← Assoc.get?_isSome_iff, get?_modulesOf, absent]
      cases old.bind fun o => o.module? name with
      | none => simp [eventsOf, ofModule, trackedOf]
      | some m => simp

/-- A file is reported as one that needs its output exactly when the output is stale. -/
theorem demands_iff (named : IsAscending new.modules.keys)
    (namedBefore : IsAscending (modulesOf old).keys) {name path : String} :
    (between disk outputRoot new old).Demands name path ↔
      ∃ category entry, Manifest.listed? (some new) name path = some (category, entry) ∧
        IsStale (outputTime? disk (moduleOutput outputRoot name) entry) entry.updated := by
  constructor
  · rintro ⟨event, reported, rfl, needed⟩
    obtain ⟨entry, listed, stale, _⟩ :=
      (mem_eventsOf_of_needsOutput needed).mp ((reports_iff named namedBefore).mp reported)
    exact ⟨event.category, entry, listed, stale⟩
  · rintro ⟨category, entry, listed, stale⟩
    let output := outputTime? disk (moduleOutput outputRoot name) entry
    let label := labelOf output entry (Manifest.listed? old name path)
    have needed : label.needsOutput := labelOf_needsOutput _ _ _
    refine ⟨⟨path, category, label⟩, (reports_iff named namedBefore).mpr ?_, rfl, needed⟩
    exact (mem_eventsOf_of_needsOutput needed).mpr ⟨entry, listed, stale, rfl⟩

end Tables

/-- What a delta says of two manifests and the outputs on a disk. -/
structure IsExact (disk : Disk) (outputRoot : Path) (new : Manifest) (old : Option Manifest)
    (delta : Delta) : Prop where
  /-- A tracked file is reported as one that needs its output just when the output is stale. -/
  demands : ∀ name m category entry, new.module? name = some m → (category, entry) ∈ m.entries →
    category.isTracked → (delta.Demands name entry.path ↔
      IsStale (outputTime? disk (moduleOutput outputRoot name) entry) entry.updated)
  /-- Nothing else is, and the manifest of the build before decides what it is called. -/
  labels : ∀ name event, event.action.needsOutput → delta.Reports name event →
    ∃ m entry, new.module? name = some m ∧ (event.category, entry) ∈ m.entries ∧
      event.category.isTracked ∧ entry.path = event.path ∧
      event.action = labelOf (outputTime? disk (moduleOutput outputRoot name) entry) entry
        (Manifest.listed? old name event.path)
  /-- Removed are the tracked paths that only the old manifest has, if their output is there. -/
  removals : ∀ name path category, delta.Reports name ⟨path, category, .removed⟩ ↔
    Manifest.listed? (some new) name path = none ∧
      ∃ entry, Manifest.listed? old name path = some (category, entry) ∧
        (outputTime? disk (moduleOutput outputRoot name) entry).isSome
  /-- Each path of a module is reported once. -/
  once : ∀ name events, (name, events) ∈ delta → (events.map DeltaEvent.path).Nodup
  /-- Each module has its events in one place. -/
  ascending : IsAscending delta.keys
  /-- The modules of the delta are the new ones and those old ones that have an event. -/
  keys : ∀ name, name ∈ delta.keys ↔ name ∈ new.modules.keys ∨
    (∃ o ∈ old, name ∈ o.modules.keys) ∧ ∃ event, delta.Reports name event

/-- A delta reports stale outputs exactly, and which these are does not depend on the manifest of
the build before. -/
theorem between_isExact (disk : Disk) (outputRoot : Path) (new : Manifest)
    (named : IsAscending new.modules.keys)
    (once : ∀ m ∈ new.modules.values, m.ListsOnce) :
    (∀ old : Option Manifest, (∀ o ∈ old, IsAscending o.modules.keys) →
      IsExact disk outputRoot new old (between disk outputRoot new old)) ∧
    ∀ first second : Option Manifest, (∀ o ∈ first, IsAscending o.modules.keys) →
      (∀ o ∈ second, IsAscending o.modules.keys) → ∀ name path,
      ((between disk outputRoot new first).Demands name path ↔
        (between disk outputRoot new second).Demands name path) := by
  have tables {old : Option Manifest} (h : ∀ o ∈ old, IsAscending o.modules.keys) :
      IsAscending (modulesOf old).keys := by
    cases old with
    | none => exact List.Pairwise.nil
    | some o => exact h o rfl
  have listsOnce {name : String} {m : Module} (found : new.module? name = some m) : m.ListsOnce :=
    once m (List.mem_map.mpr ⟨(name, m), Assoc.mem_of_get? found, rfl⟩)
  refine ⟨fun old namedBefore => ?_, fun first second namedFirst namedSecond name path => ?_⟩
  · have before := tables namedBefore
    refine
      { demands := fun name m category entry found member tracked => ?_
        labels := fun name event needed reported => ?_
        removals := fun name path category => ?_
        once := fun name events member => ?_
        ascending := isAscending_between
        keys := fun name => ?_ }
    · have listed : Manifest.listed? (some new) name entry.path = some (category, entry) := by
        simp only [Manifest.listed?, Option.bind_some, found]
        exact (listsOnce found).listed?.mpr ⟨member, tracked, rfl⟩
      simp [demands_iff named before, listed]
    · obtain ⟨entry, listed, _, label⟩ :=
        (mem_eventsOf_of_needsOutput needed).mp ((reports_iff named before).mp reported)
      obtain ⟨m, found, listed⟩ := Option.bind_eq_some_iff.mp listed
      obtain ⟨member, tracked, same⟩ := (listsOnce found).listed?.mp listed
      exact ⟨m, entry, found, member, tracked, same, label⟩
    · rw [reports_iff named before, mem_eventsOf_of_removed rfl]
      rfl
    · rw [Assoc.mem_iff_get? isAscending_between.nodup, get?_between named before,
        Option.ite_none_right_eq_some, Option.some_inj] at member
      exact member.2 ▸ nodup_eventsOf _ _ _ _ _
    · rw [mem_keys_between named before]
      cases old <;> simp [modulesOf]
  · rw [demands_iff named (tables namedFirst), demands_iff named (tables namedSecond)]

/-- A manifest of one module with files below `src`. -/
def sampleManifest (files : List FileEntry) : Manifest where
  version := Manifest.currentVersion
  workspace := ⟨⟨"/ws"⟩, "app", false, .npm⟩
  paths := ⟨⟨"/ws/tsc"⟩, ⟨"/out"⟩, ⟨".loom"⟩, ⟨"/ws/types"⟩, none⟩
  main := ⟨"app", "1.0.0", ⟨"/ws"⟩⟩
  generated := 0
  modules := [("app",
    { name := "app", version := "1.0.0", source := ⟨"/ws"⟩, output := ⟨"/out/node_modules/app"⟩
      main := true, workspace := true, internal := false, prod := true, roles := [.standard]
      parents := [], profiles := [], files := [(.src, files)] })]

/-- Outputs of three sources with the time 10. -/
def sampleOutputs : Disk :=
  let output (name : String) : String × Item := (name, .file (.text "") 10)
  let folder (name : String) (entries : List (String × Item)) : String × Item :=
    (name, .folder entries 0)
  ⟨[folder "out" [folder "node_modules" [folder "app" [folder "src"
    [output "a.js", output "b.js", output "c.js"]]]]]⟩

theorem between_isExact_sample :
    let new := sampleManifest [⟨"src/a.ts", .source, 20, none, []⟩, ⟨"src/b.ts", .source, 5, none, []⟩]
    let old := sampleManifest [⟨"src/a.ts", .source, 8, none, []⟩, ⟨"src/c.ts", .source, 8, none, []⟩]
    IsAscending new.modules.keys ∧ IsAscending old.modules.keys ∧
      (∀ m ∈ new.modules.values, m.ListsOnce) ∧
      IsExact sampleOutputs ⟨"/out"⟩ new old
        [("app", [⟨"src/a.ts", .src, .changed⟩, ⟨"src/c.ts", .src, .removed⟩])] := by
  intro new old
  have named : IsAscending new.modules.keys := by decide
  have namedBefore : IsAscending old.modules.keys := by decide
  have once : ∀ m ∈ new.modules.values, m.ListsOnce := by decide
  have delta : between sampleOutputs ⟨"/out"⟩ new old =
      [("app", [⟨"src/a.ts", .src, .changed⟩, ⟨"src/c.ts", .src, .removed⟩])] := by decide
  refine ⟨named, namedBefore, once, ?_⟩
  rw [← delta]
  refine (between_isExact sampleOutputs ⟨"/out"⟩ new named once).1 old ?_
  rintro o ⟨⟩
  exact namedBefore

end Delta

end WorkspaceBuild
