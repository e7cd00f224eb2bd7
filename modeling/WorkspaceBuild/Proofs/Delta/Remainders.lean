import WorkspaceBuild.Builder
import WorkspaceBuild.Proofs.Delta

/-! # What remains of a delta

Some of the files that a delta reports are put in order, and the outputs of the others stay as they
are. Compared again, the two manifests have the events of the others, called as they were.
-/

namespace WorkspaceBuild

/-- The module and the path that an event is about. -/
def slotOf (item : String × DeltaEvent) : String × String := (item.1, item.2.path)

/-- Where everything is about something else, what is not about a beginning is what comes after
it. -/
theorem filter_eq_drop {α β : Type} [DecidableEq β] {slot : α → β} {xs : List α}
    (distinct : (xs.map slot).Nodup) (k : Nat) :
    xs.filter (fun x => slot x ∉ (xs.take k).map slot) = xs.drop k := by
  have split := List.take_append_drop k xs
  have apart : ∀ x ∈ xs.drop k, slot x ∉ (xs.take k).map slot := by
    rw [← split, List.map_append, List.nodup_append'] at distinct
    intro x listed inFront
    exact distinct.2.2 inFront (List.mem_map_of_mem listed)
  calc xs.filter (fun x => slot x ∉ (xs.take k).map slot)
      = (xs.take k).filter (fun x => slot x ∉ (xs.take k).map slot) ++
          (xs.drop k).filter (fun x => slot x ∉ (xs.take k).map slot) := by
        rw [← List.filter_append, split]
    _ = [] ++ xs.drop k := by
        congr 1
        · exact List.filter_eq_nil_iff.mpr fun x listed => by
            simpa using List.mem_map_of_mem listed
        · exact List.filter_eq_self.mpr fun x listed => by simpa using apart x listed
    _ = xs.drop k := List.nil_append _

namespace Delta

variable {disk later : Disk} {outputRoot : Path} {new : Manifest} {old : Option Manifest}
variable {done : String → String → Prop} [∀ name path, Decidable (done name path)]

/-- The outputs of some tracked files have been put in order: those that are wanted are not stale,
those that are not are gone. The outputs of the others are as they were. -/
structure Remains (disk later : Disk) (outputRoot : Path) (new : Manifest) (old : Option Manifest)
    (done : String → String → Prop) : Prop where
  produced : ∀ name path category entry, done name path →
    Manifest.listed? (some new) name path = some (category, entry) →
      ¬ IsStale (outputTime? later (moduleOutput outputRoot name) entry) entry.updated
  gone : ∀ name path category entry, done name path →
    Manifest.listed? (some new) name path = none →
      Manifest.listed? old name path = some (category, entry) →
        outputTime? later (moduleOutput outputRoot name) entry = none
  kept : ∀ name path category entry, ¬ done name path →
    (Manifest.listed? (some new) name path).or (Manifest.listed? old name path) =
      some (category, entry) →
        outputTime? later (moduleOutput outputRoot name) entry =
          outputTime? disk (moduleOutput outputRoot name) entry

/-- The events that remain of a module are those of the files that are not in order. -/
theorem Remains.eventsOf_eq (h : Remains disk later outputRoot new old done) (name : String) :
    eventsOf later outputRoot name (new.module? name) (old.bind fun o => o.module? name) =
      (eventsOf disk outputRoot name (new.module? name) (old.bind fun o => o.module? name)).filter
        fun event => ¬ done name event.path := by
  have whole {events : Option DeltaEvent}
      (all : ∀ event, events = some event → ¬ done name event.path) :
      events.filter (fun event => ¬ done name event.path) = events := by
    cases events with
    | none => rfl
    | some event => simp [all event rfl]
  rw [Delta.eventsOf, Delta.eventsOf, ofModule, ofModule, List.filter_append, List.filter_filterMap,
    List.filter_filterMap]
  congr 1
  · refine List.filterMap_congr fun pair listed => ?_
    obtain ⟨path, file⟩ := pair
    dsimp only
    have known : Manifest.listed? (some new) name path = some (file.category, file.entry) :=
      mem_trackedOf.mp listed
    by_cases settled : done name path
    · have fresh := h.produced name path _ _ settled known
      have nothing : eventOf? later (moduleOutput outputRoot name)
          (trackedOf (old.bind fun o => o.module? name)) path file = none := by
        rw [Option.eq_none_iff_forall_ne_some]
        intro event said
        exact fresh (eventOf?_eq_some_iff.mp said).2.2.1
      rw [nothing, eq_comm, Option.filter_eq_none_iff]
      intro event said
      simp [(eventOf?_eq_some_iff.mp said).1, settled]
    · have same := h.kept name path _ _ settled (by rw [known]; rfl)
      rw [eventOf?, eventOf?, same, whole]
      intro event said
      obtain ⟨_, _, rfl⟩ := Option.map_eq_some_iff.mp said
      exact settled
  · refine List.filterMap_congr fun pair listed => ?_
    obtain ⟨path, file⟩ := pair
    dsimp only
    have known : Manifest.listed? old name path = some (file.category, file.entry) :=
      mem_trackedOf.mp listed
    by_cases settled : done name path
    · have nothing : removalOf? later (moduleOutput outputRoot name)
          (trackedOf (new.module? name)) path file = none := by
        rw [Option.eq_none_iff_forall_ne_some]
        intro event said
        obtain ⟨_, missing, present⟩ := removalOf?_eq_some_iff.mp said
        rw [h.gone name path _ _ settled missing known] at present
        cases present
      rw [nothing, eq_comm, Option.filter_eq_none_iff]
      intro event said
      obtain ⟨rfl, _⟩ := removalOf?_eq_some_iff.mp said
      simp [settled]
    · have alike : removalOf? later (moduleOutput outputRoot name) (trackedOf (new.module? name)) path
          file = removalOf? disk (moduleOutput outputRoot name) (trackedOf (new.module? name)) path file := by
        refine Option.ext fun event => ?_
        rw [removalOf?_eq_some_iff, removalOf?_eq_some_iff]
        refine and_congr_right fun _ => and_congr_right fun missing => ?_
        have nowhere : Manifest.listed? (some new) name path = none := missing
        rw [h.kept name path _ _ settled (by rw [nowhere]; exact known)]
      rw [alike, whole]
      intro event said
      obtain ⟨rfl, _⟩ := removalOf?_eq_some_iff.mp said
      exact settled

theorem Remains.between_eq (h : Remains disk later outputRoot new old done)
    (named : IsAscending new.modules.keys) (namedBefore : IsAscending (modulesOf old).keys) :
    between later outputRoot new old =
      ((between disk outputRoot new old).mapKeyed fun name events =>
        events.filter fun event => ¬ done name event.path).filter
          fun pair => new.modules.has pair.1 || !pair.2.isEmpty := by
  have ascending : IsAscending ((between disk outputRoot new old).mapKeyed fun name events =>
      events.filter fun event => ¬ done name event.path).keys := by
    rw [Assoc.keys_mapKeyed]
    exact isAscending_between
  refine Assoc.ext_get? isAscending_between
    (List.Pairwise.sublist (Assoc.keys_filter_sublist _ _) ascending) fun name => ?_
  rw [get?_between named namedBefore, Assoc.get?_filter ascending.nodup, Assoc.get?_mapKeyed,
    get?_between named namedBefore, h.eventsOf_eq]
  generalize eventsOf disk outputRoot name _ _ = events
  cases known : new.modules.has name with
  | true => simp [known, Option.filter]
  | false => cases events <;> simp [known, Option.filter]

end Delta

/-- The events that remain are, in their order, those of the files that are not in order. -/
theorem Builder.eventsOf_of_remains {disk later : Disk} {outputRoot : Path} {new : Manifest}
    {old : Option Manifest} {done : String → String → Prop} [∀ name path, Decidable (done name path)]
    (h : Delta.Remains disk later outputRoot new old done)
    (named : IsAscending new.modules.keys) (namedBefore : IsAscending (Delta.modulesOf old).keys) :
    eventsOf (.between later outputRoot new old) =
      (eventsOf (.between disk outputRoot new old)).filter fun item => ¬ done item.1 item.2.path := by
  rw [h.between_eq named namedBefore]
  generalize Delta.between disk outputRoot new old = delta
  have cons (name : String) (events : List DeltaEvent) (rest : Delta) :
      eventsOf ((name, events) :: rest) = events.map (fun event => (name, event)) ++ eventsOf rest := rfl
  induction delta with
  | nil => rfl
  | cons pair rest ih =>
      obtain ⟨name, events⟩ := pair
      have here : (events.map fun event => (name, event)).filter (fun item => ¬ done item.1 item.2.path) =
          (events.filter fun event => ¬ done name event.path).map fun event => (name, event) := by
        rw [List.filter_map]
        rfl
      have mapped (f : String → List DeltaEvent → List DeltaEvent) :
          Assoc.mapKeyed ((name, events) :: rest) f = (name, f name events) :: Assoc.mapKeyed rest f :=
        rfl
      rw [cons, List.filter_append, here, ← ih, mapped, List.filter_cons]
      split
      · rfl
      · -- a module that is left out has no events
        rename_i leftOut
        have none : (events.filter fun event => ¬ done name event.path) = [] := by
          simpa using (Bool.or_eq_false_iff.mp (Bool.eq_false_iff.mpr leftOut)).2
        rw [none, List.map_nil, List.nil_append]

end WorkspaceBuild
