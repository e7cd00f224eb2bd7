import WorkspaceBuild.Proofs.Builder.Steps

/-! # Runs of a build

Events are handled one after another, each with its effect. So a place is there in the end unless a
removal that leads to it comes after all that makes it, and a removal is reported for a place that
was there when it came.
-/

namespace WorkspaceBuild.Builder.Production

variable {σ : Type} {p : Production σ}

/-- Events handled one after another, each with its effect. -/
inductive Run (p : Production σ) :
    List (String × DeltaEvent) → BuildState σ → BuildState σ → Prop where
  | done (state : BuildState σ) (ordered : state.disk.IsOrdered) : Run p [] state state
  | step {item : String × DeltaEvent} {rest : List (String × DeltaEvent)}
      {state middle last : BuildState σ} (effect : Effect p item state middle)
      (later : Run p rest middle last) : Run p (item :: rest) state last

/-- A removal clears a place after all that makes it. -/
def Lost (p : Production σ) (events : List (String × DeltaEvent)) (place : Place) : Prop :=
  ∃ before item after, events = before ++ item :: after ∧ p.Clears item place ∧
    ∀ later ∈ after, ¬ p.Makes later place

/-- A removal clears a place that was there or was made before. -/
def Hit (p : Production σ) (present : Prop) (events : List (String × DeltaEvent))
    (place : Place) : Prop :=
  ∃ before item after, events = before ++ item :: after ∧ p.Clears item place ∧
    (present ∨ ∃ earlier ∈ before, p.Makes earlier place)

section Cons

variable {item : String × DeltaEvent} {rest : List (String × DeltaEvent)} {place : Place}

/-- To split a list is to split at its first element or later. -/
theorem exists_split_cons {α : Type} {P : List α → α → List α → Prop} {x : α} {xs : List α} :
    (∃ before y after, x :: xs = before ++ y :: after ∧ P before y after) ↔
      P [] x xs ∨ ∃ before y after, xs = before ++ y :: after ∧ P (x :: before) y after := by
  constructor
  · rintro ⟨before, y, after, split, holds⟩
    cases before with
    | nil =>
        cases split
        exact .inl holds
    | cons z before =>
        cases split
        exact .inr ⟨before, y, after, rfl, holds⟩
  · rintro (holds | ⟨before, y, after, rfl, holds⟩)
    · exact ⟨[], x, xs, rfl, holds⟩
    · exact ⟨x :: before, y, after, rfl, holds⟩

theorem not_lost_nil : ¬ p.Lost [] place := by
  rintro ⟨before, item, after, split, _⟩
  simp at split

theorem lost_cons : p.Lost (item :: rest) place ↔
    (p.Clears item place ∧ ∀ later ∈ rest, ¬ p.Makes later place) ∨ p.Lost rest place :=
  exists_split_cons

theorem not_hit_nil {present : Prop} : ¬ p.Hit present [] place := by
  rintro ⟨before, item, after, split, _⟩
  simp at split

theorem hit_cons {present : Prop} : p.Hit present (item :: rest) place ↔
    (p.Clears item place ∧ present) ∨ p.Hit (present ∨ p.Makes item place) rest place := by
  rw [Hit, exists_split_cons]
  simp [Hit, or_assoc]

theorem hit_congr {present other : Prop} (same : present ↔ other) :
    p.Hit present rest place ↔ p.Hit other rest place := by
  rw [propext same]

end Cons

section Order

/-- Events come by module, the removals of a module last. -/
def Precedes (first second : String × DeltaEvent) : Prop :=
  first.1 < second.1 ∨
    first.1 = second.1 ∧ (first.2.action = .removed → second.2.action = .removed)

/-- A removal clears a place that was there or is made by a module that does not come later. -/
def Deletes (p : Production σ) (present : Prop) (events : List (String × DeltaEvent))
    (place : Place) : Prop :=
  ∃ item ∈ events, p.Clears item place ∧
    (present ∨ ∃ other ∈ events, p.Makes other place ∧ other.1 ≤ item.1)

/-- A removal clears a place that no module makes that comes later. -/
def Empties (p : Production σ) (events : List (String × DeltaEvent)) (place : Place) : Prop :=
  ∃ item ∈ events, p.Clears item place ∧
    ∀ other ∈ events, p.Makes other place → other.1 ≤ item.1

variable {events : List (String × DeltaEvent)} {place : Place}

theorem Precedes.le {first second : String × DeltaEvent} (h : Precedes first second) :
    first.1 ≤ second.1 := by
  rcases h with less | ⟨same, _⟩
  · exact le_of_lt less
  · exact le_of_eq same

/-- What is made after a removal is made by a module of a later name. -/
theorem Precedes.lt {first second : String × DeltaEvent} (h : Precedes first second)
    (clears : p.Clears first place) (makes : p.Makes second place) : first.1 < second.1 := by
  rcases h with less | ⟨_, removals⟩
  · exact less
  · obtain ⟨_, wanted, _⟩ := makes
    simp [wanted?, removals clears.1, DeltaAction.needsOutput] at wanted

theorem lost_iff (inOrder : events.Pairwise Precedes) :
    p.Lost events place ↔ p.Empties events place := by
  constructor
  · rintro ⟨before, item, after, rfl, clears, unmade⟩
    refine ⟨item, by simp, clears, fun other member makes => ?_⟩
    rw [List.mem_append, List.mem_cons] at member
    rcases member with first | rfl | later
    · exact ((List.pairwise_append.mp inOrder).2.2 other first item (by simp)).le
    · exact le_refl _
    · exact absurd makes (unmade other later)
  · rintro ⟨item, member, clears, unmade⟩
    obtain ⟨before, after, rfl⟩ := List.append_of_mem member
    refine ⟨before, item, after, rfl, clears, fun later listed makes => ?_⟩
    have inAfter := List.pairwise_cons.mp (List.pairwise_append.mp inOrder).2.1
    have less := (inAfter.1 later listed).lt clears makes
    exact not_lt_of_ge (unmade later (by simp [listed]) makes) less

theorem hit_iff {present : Prop} (inOrder : events.Pairwise Precedes) :
    p.Hit present events place ↔ p.Deletes present events place := by
  constructor
  · rintro ⟨before, item, after, rfl, clears, held⟩
    refine ⟨item, by simp, clears, held.imp_right ?_⟩
    rintro ⟨earlier, listed, makes⟩
    have precedes := (List.pairwise_append.mp inOrder).2.2 earlier listed item (by simp)
    exact ⟨earlier, by simp [listed], makes, precedes.le⟩
  · rintro ⟨item, member, clears, held⟩
    obtain ⟨before, after, rfl⟩ := List.append_of_mem member
    refine ⟨before, item, after, rfl, clears, held.imp_right ?_⟩
    rintro ⟨other, listed, makes, le⟩
    rw [List.mem_append, List.mem_cons] at listed
    rcases listed with first | rfl | later
    · exact ⟨other, first, makes⟩
    · exact absurd clears (makes.not_clears place)
    · have inAfter := List.pairwise_cons.mp (List.pairwise_append.mp inOrder).2.1
      exact absurd ((inAfter.1 other later).lt clears makes) (not_lt_of_ge le)

end Order

namespace Run

variable {events : List (String × DeltaEvent)} {state last : BuildState σ}

theorem ordered (h : Run p events state last) : last.disk.IsOrdered := by
  induction h with
  | done _ ordered => exact ordered
  | step _ _ ih => exact ih

theorem keepsFolders (h : Run p events state last) :
    Disk.KeepsFolders state.disk last.disk := by
  induction h with
  | done => exact fun _ folder => folder
  | step effect _ ih => exact fun place folder => ih place (effect.folders place folder)

/-- No files change but those that the events lead to. -/
theorem keepsFiles (h : Run p events state last) :
    Disk.KeepsFiles state.disk last.disk (events.flatMap p.touched) := by
  induction h with
  | done => exact .refl _ _
  | step effect _ ih => exact effect.files.trans ih

/-- The way to an output that was asked for is there in the end. -/
theorem reaches (h : Run p events state last) {item : String × DeltaEvent} (member : item ∈ events)
    {output : Path} (wanted : p.wanted? item.1 item.2 = some output) :
    last.disk.Reaches output ∧ output.target ∈ output.trail := by
  induction h with
  | done => simp at member
  | step effect later ih =>
      rcases List.mem_cons.mp member with rfl | member
      · obtain ⟨reaches, atTarget⟩ := effect.produced output wanted
        exact ⟨later.keepsFolders.reaches reaches, atTarget⟩
      · exact ih member

theorem not_holds (h : Run p events state last) {place : Place}
    (absent : ¬ state.disk.Holds place) (unmade : ∀ item ∈ events, ¬ p.Makes item place) :
    ¬ last.disk.Holds place := by
  induction h with
  | done => exact absent
  | step effect _ ih =>
      rw [List.forall_mem_cons] at unmade
      refine ih ?_ unmade.2
      simp [effect.holds_iff, absent, unmade.1]

/-- A place that was there or is made is there in the end unless it is lost. -/
theorem holds_iff (h : Run p events state last) {place : Place}
    (present : state.disk.Holds place ∨ ∃ item ∈ events, p.Makes item place) :
    last.disk.Holds place ↔ ¬ p.Lost events place := by
  induction h with
  | done =>
      have held := present.resolve_right (by simp)
      exact iff_of_true held not_lost_nil
  | @step item rest state middle last effect later ih =>
      rw [lost_cons]
      -- after a removal only what is made later counts
      by_cases clears : p.Clears item place
      · have absent : ¬ middle.disk.Holds place := by simp [effect.holds_iff, clears]
        by_cases made : ∃ later ∈ rest, p.Makes later place
        · have notLast : ¬ ∀ later ∈ rest, ¬ p.Makes later place := by simpa using made
          rw [ih (.inr made), or_iff_right (fun first => notLast first.2)]
        · have unmade : ∀ later ∈ rest, ¬ p.Makes later place := by simpa using made
          exact iff_of_false (later.not_holds absent unmade) (not_not_intro (.inl ⟨clears, unmade⟩))
      · have stays : middle.disk.Holds place ∨ ∃ later ∈ rest, p.Makes later place := by
          rw [effect.holds_iff, and_iff_left clears, or_assoc]
          simpa using present
        rw [ih stays, or_iff_right (fun first => clears first.1)]

/-- What is reported as deleted are the places that a removal hits. -/
theorem deleted_iff (h : Run p events state last) (place : Place) :
    Deleted last.report place ↔
      Deleted state.report place ∨ p.Hit (state.disk.Holds place) events place := by
  induction h with
  | done => simp [not_hit_nil]
  | @step item rest state middle last effect later ih =>
      rw [ih, effect.deleted_iff, hit_cons, or_assoc]
      by_cases clears : p.Clears item place
      · have absent : ¬ middle.disk.Holds place := by simp [effect.holds_iff, clears]
        have makesNot : ¬ p.Makes item place := fun makes => makes.not_clears place clears
        by_cases held : state.disk.Holds place
        · simp [clears, held]
        · simp [absent, held, makesNot]
      · refine or_congr_right (or_congr_right (hit_congr ?_))
        rw [effect.holds_iff, and_iff_left clears]

end Run

/-- Handling events to the end is a run, if the way to all that is to be deleted is there. -/
theorem run_of_handleAll (hosted : p.builder.host.isSome) {events : List (String × DeltaEvent)}
    {state last : BuildState σ} (ordered : state.disk.IsOrdered)
    (reaches : ∀ item ∈ events, item.2.action = .removed →
      state.disk.Reaches (p.goneOutput item.1 item.2))
    (handled : p.handleAll state events = (last, .ok ())) : Run p events state last := by
  induction events generalizing state with
  | nil =>
      cases handled
      exact .done _ ordered
  | cons item rest ih =>
      obtain ⟨middle, first, others⟩ := andThen_eq_ok.mp handled
      rw [List.forall_mem_cons] at reaches
      have effect := handle_effect hosted ordered reaches.1 first
      refine .step effect (ih effect.ordered (fun later member removed => ?_) others)
      -- folders stay, and with them the ways to what is still to be deleted
      exact effect.folders.reaches (reaches.2 later member removed)

end WorkspaceBuild.Builder.Production
