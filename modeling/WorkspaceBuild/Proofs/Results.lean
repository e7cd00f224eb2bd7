import Mathlib.Data.List.Forall2

/-! # Results

What a result says of the steps it came from.
-/

namespace WorkspaceBuild

variable {α β ε δ : Type}

theorem bind_eq_ok {first : Except ε α} {next : α → Except ε β} {y : β} :
    (first >>= next) = .ok y ↔ ∃ x, first = .ok x ∧ next x = .ok y := by
  cases first <;> simp [bind, Except.bind]

theorem bind_eq_error {first : Except ε α} {next : α → Except ε β} {e : ε} :
    (first >>= next) = .error e ↔ first = .error e ∨ ∃ x, first = .ok x ∧ next x = .error e := by
  cases first <;> simp [bind, Except.bind]

/-- What follows a result only matters where there is one. -/
theorem bind_congr_of_ok {first : Except ε α} {f g : α → Except ε β}
    (same : ∀ x, first = .ok x → f x = g x) : first.bind f = first.bind g := by
  cases first with
  | error e => rfl
  | ok x => exact same x rfl

theorem bind_map {γ : Type} (first : Except ε α) (f : α → β) (next : β → Except ε γ) :
    (first.map f).bind next = first.bind fun x => next (f x) := by
  cases first <;> rfl

theorem pure_eq_ok {x y : α} : (pure x : Except ε α) = .ok y ↔ x = y := by
  simp [pure, Except.pure]

theorem map_eq_ok {f : α → β} {result : Except ε α} {y : β} :
    result.map f = .ok y ↔ ∃ x, result = .ok x ∧ f x = y := by
  cases result with
  | ok x => simp [Except.map]
  | error e => simp [Except.map]

theorem mapError_eq_ok {f : ε → δ} {result : Except ε α} {y : α} :
    result.mapError f = .ok y ↔ result = .ok y := by
  cases result with
  | ok x =>
      change Except.ok x = Except.ok y ↔ _
      simp only [Except.ok.injEq]
  | error e =>
      change Except.error (f e) = Except.ok y ↔ _
      simp only [reduceCtorEq]

theorem eq_ok_of_toOption {result : Except ε α} {x : α} (same : result.toOption = some x) :
    result = .ok x := by
  cases result with
  | error e => cases same
  | ok y =>
      cases same
      rfl

theorem toOption_eq_some_iff {result : Except ε α} {x : α} :
    result.toOption = some x ↔ result = .ok x :=
  ⟨eq_ok_of_toOption, fun same => by rw [same]; rfl⟩

theorem mapM_cons_eq_ok {f : α → Except ε β} {x : α} {xs : List α} {ys : List β} :
    (x :: xs).mapM f = .ok ys ↔
      ∃ y rest, f x = .ok y ∧ xs.mapM f = .ok rest ∧ ys = y :: rest := by
  simp only [List.mapM_cons, bind_eq_ok, pure_eq_ok]
  constructor
  · rintro ⟨y, first, rest, others, rfl⟩
    exact ⟨y, rest, first, others, rfl⟩
  · rintro ⟨y, rest, first, others, rfl⟩
    exact ⟨y, first, rest, others, rfl⟩

theorem mapM_map {γ : Type} (f : β → Except ε γ) (g : α → β) (xs : List α) :
    (xs.map g).mapM f = xs.mapM fun x => f (g x) := by
  induction xs with
  | nil => rfl
  | cons x rest ih => simp only [List.map_cons, List.mapM_cons, ih]

theorem mapM_eq_ok_iff {f : α → Except ε β} {xs : List α} {ys : List β} :
    xs.mapM f = .ok ys ↔ List.Forall₂ (fun x y => f x = .ok y) xs ys := by
  induction xs generalizing ys with
  | nil => cases ys <;> simp [pure_eq_ok]
  | cons x rest ih =>
      rw [mapM_cons_eq_ok]
      constructor
      · rintro ⟨y, others, first, later, rfl⟩
        exact .cons first (ih.mp later)
      · rintro (_ | ⟨first, later⟩)
        exact ⟨_, _, first, ih.mpr later, rfl⟩

theorem exists_mapM_eq_ok_iff {f : α → Except ε β} {xs : List α} :
    (∃ ys, xs.mapM f = .ok ys) ↔ ∀ x ∈ xs, ∃ y, f x = .ok y := by
  induction xs with
  | nil => simp [pure, Except.pure]
  | cons x rest ih =>
      rw [List.forall_mem_cons, ← ih]
      simp only [mapM_cons_eq_ok]
      constructor
      · rintro ⟨_, y, values, first, later, rfl⟩
        exact ⟨⟨y, first⟩, values, later⟩
      · rintro ⟨⟨y, first⟩, values, later⟩
        exact ⟨_, y, values, first, later, rfl⟩

/-- Work on a list fails as it does on the first element on which it fails. -/
theorem mapM_eq_error_iff_first {f : α → Except ε β} {xs : List α} {e : ε} :
    xs.mapM f = .error e ↔ ∃ before x behind, xs = before ++ x :: behind ∧
      (∀ y ∈ before, ∃ z, f y = .ok z) ∧ f x = .error e := by
  induction xs with
  | nil => simp [pure, Except.pure]
  | cons x rest ih =>
      rw [List.mapM_cons, bind_eq_error]
      constructor
      · rintro (here | ⟨y, first, later⟩)
        · exact ⟨[], x, rest, rfl, by simp, here⟩
        · rcases bind_eq_error.mp later with failed | ⟨_, _, ⟨⟩⟩
          obtain ⟨before, stuck, behind, rfl, fine, failed⟩ := ih.mp failed
          exact ⟨x :: before, stuck, behind, rfl, List.forall_mem_cons.mpr ⟨⟨y, first⟩, fine⟩, failed⟩
      · rintro ⟨before, stuck, behind, split, fine, failed⟩
        cases before with
        | nil =>
            cases split
            exact .inl failed
        | cons other before =>
            cases split
            obtain ⟨⟨y, first⟩, fine⟩ := List.forall_mem_cons.mp fine
            exact .inr ⟨y, first, bind_eq_error.mpr (.inl (ih.mpr ⟨before, stuck, behind, rfl, fine, failed⟩))⟩

theorem forall_of_mapM {f : α → Except ε β} {P : β → Prop} {xs : List α} {ys : List β}
    (each : ∀ x ∈ xs, ∀ y, f x = .ok y → P y) (all : xs.mapM f = .ok ys) : ∀ y ∈ ys, P y := by
  induction xs generalizing ys with
  | nil =>
      cases all
      simp
  | cons x rest ih =>
      obtain ⟨y, values, first, others, rfl⟩ := mapM_cons_eq_ok.mp all
      obtain ⟨here, later⟩ := List.forall_mem_cons.mp each
      exact List.forall_mem_cons.mpr ⟨here y first, ih later others⟩

/-- Work on a list fails just when it fails on one of its elements. -/
theorem mapM_eq_error_iff {f : α → Except ε β} {xs : List α} :
    (∃ e, xs.mapM f = .error e) ↔ ∃ x ∈ xs, ∃ e, f x = .error e := by
  have fails {γ : Type} (result : Except ε γ) : (∃ e, result = .error e) ↔ ¬ ∃ y, result = .ok y := by
    cases result <;> simp
  simp only [fails, exists_mapM_eq_ok_iff, not_forall, exists_prop]

end WorkspaceBuild
