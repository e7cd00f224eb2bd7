import WorkspaceBuild.Proofs.Graph.Rounds
import Mathlib.Data.Set.Finite.Basic
import Mathlib.Data.Fintype.Card

/-! # Circles in a graph

Settling fails exactly on a circle of dependencies, and then names the modules in circles and
behind them. Dependencies on the workspace's own module close no circle.
-/

namespace WorkspaceBuild.ModuleGraph

open Relation

theorem not_circle_of_acc {α : Type} {r : α → α → Prop} {x : α} (ends : Acc r x) :
    ¬ TransGen r x x := by
  induction ends.transGen with
  | intro x _ ih => exact fun around => ih x around ends around

/-- Where only finitely many elements come before others, a descent that does not end comes from a
circle. -/
theorem not_acc_iff_circle {α : Type} {r : α → α → Prop} (finite : {x | ∃ y, r x y}.Finite)
    {x : α} : ¬ Acc r x ↔ ∃ circle, TransGen r circle circle ∧ ReflTransGen r circle x := by
  constructor
  · contrapose!
    intro noCircle
    let above := {y // ReflTransGen r y x}
    have : Finite above := by
      refine ((finite.insert x).subset fun y reaches => ?_ : {y | ReflTransGen r y x}.Finite)
      rcases ReflTransGen.cases_head reaches with rfl | ⟨next, first, _⟩
      · exact Set.mem_insert _ _
      · exact Set.mem_insert_of_mem _ ⟨next, first⟩
    let before (y z : above) : Prop := TransGen r y.1 z.1
    have : IsTrans above before := ⟨fun _ _ _ => TransGen.trans⟩
    have : Std.Irrefl before := ⟨fun y circle => noCircle y.1 circle y.2⟩
    have ends : WellFounded before := Finite.wellFounded_of_trans_of_irrefl before
    have accessible (y : above) : Acc r y.1 := by
      induction y using ends.induction with
      | h y ih => exact ⟨y.1, fun z step => ih ⟨z, .head step y.2⟩ (.single step)⟩
    exact accessible ⟨x, .refl⟩
  · rintro ⟨circle, around, reaches⟩ ends
    rcases reflTransGen_iff_eq_or_transGen.mp reaches with rfl | path
    · exact not_circle_of_acc ends around
    · exact not_circle_of_acc (ends.inv_of_transGen path) around

/-- The modules in circles of dependencies and behind them. -/
def BehindCircle (g : ModuleGraph) (name : String) : Prop :=
  ∃ circle, TransGen g.Flows circle circle ∧ ReflTransGen g.Flows circle name

theorem not_acc_flows_iff (g : ModuleGraph) {name : String} :
    ¬ Acc g.Flows name ↔ g.BehindCircle name := by
  refine not_acc_iff_circle ((List.finite_toSet g.nodes.keys).subset fun parent drawn => ?_)
  obtain ⟨child, flow⟩ := drawn
  exact Assoc.has_iff.mp flow.contains.1

theorem exists_behindCircle_iff {g : ModuleGraph} :
    (∃ name, g.BehindCircle name) ↔ ∃ name, TransGen g.Flows name name := by
  constructor
  · rintro ⟨_, circle, around, _⟩
    exact ⟨circle, around⟩
  · rintro ⟨name, around⟩
    exact ⟨name, name, around, .refl⟩

/-- What the answer of settling says of the circles of a graph. -/
structure FindsCircles (g : ModuleGraph) : Prop where
  ends : ∃ n ≤ g.size, ∃ last, last = round^[n] (g, g.firstWaiting) ∧ ready last.2 = [] ∧
    g.complete.1 = if last.2 = [] then .ok () else .error (.circular last.2.keys)
  ok_iff : g.complete.1 = .ok () ↔ ∀ name, ¬ TransGen g.Flows name name
  circular : ∀ error, g.complete.1 = .error error → ∃ names, error = .circular names ∧
    IsAscending names ∧ ∀ name, name ∈ names ↔ g.BehindCircle name

theorem Built.findsCircles {g : ModuleGraph} (built : g.Built) : g.FindsCircles := by
  obtain ⟨n, within, last, reached, progress, stuck, answer⟩ := complete_eq_rounds built.consistent
  have waits (name : String) : name ∈ last.2.keys ↔ g.BehindCircle name :=
    (progress.mem_keys_iff stuck).trans (not_acc_flows_iff g)
  have verdict : g.complete.1 = if last.2 = [] then .ok () else .error (.circular last.2.keys) := by
    rw [answer]
  refine
    { ends := ⟨n, within, last, reached, stuck, verdict⟩
      ok_iff := ?_
      circular := fun error failed => ?_ }
  · rw [verdict, ← not_exists, ← exists_behindCircle_iff]
    simp only [← waits]
    cases last.2 <;> simp
  · rw [verdict] at failed
    split at failed
    · cases failed
    · exact ⟨last.2.keys, (Except.error.inj failed).symm, progress.ascending, waits⟩

/-- Two modules in a circle, one behind it, one that only draws from the workspace's own module, and
a dependency on that one. -/
def circleSample : Except PackageError ModuleGraph :=
  let modules := ["left", "right", "behind", "aside"].foldl
    (fun g name => (g.addNode { name, dir := ⟨name⟩ }).2)
    (single { name := "app", dir := ⟨"app"⟩, main := true })
  modules.addEdges
    [("app", "left", .production), ("left", "right", .production), ("right", "left", .peer),
      ("right", "behind", .development), ("behind", "app", .production),
      ("app", "aside", .development)]

theorem built_of_circleSample {g : ModuleGraph} (made : circleSample = .ok g) : g.Built := by
  refine Built.addEdges ?_ _ made
  repeat refine .addNode ?_ _ rfl rfl
  exact .single _ rfl rfl

theorem findsCircles_sample : ∃ g, circleSample = .ok g ∧ g.FindsCircles ∧
    g.complete.1 = .error (.circular ["behind", "left", "right"]) := by
  refine ⟨_, rfl, Built.findsCircles (built_of_circleSample rfl), ?_⟩
  decide

end WorkspaceBuild.ModuleGraph
