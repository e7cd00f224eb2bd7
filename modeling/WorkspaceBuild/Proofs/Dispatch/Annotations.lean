import WorkspaceBuild.Proofs.Dispatch.Walk

/-! # The annotations that plugins are told

The walk reads the annotations of a node when it reaches it, and again in a phase for the plugins that
annotations have to call for. Plugins of the phase after that run on every node are told what was read
first, whatever has become of the decorators since.
-/

namespace WorkspaceBuild.Dispatcher

variable {σ : Type}

namespace Visit

open Application

variable {v : Visit σ}

/-- What is known of a node when the phase after starts. -/
def anew (v : Visit σ) (_reached here : Node) : List AnnotationUse := v.annotationsOf here

/-- Plugins of the phase before leave a node with the annotations that it had. -/
def KeepsAnnotations (v : Visit σ) : Prop :=
  ∀ plugin ∈ v.registry, plugin.phase = .before → ∀ ctx node bench result,
    ((plugin.transform ctx node).run bench).1 = .ok result →
      v.annotationsOf result = v.annotationsOf node

section Keeps

variable (keeps : v.KeepsAnnotations)

include keeps

theorem KeepsAnnotations.of_chain {ctx : PluginContext} {plugins : List (Plugin σ)} {node left : Node}
    {made : Log σ} (chosen : ∀ plugin ∈ plugins, plugin ∈ v.registry ∧ plugin.phase = .before)
    (chain : Chain ctx plugins node made (.ok left)) :
    v.annotationsOf left = v.annotationsOf node := by
  generalize answered : (.ok left : Except PluginError Node) = result at chain
  induction chain with
  | nil =>
      cases answered
      rfl
  | @cons _ _ a _ next _ by_ outcome _ ih =>
      obtain ⟨⟨known, before⟩, others⟩ := List.forall_mem_cons.mp chosen
      obtain ⟨bench, ran⟩ := by_.ran
      rw [by_.plugin] at ran
      refine (ih others answered).trans (keeps _ known before a.context a.node bench next ?_)
      rw [← ran]
      exact (outcome_eq_ok outcome).1
  | failed => cases answered

theorem KeepsAnnotations.of_phase {category : NodeCategory} {scope : Scope} {node left : Node}
    {made : Log σ} (ran : v.IsPhase category .before scope node made (.ok left)) :
    v.annotationsOf left = v.annotationsOf node := by
  cases ran with
  | passed chain further =>
      have called := keeps.of_chain
        (fun plugin listed => mem_pluginsOf (List.mem_filter.mp listed).1) further
      exact called.trans (keeps.of_chain (fun plugin listed => mem_pluginsOf listed) chain)

/-- What is inside a node leaves its decorators alone. -/
theorem KeepsAnnotations.atFirst_eq {known : Node → Node → List AnnotationUse}
    {category : NodeCategory} {scope inner : Scope} {node left here : Node} {first made : Log σ}
    (before : v.IsPhase category .before scope node first (.ok left))
    (inside : v.IsInside known inner left made (.ok here)) :
    v.atFirst node here = v.anew node here := by
  cases inside with
  | filled _ same => exact (keeps.of_phase before).symm.trans (v.annotationsOf_eq_of_shell same).symm

end Keeps

mutual

/-- Where the phase before keeps the annotations, the phase after is told what they are. -/
theorem IsVisit.toldAnew (keeps : v.KeepsAnnotations) : ∀ {scope : Scope} {node : Node} {made : Log σ}
    {result : Except (Halt PluginError) Node}, v.IsVisit v.atFirst scope node made result →
      v.IsVisit v.anew scope node made result
  | _, _, _, _, .unfinished .. => .unfinished ..
  | _, _, _, _, .bare bare inside => .bare bare (inside.toldAnew keeps)
  | _, _, _, _, .failed of before => .failed of before
  | _, _, _, _, .halted of before inside => .halted of before (inside.toldAnew keeps)
  | _, _, _, _, .visited of before inside after =>
      .visited of before (inside.toldAnew keeps) (keeps.atFirst_eq before inside ▸ after)

theorem IsInside.toldAnew (keeps : v.KeepsAnnotations) : ∀ {scope : Scope} {node : Node} {made : Log σ}
    {result : Except (Halt PluginError) Node}, v.IsInside v.atFirst scope node made result →
      v.IsInside v.anew scope node made result
  | _, _, _, _, .halted walk => .halted (walk.toldAnew keeps)
  | _, _, _, _, .filled walk same => .filled (walk.toldAnew keeps) same

theorem IsWalk.toldAnew (keeps : v.KeepsAnnotations) : ∀ {places : List (Scope × Node)} {made : Log σ}
    {results : Except (Halt PluginError) (List Node)}, v.IsWalk v.atFirst places made results →
      v.IsWalk v.anew places made results
  | _, _, _, .nil => .nil
  | _, _, _, .halted here => .halted (here.toldAnew keeps)
  | _, _, _, .cons here there => .cons (here.toldAnew keeps) (there.toldAnew keeps)

end

end Visit

theorem IsDrain.toldAnew {v : Visit σ} (keeps : v.KeepsAnnotations) {n : Nat} {u : SourceUnit}
    {bench : Workbench σ} {made : Log σ} {answer : Except (Halt TransformError) SourceUnit}
    (told : IsDrain v v.atFirst n u bench made answer) : IsDrain v v.anew n u bench made answer := by
  induction told with
  | settled empty => exact .settled empty
  | limit filled => exact .limit filled
  | halted filled walk => exact .halted filled (walk.toldAnew keeps)
  | round filled ran walk _ ih => exact .round filled ran (walk.toldAnew keeps) ih

theorem IsTransform.toldAnew {d : Dispatcher σ} {u : SourceUnit} (keeps : (d.visitOf u).KeepsAnnotations)
    {notes : σ} {log : Log σ} {answer : Except (Halt TransformError) SourceUnit}
    (told : IsTransform d (d.visitOf u).atFirst u notes log answer) :
    IsTransform d (d.visitOf u).anew u notes log answer := by
  cases told with
  | passed through => exact .passed through
  | halted visit => exact .halted (visit.toldAnew keeps)
  | drained ran visit drain settled =>
      exact .drained ran (visit.toldAnew keeps) (drain.toldAnew keeps) settled

/-- What plugins are applied to in a transform, and what they are told. In the phase before, and where
annotations call for a plugin, these are the annotations of the node at hand; in the phase after,
plugins that run on every node are told those that the node was reached with, which are the same if
no plugin of the phase before has changed them. -/
theorem transform_tells (d : Dispatcher σ) (u : SourceUnit) (notes : σ) : ∃ log,
    d.logged.transform u (notes, []) = ((d.transform u notes).1, (d.transform u notes).2, log) ∧
      IsTransform d (d.visitOf u).atFirst u notes log (d.transform u notes).1 ∧
      ((d.visitOf u).KeepsAnnotations →
        IsTransform d (d.visitOf u).anew u notes log (d.transform u notes).1) := by
  obtain ⟨log, same, told⟩ := transform_logged d u notes
  exact ⟨log, same, told, fun keeps => told.toldAnew keeps⟩

/-! A plugin that puts a decorator on each property before those that are there describe it. -/

section Decorated

def decorate : Plugin Unit where
  name := "decorate"
  category := .property
  phase := .before
  transform _ node :=
    match node with
    | .member (.property decl) =>
        return .member (.property { decl with decorators := decl.decorators ++ [⟨"Field", []⟩] })
    | other => return other

def decoratedSemantic : SemanticModel :=
  .ofTables [.intrinsic TypeFlag.string "string"] [("Field", ⟨⟨"@app/notes", "Field"⟩, []⟩)] []

def decoratedDispatcher : Dispatcher Unit :=
  ⟨decorate :: Registrations.builtin, decoratedSemantic, .none, 0⟩

def bareField : PropertyDecl := ⟨"name", false, [], some ⟨"string", some 0⟩, none⟩

def decoratedUnit : SourceUnit where
  path := ⟨"/ws/src/unit.ts"⟩
  statements := [.classDecl ⟨"User", true, [], none⟩ [.property bareField]]

/-- The only plugin of its phase is told of no annotation, though the property has one. -/
theorem transform_tells_decorated : ∃ log a,
    decoratedDispatcher.logged.transform decoratedUnit ((), []) =
        ((decoratedDispatcher.transform decoratedUnit ()).1, (), log) ∧
      a ∈ log ∧ decoratedDispatcher.registry.pluginsFor .property .after = [a.plugin] ∧
      a.plugin.isUnconditional ∧
      a.node = .member (.property { bareField with decorators := [⟨"Field", []⟩] }) ∧
      (decoratedDispatcher.visitOf decoratedUnit).annotationsOf a.node =
        [⟨⟨"@app/notes", "Field"⟩, []⟩] ∧ a.context.annotations = [] :=
  ⟨_, _, rfl, .tail _ (.head _), rfl, rfl, rfl, rfl, rfl⟩

end Decorated

end WorkspaceBuild.Dispatcher
