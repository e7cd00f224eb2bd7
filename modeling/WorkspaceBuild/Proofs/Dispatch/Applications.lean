import WorkspaceBuild.Proofs.Dispatch.Levels

/-! # What plugins are applied to

A plugin can be made to note what it is applied to. The notes do not change what it does, so a run
with such plugins is the run without them, and tells how each of them came to be applied.
-/

namespace WorkspaceBuild

variable {ε σ α β : Type}

/-- A plugin was applied to a node and answered. -/
structure Application (σ : Type) where
  plugin : Plugin σ
  context : PluginContext
  node : Node
  answer : Except PluginError Node

/-- Applications in the order in which they were made. -/
abbrev Log (σ : Type) := List (Application σ)

/-- The workbench of plugins that note what they are applied to. -/
def Workbench.withLog (bench : Workbench σ) (log : Log σ) : Workbench (σ × Log σ) :=
  ⟨bench.imports, bench.queue, (bench.notes, log)⟩

/-- The plugin, which also notes what it is applied to. -/
def Plugin.logged (plugin : Plugin σ) : Plugin (σ × Log σ) where
  name := plugin.name
  category := plugin.category
  phase := plugin.phase
  targets := plugin.targets
  transform ctx node := ExceptT.mk fun bench =>
    let (answer, after) :=
      (plugin.transform ctx node).run ⟨bench.imports, bench.queue, bench.notes.1⟩
    (answer, after.withLog (bench.notes.2 ++ [⟨plugin, ctx, node, answer⟩]))

def Registry.logged (registry : Registry σ) : Registry (σ × Log σ) := registry.map Plugin.logged

def Dispatcher.logged (d : Dispatcher σ) : Dispatcher (σ × Log σ) :=
  ⟨d.registry.logged, d.semantic, d.references, d.levels⟩

def Dispatcher.Visit.logged (v : Dispatcher.Visit σ) : Dispatcher.Visit (σ × Log σ) :=
  { v.toDispatcher.logged with path := v.path, unitId? := v.unitId? }

namespace Work

/-- The first work does what the second does and makes applications, which are of a sort together
with the answer. -/
structure Logs (logging : Work ε (σ × Log σ) α) (work : Work ε σ α)
    (sort : Log σ → Except ε α → Prop) : Prop where
  related : ∀ bench log, ∃ made, logging.run (bench.withLog log) =
    ((work.run bench).1, (work.run bench).2.withLog (log ++ made)) ∧ sort made (work.run bench).1

section Logs

variable {logging : Work ε (σ × Log σ) α} {work : Work ε σ α} {sort : Log σ → Except ε α → Prop}

theorem Logs.mono (logs : Logs logging work sort) {wider : Log σ → Except ε α → Prop}
    (implied : ∀ made answer, sort made answer → wider made answer) : Logs logging work wider := by
  refine ⟨fun bench log => ?_⟩
  obtain ⟨made, same, sorted⟩ := logs.related bench log
  exact ⟨made, same, implied made _ sorted⟩

theorem logs_pure {value : α} (sorted : sort [] (.ok value)) : Logs (pure value) (pure value) sort :=
  ⟨fun bench log => ⟨[], by rw [List.append_nil]; rfl, sorted⟩⟩

theorem logs_throw {e : ε} (sorted : sort [] (.error e)) : Logs (throw e) (throw e) sort :=
  ⟨fun bench log => ⟨[], by rw [List.append_nil]; rfl, sorted⟩⟩

theorem Logs.bind {next' : α → Work ε (σ × Log σ) β} {next : α → Work ε σ β}
    {later : α → Log σ → Except ε β → Prop} {whole : Log σ → Except ε β → Prop}
    (here : Logs logging work sort) (there : ∀ x, Logs (next' x) (next x) (later x))
    (failed : ∀ made e, sort made (.error e) → whole made (.error e))
    (passed : ∀ made x more answer, sort made (.ok x) → later x more answer →
      whole (made ++ more) answer) : Logs (logging >>= next') (work >>= next) whole := by
  refine ⟨fun bench log => ?_⟩
  obtain ⟨made, same, sorted⟩ := here.related bench log
  rw [run_bind, run_bind, same]
  cases result : work.run bench with
  | mk answer after =>
      rw [result] at sorted
      cases answer with
      | error e => exact ⟨made, rfl, failed made e sorted⟩
      | ok x =>
          obtain ⟨more, alike, also⟩ := (there x).related after (log ++ made)
          refine ⟨made ++ more, ?_, passed made x more _ sorted also⟩
          rw [← List.append_assoc]
          exact alike

theorem Logs.map (here : Logs logging work sort) (f : α → β) {whole : Log σ → Except ε β → Prop}
    (implied : ∀ made answer, sort made answer → whole made (answer.map f)) :
    Logs (do return f (← logging)) (do return f (← work)) whole := by
  have last (x : α) : Logs (pure (f x) : Work ε (σ × Log σ) β) (pure (f x))
      fun more answer => more = [] ∧ answer = .ok (f x) := logs_pure ⟨rfl, rfl⟩
  refine here.bind last (fun made e sorted => implied made _ sorted) ?_
  rintro made x more answer sorted ⟨rfl, rfl⟩
  rw [List.append_nil]
  exact implied made _ sorted

/-- What the work hands on is known besides. -/
theorem Logs.and_leaves (logs : Logs logging work sort) {kept : α → Prop}
    (leaves : Leaves work kept) :
    Logs logging work fun made answer => sort made answer ∧ ∀ x, answer = .ok x → kept x := by
  refine ⟨fun bench log => ?_⟩
  obtain ⟨made, same, sorted⟩ := logs.related bench log
  exact ⟨made, same, sorted, leaves.sorted bench⟩

theorem Logs.inCourse {logging : Work PluginError (σ × Log σ) α} {work : Work PluginError σ α}
    {sort : Log σ → Except PluginError α → Prop} (logs : Logs logging work sort) :
    Logs logging.inCourse work.inCourse fun made answer =>
      ∃ result, sort made result ∧ answer = result.mapError .failed := by
  refine ⟨fun bench log => ?_⟩
  obtain ⟨made, same, sorted⟩ := logs.related bench log
  rw [run_inCourse, run_inCourse, same]
  exact ⟨made, rfl, _, sorted, rfl⟩

end Logs

end Work

namespace Application

/-- What the walk makes of the answer: the node has to be of the kind that was handed over. -/
def outcome (a : Application σ) : Except PluginError Node :=
  match a.answer with
  | .ok result =>
      if result.kind = a.node.kind then .ok result
      else .error (.unexpectedNode a.plugin.name a.node.kind result.kind)
  | .error e => .error e

/-- The application of a plugin that is told what the context says, and really made. -/
structure IsBy (a : Application σ) (plugin : Plugin σ) (ctx : PluginContext) : Prop where
  ran : ∃ bench, a.answer = ((a.plugin.transform a.context a.node).run bench).1
  context : a.context = ctx
  plugin : a.plugin = plugin

/-- Plugins are applied in their order, each to what came of the one before, until one fails. -/
inductive Chain (ctx : PluginContext) :
    List (Plugin σ) → Node → Log σ → Except PluginError Node → Prop
  | nil (node : Node) : Chain ctx [] node [] (.ok node)
  | cons {plugin : Plugin σ} {plugins : List (Plugin σ)} {a : Application σ} {rest : Log σ}
      {next : Node} {result : Except PluginError Node} (by_ : a.IsBy plugin ctx)
      (outcome : a.outcome = .ok next) (later : Chain ctx plugins next rest result) :
      Chain ctx (plugin :: plugins) a.node (a :: rest) result
  | failed {plugin : Plugin σ} {plugins : List (Plugin σ)} {a : Application σ} {e : PluginError}
      (by_ : a.IsBy plugin ctx) (outcome : a.outcome = .error e) :
      Chain ctx (plugin :: plugins) a.node [a] (.error e)

theorem outcome_eq_ok {a : Application σ} {next : Node} (outcome : a.outcome = .ok next) :
    a.answer = .ok next ∧ next.kind = a.node.kind := by
  rw [Application.outcome] at outcome
  split at outcome
  · rename_i answer
    split at outcome
    · rename_i same
      cases outcome
      exact ⟨answer, same⟩
    · cases outcome
  · cases outcome

theorem Chain.kind_eq {ctx : PluginContext} {plugins : List (Plugin σ)} {node left : Node}
    {made : Log σ} (chain : Chain ctx plugins node made (.ok left)) : left.kind = node.kind := by
  generalize answered : (.ok left : Except PluginError Node) = result at chain
  induction chain with
  | nil node =>
      cases answered
      rfl
  | cons _ outcome _ ih => exact (ih answered).trans (outcome_eq_ok outcome).2
  | failed => cases answered

end Application

namespace Dispatcher.Visit

open Work Application

variable {v : Visit σ}

/-- The plugins of a phase that run on every node, or those that annotations have to call for. -/
def pluginsOf (v : Visit σ) (category : NodeCategory) (phase : Phase) (always : Bool) :
    List (Plugin σ) :=
  (v.registry.pluginsFor category phase).filter (·.isUnconditional = always)

theorem mem_pluginsOf {category : NodeCategory} {phase : Phase} {always : Bool} {plugin : Plugin σ}
    (listed : plugin ∈ v.pluginsOf category phase always) :
    plugin ∈ v.registry ∧ plugin.phase = phase := by
  obtain ⟨known, chosen⟩ := List.mem_filter.mp (List.mem_filter.mp listed).1
  exact ⟨known, of_decide_eq_true (Bool.and_eq_true_iff.mp chosen).2⟩

/-- The applications of a phase to a node. First come all plugins that run on every node, and they are
told the annotations of the scope. Then come those that the annotations of the node call for, and they
are told these annotations, as the former left them. -/
inductive IsPhase (v : Visit σ) (category : NodeCategory) (phase : Phase) (scope : Scope)
    (node : Node) : Log σ → Except PluginError Node → Prop
  | failed {made : Log σ} {e : PluginError}
      (chain : Chain (v.context scope) (v.pluginsOf category phase true) node made (.error e)) :
      IsPhase v category phase scope node made (.error e)
  | passed {first second : Log σ} {left : Node} {result : Except PluginError Node}
      (chain : Chain (v.context scope) (v.pluginsOf category phase true) node first (.ok left))
      (further : Chain (v.context { scope with annotations := v.currentAnnotations scope left })
        ((v.pluginsOf category phase false).filter (·.isCalledBy (v.currentAnnotations scope left)))
        left second result) :
      IsPhase v category phase scope node (first ++ second) result

theorem IsPhase.kind_eq {category : NodeCategory} {phase : Phase} {scope : Scope} {node last : Node}
    {made : Log σ} (ran : v.IsPhase category phase scope node made (.ok last)) :
    last.kind = node.kind := by
  cases ran with
  | passed chain further => exact further.kind_eq.trans chain.kind_eq

theorem logs_apply (ctx : PluginContext) (node : Node) (plugin : Plugin σ) :
    Logs (apply ctx node plugin.logged) (apply ctx node plugin) fun made answer =>
      ∃ a : Application σ, made = [a] ∧ a.IsBy plugin ctx ∧ a.node = node ∧ a.outcome = answer := by
  refine ⟨fun bench log => ?_⟩
  have run : (plugin.logged.transform ctx node).run (bench.withLog log) =
      (((plugin.transform ctx node).run bench).1, ((plugin.transform ctx node).run bench).2.withLog
        (log ++ [⟨plugin, ctx, node, ((plugin.transform ctx node).run bench).1⟩])) := rfl
  refine ⟨_, ?_, ⟨plugin, ctx, node, ((plugin.transform ctx node).run bench).1⟩, rfl,
    ⟨⟨bench, rfl⟩, rfl, rfl⟩, rfl, ?_⟩
  · rw [apply, apply, run_bind, run_bind, run]
    cases (plugin.transform ctx node).run bench with
    | mk answer after =>
        cases answer with
        | error e => rfl
        | ok result =>
            dsimp only
            split <;> rfl
  · rw [apply, run_bind, outcome]
    cases (plugin.transform ctx node).run bench with
    | mk answer after =>
        cases answer with
        | error e => rfl
        | ok result =>
            dsimp only
            split <;> rfl

/-- Plugins are applied in a chain. -/
theorem logs_chain (ctx : PluginContext) (plugins : List (Plugin σ)) (node : Node) :
    Logs ((plugins.map Plugin.logged).foldlM (apply ctx) node) (plugins.foldlM (apply ctx) node)
      (Chain ctx plugins node) := by
  induction plugins generalizing node with
  | nil => exact logs_pure (.nil node)
  | cons plugin rest ih =>
      rw [List.map_cons, List.foldlM_cons, List.foldlM_cons]
      refine (logs_apply ctx node plugin).bind ih ?_ ?_
      · rintro made e ⟨a, rfl, by_, rfl, outcome⟩
        exact .failed by_ outcome
      · rintro made next more answer ⟨a, rfl, by_, rfl, outcome⟩ later
        exact .cons by_ outcome later

theorem pluginsOf_logged (v : Visit σ) (category : NodeCategory) (phase : Phase) (always : Bool) :
    v.logged.pluginsOf category phase always =
      (v.pluginsOf category phase always).map Plugin.logged := by
  rw [pluginsOf, pluginsOf, Registry.pluginsFor, Registry.pluginsFor, logged, Dispatcher.logged,
    Registry.logged, List.filter_map, List.filter_map]
  rfl

/-- A phase in terms of the plugins that run on every node and the others. -/
theorem runPhase_eq (v : Visit σ) (category : NodeCategory) (phase : Phase) (scope : Scope)
    (node : Node) : v.runPhase category phase scope node =
      (v.pluginsOf category phase true).foldlM (apply (v.context scope)) node >>= fun left =>
        ((v.pluginsOf category phase false).filter
          (·.isCalledBy (v.currentAnnotations scope left))).foldlM
            (apply (v.context { scope with annotations := v.currentAnnotations scope left })) left := by
  have always : (v.registry.pluginsFor category phase).filter (·.isUnconditional) =
      v.pluginsOf category phase true := by simp [pluginsOf]
  have annotated : (v.registry.pluginsFor category phase).filter (!·.isUnconditional) =
      v.pluginsOf category phase false := by simp [pluginsOf]
  rw [runPhase]
  dsimp only
  rw [always, annotated]
  refine bind_congr fun left => ?_
  split
  · rename_i none
    rw [List.isEmpty_iff.mp none]
    rfl
  · rfl

theorem logs_runPhase (v : Visit σ) (category : NodeCategory) (phase : Phase) (scope : Scope)
    (node : Node) : Logs (v.logged.runPhase category phase scope node)
      (v.runPhase category phase scope node) (v.IsPhase category phase scope node) := by
  rw [runPhase_eq, runPhase_eq, pluginsOf_logged, pluginsOf_logged]
  refine (logs_chain _ _ node).bind (fun left => ?_) (fun made e chain => .failed chain)
    fun made left more answer chain further => .passed chain further
  rw [List.filter_map]
  exact logs_chain _ _ left

end Dispatcher.Visit

end WorkspaceBuild
