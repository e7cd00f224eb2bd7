import WorkspaceBuild.Proofs.Dispatch.Applications
import WorkspaceBuild.Proofs.Dispatch.BuiltIn
import WorkspaceBuild.Proofs.Dispatch.Nodes

/-! # What a plugin reaches

A plugin that runs on every node of its category, after what is inside, and hands back the node it was
handed, is applied to all of them in post-order. Each time it is told the class that is closest around
the node and the annotations of the node itself.
-/

namespace WorkspaceBuild

variable {ε σ α β : Type}

/-- The workbench as the plugin leaves it. -/
def Plugin.leaves (plugin : Plugin σ) (bench : Workbench σ) (call : PluginContext × Node) :
    Workbench σ :=
  ((plugin.transform call.1 call.2).run bench).2

namespace Dispatcher

namespace Visit

open Work

/-- The only plugin is one that looks at all nodes of its category once the inside of a node has been
visited. -/
structure IsWatchedBy (v : Visit σ) (plugin : Plugin σ) : Prop where
  only : v.registry = [plugin]
  always : plugin.isUnconditional
  after : plugin.phase = .after
  /-- It hands back the node that it is handed. -/
  returns : ∀ ctx node bench, ((plugin.transform ctx node).run bench).1 = .ok node
  /-- It queues nothing. -/
  quiet : ∀ ctx node bench, ((plugin.transform ctx node).run bench).2.queue = bench.queue

/-- The application of a plugin to the node at a position of a unit. -/
structure IsAt (v : Visit σ) (plugin : Plugin σ) (u : SourceUnit) (p : Position)
    (a : Application σ) : Prop where
  plugin : a.plugin = plugin
  node : (Node.unit u).at? p = some a.node
  answer : a.answer = .ok a.node
  context : a.context =
    v.context { Scope.ofPosition u p with annotations := v.annotationsOf a.node }

/-- Applications that reach all nodes of a plugin's category and no others, each of them once, in
post-order. -/
def Reaches (v : Visit σ) (plugin : Plugin σ) (u : SourceUnit) (made : Log σ) : Prop :=
  ∃ places : List Position,
    (∀ p, p ∈ places ↔
      ∃ node, (Node.unit u).at? p = some node ∧ node.category? = some plugin.category) ∧
    places.Nodup ∧ places.Pairwise Position.Precedes ∧
    List.Forall₂ (v.IsAt plugin u) places made

/-! ## Work -/

/-- Work that hands on a value, and changes the workbench as the plugin does when it is called. -/
def Applies (plugin : Plugin σ) (work : Work ε σ α) (made : List (PluginContext × Node)) (value : α) :
    Prop :=
  ∀ bench, work.run bench = (.ok value, made.foldl plugin.leaves bench)

namespace Applies

variable {plugin : Plugin σ} {made : List (PluginContext × Node)}

theorem idle (value : α) : Applies plugin (pure value : Work ε σ α) [] value :=
  fun _ => rfl

theorem bind {work : Work ε σ α} {next : α → Work ε σ β} {more : List (PluginContext × Node)} {a : α}
    {b : β} (here : Applies plugin work made a) (there : Applies plugin (next a) more b) :
    Applies plugin (work >>= next) (made ++ more) b := by
  intro bench
  rw [run_bind, here bench, List.foldl_append]
  exact there _

theorem bind_idle {work : Work ε σ α} {next : α → Work ε σ β} {a : α} {b : β}
    (here : Applies plugin work made a) (there : Applies plugin (next a) [] b) :
    Applies plugin (work >>= next) made b := by
  rw [← List.append_nil made]
  exact here.bind there

theorem map {work : Work ε σ α} {a : α} (here : Applies plugin work made a) (f : α → β) :
    Applies plugin (do return f (← work)) made (f a) :=
  here.bind_idle (idle (f a))

theorem mapM {visit : α → Work ε σ α} {made : α → List (PluginContext × Node)} {items : List α}
    (each : ∀ item ∈ items, Applies plugin (visit item) (made item) item) :
    Applies plugin (items.mapM visit) (items.flatMap made) items := by
  induction items with
  | nil => exact idle []
  | cons item rest ih =>
      obtain ⟨first, others⟩ := List.forall_mem_cons.mp each
      rw [List.mapM_cons, List.flatMap_cons]
      exact first.bind ((ih others).map _)

theorem inCourse {work : Work PluginError σ α} {a : α} (here : Applies plugin work made a) :
    Applies plugin work.inCourse made a := by
  intro bench
  rw [run_inCourse, here bench]
  rfl

end Applies

section Walk

variable {v : Visit σ} {plugin : Plugin σ} {index : Option Nat} {owner : Option String}

theorem applies_insideExpr {visit : Expr → Course σ Expr} (e : Expr)
    (each : ∀ inner, inner.depth < e.depth →
      Applies plugin (visit inner) (v.callsIn plugin.category index owner (.expression inner)) inner) :
    Applies plugin (insideExpr visit e) (v.callsInside plugin.category index owner (.expression e)) e := by
  unfold callsInside
  cases e with
  | ident | literal => exact .idle _
  | call callee args =>
      rw [Node.children, List.flatMap_cons, List.flatMap_map]
      refine (each callee ?_).bind (Applies.map (.mapM fun arg listed => each arg ?_) _)
      · simp only [Expr.depth]
        omega
      · have := Expr.depth_le_depths listed
        simp only [Expr.depth]
        omega
  | member target property =>
      rw [Node.children, List.flatMap_singleton]
      exact (each target (Nat.lt_succ_self _)).map _
  | object fields =>
      rw [Node.children, List.flatMap_map]
      refine Applies.map (.mapM fun field listed => (each field.2 ?_).map _) _
      have := Expr.depth_le_fieldDepths listed
      simp only [Expr.depth]
      omega
  | array items =>
      rw [Node.children, List.flatMap_map]
      refine Applies.map (.mapM fun item listed => each item ?_) _
      exact Nat.lt_succ_of_le (Expr.depth_le_depths listed)

variable (watched : v.IsWatchedBy plugin)

include watched

theorem IsWatchedBy.runPhase_before (category : NodeCategory) (scope : Scope) (node : Node) :
    v.runPhase category .before scope node = pure node := by
  refine Registrations.runPhase_of_idle ?_
  simp [Registry.pluginsFor, watched.only, watched.after]

/-- In the phase after, the plugin is called when the node is of its category. -/
theorem IsWatchedBy.applies_after (index : Option Nat) (owner : Option String) (node : Node)
    {category : NodeCategory} (of : node.category? = some category) : Applies plugin
      (v.runPhase category .after { annotations := v.annotationsOf node, index, owner } node)
      (v.ownCall plugin.category { index, owner } node) node := by
  by_cases same : plugin.category = category
  · have always := watched.always
    have called (ctx : PluginContext) : Applies plugin (apply ctx node plugin) [(ctx, node)] node := by
      have transformed : Applies plugin (plugin.transform ctx node) [(ctx, node)] node :=
        fun bench => Prod.ext (watched.returns ctx node bench) rfl
      have kept : Applies plugin (if node.kind = node.kind then pure node
          else throw (.unexpectedNode plugin.name node.kind node.kind) : Work PluginError σ Node) []
            node := by
        rw [if_pos rfl]
        exact .idle node
      exact transformed.bind kept
    have ran (scope : Scope) :
        v.runPhase category .after scope node = apply (v.context scope) node plugin := by
      simp [runPhase, Registry.pluginsFor, watched.only, watched.after, same, always]
    rw [ran, ownCall, if_pos (same ▸ of)]
    exact called _
  · have other : node.category? ≠ some plugin.category := by
      simpa [of] using Ne.symm same
    rw [ownCall, if_neg other, Registrations.runPhase_of_idle]
    · exact .idle node
    · simp [Registry.pluginsFor, watched.only, same]

section Steps

variable {kind : NodeKind} {wrap : α → Node} {as : Node → Work PluginError σ α} {x : α}
  {category : NodeCategory} (reads : Reads kind wrap as)

include reads

theorem IsWatchedBy.step_before (scope : Scope) :
    v.step as category .before scope (wrap x) = pure x := by
  rw [step, watched.runPhase_before, pure_bind, reads.of_wrap, inCourse_pure]

theorem IsWatchedBy.applies_step (index : Option Nat) (owner : Option String)
    (of : (wrap x).category? = some category) : Applies plugin
      (v.step as category .after { annotations := v.annotationsOf (wrap x), index, owner } (wrap x))
      (v.ownCall plugin.category { index, owner } (wrap x)) x := by
  refine ((watched.applies_after index owner (wrap x) of).bind_idle ?_).inCourse
  rw [reads.of_wrap]
  exact .idle x

/-- A node is handed to the plugin once what is inside it has been visited. -/
theorem IsWatchedBy.applies_between (of : (wrap x).category? = some category)
    {told : Scope} (telling : told = { annotations := v.annotationsOf (wrap x), index, owner })
    {inside : α → Course σ α} (within : Applies plugin (inside x)
      (v.callsInside plugin.category index owner (wrap x)) x) :
    Applies plugin
      (v.step as category .before told (wrap x) >>= fun y => inside y >>= fun z =>
        v.step as category .after told (wrap z))
      (v.callsIn plugin.category index owner (wrap x)) x := by
  rw [watched.step_before reads, pure_bind, callsIn_eq, telling]
  exact within.bind (watched.applies_step reads index owner of)

end Steps

theorem IsWatchedBy.applies_expr {levels : Nat} {e : Expr} (enough : e.depth ≤ levels) :
    Applies plugin (v.expr { index, owner } levels e)
      (v.callsIn plugin.category index owner (.expression e)) e := by
  induction levels generalizing e with
  | zero => exact absurd e.depth_pos (Nat.not_lt.mpr enough)
  | succ levels ih =>
      have inside : Applies plugin (insideExpr (v.expr { index, owner } levels) e)
          (v.callsInside plugin.category index owner (.expression e)) e :=
        applies_insideExpr e fun inner smaller => ih (by omega)
      cases e with
      | call callee args =>
          exact watched.applies_between reads_asExpression rfl rfl inside
      | _ =>
          rw [callsIn_of_bare rfl]
          exact inside

theorem IsWatchedBy.applies_init (init : Option Expr) :
    Applies plugin (v.optionalExpr { index, owner } init)
      (init.toList.flatMap fun e => v.callsIn plugin.category index owner (.expression e)) init := by
  cases init with
  | none => exact .idle none
  | some e =>
      rw [Option.toList_some, List.flatMap_singleton]
      exact (watched.applies_expr (Nat.le_add_right _ _)).map some

theorem IsWatchedBy.applies_params (params : List Param) :
    Applies plugin (params.mapM (v.param { index, owner }))
      (params.flatMap fun p => v.callsIn plugin.category index owner (.parameter p)) params := by
  refine .mapM fun p _ => ?_
  have own := watched.applies_after index owner (.parameter p) rfl
  have last : Applies plugin (asParameter (.parameter p)) [] p := .idle p
  rw [callsIn_eq]
  simp only [param, watched.runPhase_before, pure_bind]
  exact (own.bind_idle last).inCourse

/-- Bodies that nest no deeper than so many levels are reached. -/
def AppliesBodies (v : Visit σ) (plugin : Plugin σ) (index : Option Nat)
    (body : Scope → List Statement → Course σ (List Statement)) (levels : Nat) : Prop :=
  ∀ (owner : Option String) (inner : List Statement), Statement.depths inner ≤ levels →
    Applies plugin (body { index, owner } inner)
      (inner.flatMap fun s => v.callsIn plugin.category index owner (.statement s)) inner

variable {body : Scope → List Statement → Course σ (List Statement)}

theorem IsWatchedBy.applies_insideMember (owner : Option String) (m : ClassMember)
    (bodies : v.AppliesBodies plugin index body m.depth) :
    Applies plugin (v.insideMember body { index, owner } m)
      (v.callsInside plugin.category index owner (.member m)) m := by
  unfold callsInside
  cases m with
  | constructorDecl params inner | method head inner | setter head inner =>
      rw [Node.children, List.flatMap_append, List.flatMap_map, List.flatMap_map]
      exact (watched.applies_params _).bind ((bodies owner inner (Nat.le_refl _)).map _)
  | getter head inner =>
      rw [Node.children, List.flatMap_map]
      exact (bodies owner inner (Nat.le_refl _)).map _
  | property decl =>
      rw [Node.children, List.flatMap_map]
      exact (watched.applies_init decl.init).map _

theorem IsWatchedBy.applies_member (m : ClassMember)
    (bodies : v.AppliesBodies plugin index body m.depth) :
    Applies plugin (v.member body { index, owner } m)
      (v.callsIn plugin.category index owner (.member m)) m := by
  exact watched.applies_between reads_asMember rfl rfl (watched.applies_insideMember owner m bodies)

theorem IsWatchedBy.applies_insideStatement (owner : Option String) (s : Statement)
    (bodies : v.AppliesBodies plugin index body (s.depth - 1)) :
    Applies plugin
      (v.insideStatement body { annotations := v.statementAnnotations s, index, owner } s)
      (v.callsInside plugin.category index owner (.statement s)) s := by
  unfold callsInside
  cases s with
  | classDecl head members =>
      rw [Node.children, List.flatMap_map]
      refine Applies.map (.mapM fun m listed => watched.applies_member m ?_) _
      exact fun owner inner shallow => bodies owner inner
        (Nat.le_trans shallow (ClassMember.depth_le_depths listed))
  | functionDecl head inner =>
      rw [Node.children, List.flatMap_append, List.flatMap_map, List.flatMap_map]
      exact (watched.applies_params _).bind ((bodies owner inner (Nat.le_refl _)).map _)
  | variableDecl decl =>
      rw [Node.children, List.flatMap_map]
      exact (watched.applies_init decl.init).map _
  | expression value =>
      rw [Node.children, List.flatMap_singleton]
      exact (watched.applies_expr (Nat.le_add_right _ _)).map _
  | returned value =>
      rw [Node.children, List.flatMap_map]
      exact (watched.applies_init value).map _
  | importDecl | interfaceDecl | aliasDecl => exact .idle _

theorem IsWatchedBy.applies_statement {levels : Nat} {s : Statement} (enough : s.depth ≤ levels) :
    Applies plugin (v.statement levels { index, owner } s)
      (v.callsIn plugin.category index owner (.statement s)) s := by
  induction levels generalizing owner s with
  | zero => exact absurd s.depth_pos (Nat.not_lt.mpr enough)
  | succ levels ih =>
      have bodies : v.AppliesBodies plugin index (fun scope => List.mapM (v.statement levels scope))
          (s.depth - 1) := by
        intro owner inner shallow
        refine .mapM fun s listed => ih ?_
        have := Statement.depth_le_depths listed
        omega
      have inside := watched.applies_insideStatement owner s bodies
      unfold statement
      -- without a category there is no phase, and the inside keeps the scope
      split
      · rename_i bare
        have none : (Node.statement s).category? = none := bare
        rw [callsIn_of_bare none]
        rwa [statementAnnotations_of_bare bare] at inside
      · rename_i category of
        refine watched.applies_between reads_asStatement of ?_ inside
        rw [annotationsOf_statement]

theorem IsWatchedBy.applies_topLevel (first : Nat) (statements : List Statement) :
    Applies plugin (v.topLevel first statements)
      ((statements.zipIdx first).flatMap fun child =>
        v.callsIn plugin.category (some child.2) none (.statement child.1)) statements := by
  induction statements generalizing first with
  | nil => exact .idle []
  | cons s rest ih =>
      rw [List.zipIdx_cons, List.flatMap_cons]
      exact (watched.applies_statement (Nat.le_add_right _ _)).bind ((ih (first + 1)).map _)

theorem IsWatchedBy.applies_unit (u : SourceUnit) :
    Applies plugin (v.unit u) (v.calls plugin.category (Scope.ofPosition u) (.unit u)) u := by
  have own : Applies plugin (v.step asUnit .file .after {} (.unit u)) _ u :=
    watched.applies_step reads_asUnit none none rfl
  have inside : Applies plugin (v.topLevel 0 u.statements)
      ((Node.unit u).children.zipIdx.flatMap fun child => v.calls plugin.category
        (fun p => Scope.ofPosition u (child.2 :: p)) child.1) u.statements := by
    rw [calls_topLevel]
    exact watched.applies_topLevel 0 u.statements
  rw [calls_eq]
  rw [unit, watched.step_before reads_asUnit, pure_bind]
  exact inside.bind own

end Walk

/-! ## Applications -/

section Applications

variable {v : Visit σ} {plugin : Plugin σ}

/-- The application that a call of the plugin is. -/
def applied (plugin : Plugin σ) (call : PluginContext × Node) : Application σ :=
  ⟨plugin, call.1, call.2, .ok call.2⟩

theorem reaches_calls (v : Visit σ) (plugin : Plugin σ) (u : SourceUnit) :
    v.Reaches plugin u
      ((v.calls plugin.category (Scope.ofPosition u) (.unit u)).map (applied plugin)) := by
  let reached := (Node.unit u).inPostOrder.filter fun entry => entry.2.category? = some plugin.category
  have ordered : (reached.map Prod.fst).Pairwise Position.Precedes :=
    List.pairwise_map.mpr ((Node.pairwise_inPostOrder (.unit u)).filter _)
  refine ⟨reached.map Prod.fst, fun p => ?_, ?_, ordered, ?_⟩
  · simp [reached, List.mem_filter, Node.mem_inPostOrder]
  · refine List.nodup_iff_pairwise_ne.mpr (ordered.imp ?_)
    rintro p _ before rfl
    exact Position.not_precedes_self p before
  · rw [calls, List.map_map, List.forall₂_map_left_iff, List.forall₂_map_right_iff, List.forall₂_same]
    intro entry listed
    exact ⟨rfl, Node.mem_inPostOrder.mp (List.mem_filter.mp listed).1, rfl, rfl⟩

variable (watched : v.IsWatchedBy plugin)

include watched

theorem IsWatchedBy.logged : v.logged.IsWatchedBy plugin.logged where
  only := by
    rw [Visit.logged, Dispatcher.logged, watched.only]
    rfl
  always := watched.always
  after := watched.after
  returns ctx node bench := watched.returns ctx node _
  quiet ctx node bench := watched.quiet ctx node _

theorem IsWatchedBy.foldl_leaves_logged (made : List (PluginContext × Node)) (bench : Workbench σ)
    (log : Log σ) : made.foldl plugin.logged.leaves (bench.withLog log) =
      (made.foldl plugin.leaves bench).withLog (log ++ made.map (applied plugin)) := by
  induction made generalizing bench log with
  | nil => simp
  | cons call rest ih =>
      have left : plugin.logged.leaves (bench.withLog log) call =
          (plugin.leaves bench call).withLog (log ++ [applied plugin call]) := by
        rw [applied, ← watched.returns call.1 call.2 bench]
        rfl
      rw [List.foldl_cons, List.foldl_cons, left, ih, List.append_assoc]
      rfl

theorem IsWatchedBy.queue_foldl_leaves (made : List (PluginContext × Node)) (bench : Workbench σ) :
    (made.foldl plugin.leaves bench).queue = bench.queue := by
  induction made generalizing bench with
  | nil => rfl
  | cons call rest ih =>
      rw [List.foldl_cons, ih]
      exact watched.quiet call.1 call.2 bench

end Applications

/-- A visit hands on the unit as it is and queues nothing, and the plugin is applied to each node of
its category once, in post-order. -/
theorem unit_reaches (v : Visit σ) (plugin : Plugin σ) (watched : v.IsWatchedBy plugin)
    (u : SourceUnit) (bench : Workbench σ) (log : Log σ) :
    ∃ last made, (v.unit u).run bench = (.ok u, last) ∧ last.queue = bench.queue ∧
      (v.logged.unit u).run (bench.withLog log) = (.ok u, last.withLog (log ++ made)) ∧
      v.Reaches plugin u made := by
  refine ⟨_, _, watched.applies_unit u bench, watched.queue_foldl_leaves _ bench, ?_,
    reaches_calls v plugin u⟩
  rw [watched.logged.applies_unit u (bench.withLog log)]
  exact congrArg _ (watched.foldl_leaves_logged _ bench log)

/-- A plugin that notes the calls of a unit, each with the class around it. -/
def noteCalls : Plugin (List (Option String × Node)) where
  name := "calls"
  category := .call
  phase := .after
  transform ctx node := do
    Work.note (· ++ [(ctx.owner, node)])
    return node

def callVisit : Visit (List (Option String × Node)) where
  registry := [noteCalls]
  semantic := .ofTables [] [] []
  references := .none
  path := ⟨"/ws/src/unit.ts"⟩
  unitId? := none
  levels := 0

def innerCall : Expr := .call (.ident "g") []

/-- A call on a part of what another one returns, and with a third one in an array. -/
def outerCall : Expr := .call (.member innerCall "f") [.array [innerCall]]

/-- A class in a method of another one. -/
def nestedClasses : SourceUnit where
  path := ⟨"/ws/src/unit.ts"⟩
  statements :=
    [.classDecl ⟨"Outer", true, [], none⟩
      [.method ⟨"run", false, [⟨"traced", [outerCall]⟩], [], none⟩
        [.classDecl ⟨"Inner", false, [], none⟩
          [.property ⟨"field", false, [], none, some outerCall⟩],
        .returned (some innerCall)]]]

/-- The calls among the arguments of a decorator are not reached. -/
theorem unit_reaches_nested : callVisit.IsWatchedBy noteCalls ∧ ∃ last made,
    (callVisit.unit nestedClasses).run { notes := [] } = (.ok nestedClasses, last) ∧
      last.notes = [(some "Inner", .expression innerCall), (some "Inner", .expression innerCall),
        (some "Inner", .expression outerCall), (some "Outer", .expression innerCall)] ∧
      callVisit.Reaches noteCalls nestedClasses made := by
  have watched : callVisit.IsWatchedBy noteCalls :=
    ⟨rfl, rfl, rfl, fun _ _ _ => rfl, fun _ _ _ => rfl⟩
  obtain ⟨last, made, ran, -, -, reaches⟩ :=
    unit_reaches callVisit noteCalls watched nestedClasses { notes := [] } []
  refine ⟨watched, last, made, ran, ?_, reaches⟩
  have same : last = ((callVisit.unit nestedClasses).run { notes := [] }).2 := by rw [ran]
  rw [same]
  rfl

end Visit

end Dispatcher

end WorkspaceBuild
