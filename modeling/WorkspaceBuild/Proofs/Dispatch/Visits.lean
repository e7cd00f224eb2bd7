import Mathlib.Order.Defs.Unbundled
import WorkspaceBuild.Dispatch

/-! # What a visit is made of

A visit is made of phases, after each of which the node that comes out is taken for one of the kind that
went in. What holds of these steps, and goes on holding when work follows on work, holds of the whole
visit. So it is with what plugins do to the workbench: what holds between the workbench before and after
each plugin, and from one change to the next, holds between the workbench before and after the visit,
whether it fails or not.
-/

namespace WorkspaceBuild

variable {ε σ α β : Type}

namespace Work

theorem state_bind_apply {s : Type} (work : StateM s α) (next : α → StateM s β) (state : s) :
    (work >>= next) state = next (work state).1 (work state).2 := rfl

theorem run_bind (work : Work ε σ α) (next : α → Work ε σ β) (bench : Workbench σ) :
    (work >>= next).run bench =
      match work.run bench with
      | (.ok x, after) => (next x).run after
      | (.error e, after) => (.error e, after) := by
  rw [ExceptT.run_bind, state_bind_apply]
  obtain ⟨_ | _, _⟩ := work.run bench <;> rfl

theorem run_bind_eq_error {work : Work ε σ α} {next : α → Work ε σ β} {bench : Workbench σ} {e : ε}
    (failed : (work.run bench).1 = .error e) : ((work >>= next).run bench).1 = .error e := by
  rw [run_bind]
  cases result : work.run bench with
  | mk answer after =>
      rw [result] at failed
      cases failed
      rfl

theorem run_eq_error_of_map {work : Work ε σ α} {f : α → β} {bench : Workbench σ} {e : ε}
    (failed : ((do return f (← work) : Work ε σ β).run bench).1 = .error e) :
    (work.run bench).1 = .error e := by
  rw [run_bind] at failed
  cases result : work.run bench with
  | mk answer after =>
      rw [result] at failed
      cases answer with
      | error e => exact congrArg Except.error (Except.error.inj failed)
      | ok x => cases failed

theorem run_inCourse (work : Work PluginError σ α) (bench : Workbench σ) :
    work.inCourse.run bench = ((work.run bench).1.mapError Halt.failed, (work.run bench).2) := rfl

@[simp] theorem inCourse_pure (x : α) : (pure x : Work PluginError σ α).inCourse = pure x := rfl

@[simp] theorem inCourse_throw (e : PluginError) :
    (throw e : Work PluginError σ α).inCourse = throw (.failed e) := rfl

theorem inCourse_bind (work : Work PluginError σ α) (next : α → Work PluginError σ β) :
    (work >>= next).inCourse = work.inCourse >>= fun x => (next x).inCourse := by
  refine funext fun bench => ?_
  have both := run_bind work next bench
  have here := run_inCourse (work >>= next) bench
  rw [both] at here
  refine here.trans (Eq.symm ((run_bind work.inCourse (fun x => (next x).inCourse) bench).trans ?_))
  rw [run_inCourse]
  obtain ⟨_ | x, after⟩ := work.run bench <;> rfl

/-- The workbench after the work is related to the one before, also where the work fails. -/
structure Moves (R : Workbench σ → Workbench σ → Prop) (work : Work ε σ α) : Prop where
  related : ∀ bench, R bench (work.run bench).2

section Moves

variable {R : Workbench σ → Workbench σ → Prop} [IsPreorder (Workbench σ) R]

theorem moves_pure (value : α) : Moves R (pure value : Work ε σ α) := ⟨fun bench => refl_of R bench⟩

theorem moves_throw (e : ε) : Moves R (throw e : Work ε σ α) :=
  ⟨fun bench => refl_of R bench⟩

theorem Moves.bind {work : Work ε σ α} {next : α → Work ε σ β} (here : Moves R work)
    (there : ∀ x, Moves R (next x)) : Moves R (work >>= next) := by
  refine ⟨fun bench => ?_⟩
  have first := here.related bench
  rw [run_bind]
  cases result : work.run bench with
  | mk value after =>
      rw [result] at first
      cases value with
      | error e => exact first
      | ok x => exact trans_of R first ((there x).related after)

omit [IsPreorder (Workbench σ) R] in
theorem Moves.inCourse {work : Work PluginError σ α} (here : Moves R work) : Moves R work.inCourse :=
  ⟨here.related⟩

theorem moves_foldlM {step : β → α → Work ε σ β} {items : List α}
    (each : ∀ item ∈ items, ∀ x, Moves R (step x item)) (start : β) :
    Moves R (items.foldlM step start) := by
  induction items generalizing start with
  | nil => exact moves_pure start
  | cons item rest ih =>
      rw [List.foldlM_cons]
      obtain ⟨here, later⟩ := List.forall_mem_cons.mp each
      exact (here start).bind fun x => ih later x

end Moves

end Work

namespace Dispatcher

namespace Visit

/-! ## Nodes of a kind -/

/-- A way to take nodes for those of a kind, which the walk fails with over nodes of another kind. -/
structure Reads (kind : NodeKind) (wrap : α → Node) (as : Node → Work PluginError σ α) : Prop where
  kind_wrap : ∀ value, (wrap value).kind = kind
  exists_wrap : ∀ node : Node, node.kind = kind → ∃ value, node = wrap value
  of_wrap : ∀ value, as (wrap value) = pure value
  of_other : ∀ node : Node, node.kind ≠ kind → as node = throw (unexpected kind node)

theorem reads_asUnit :
    Reads .unit .unit (asUnit : Node → Work PluginError σ SourceUnit) where
  kind_wrap _ := rfl
  exists_wrap node same := by cases node <;> first | exact ⟨_, rfl⟩ | cases same
  of_wrap _ := rfl
  of_other node other := by cases node <;> first | exact absurd rfl other | rfl

theorem reads_asStatement :
    Reads .statement .statement (asStatement : Node → Work PluginError σ Statement) where
  kind_wrap _ := rfl
  exists_wrap node same := by cases node <;> first | exact ⟨_, rfl⟩ | cases same
  of_wrap _ := rfl
  of_other node other := by cases node <;> first | exact absurd rfl other | rfl

theorem reads_asMember :
    Reads .member .member (asMember : Node → Work PluginError σ ClassMember) where
  kind_wrap _ := rfl
  exists_wrap node same := by cases node <;> first | exact ⟨_, rfl⟩ | cases same
  of_wrap _ := rfl
  of_other node other := by cases node <;> first | exact absurd rfl other | rfl

theorem reads_asParameter :
    Reads .parameter .parameter (asParameter : Node → Work PluginError σ Param) where
  kind_wrap _ := rfl
  exists_wrap node same := by cases node <;> first | exact ⟨_, rfl⟩ | cases same
  of_wrap _ := rfl
  of_other node other := by cases node <;> first | exact absurd rfl other | rfl

theorem reads_asExpression :
    Reads .expression .expression (asExpression : Node → Work PluginError σ Expr) where
  kind_wrap _ := rfl
  exists_wrap node same := by cases node <;> first | exact ⟨_, rfl⟩ | cases same
  of_wrap _ := rfl
  of_other node other := by cases node <;> first | exact absurd rfl other | rfl

/-! ## Whole visits -/

/-- A property of courses that a visit has if its steps have it. A step takes what comes out of a phase
for a node of the kind that went in; a parameter goes through both phases in one step. -/
structure Spreads (v : Visit σ) (P : (α : Type) → Course σ α → Prop) : Prop where
  idle {α : Type} (value : α) : P α (pure value)
  bind {α β : Type} {work : Course σ α} {next : α → Course σ β} (here : P α work)
    (there : ∀ x, P β (next x)) : P β (work >>= next)
  /-- A visit runs out of levels. -/
  unfinished {α : Type} : P α (throw .unfinished)
  step {α : Type} {wrap : α → Node} {as : Node → Work PluginError σ α} {node : Node}
    {category : NodeCategory} {phase : Phase} {scope : Scope} (reads : Reads node.kind wrap as) :
    P α (v.step as category phase scope node)
  param (scope : Scope) (p : Param) : P Param (v.param scope p)

section Spreads

variable {v : Visit σ} {P : (α : Type) → Course σ α → Prop} (spreads : v.Spreads P)

include spreads

theorem Spreads.map {work : Course σ α} (here : P α work) (f : α → β) :
    P β (do return f (← work)) :=
  spreads.bind here fun x => spreads.idle (f x)

theorem Spreads.mapM {visit : α → Course σ β} (each : ∀ item, P β (visit item)) (items : List α) :
    P (List β) (items.mapM visit) := by
  induction items with
  | nil => exact spreads.idle []
  | cons item rest ih =>
      rw [List.mapM_cons]
      exact spreads.bind (each item) fun x => spreads.map ih (x :: ·)

theorem Spreads.insideExpr {visit : Expr → Course σ Expr} (each : ∀ e, P Expr (visit e)) (e : Expr) :
    P Expr (insideExpr visit e) := by
  cases e with
  | ident | literal => exact spreads.idle _
  | call callee args =>
      exact spreads.bind (each callee) fun callee =>
        spreads.map (spreads.mapM each args) (Expr.call callee)
  | member target property => exact spreads.map (each target) _
  | object fields =>
      exact spreads.map (spreads.mapM (fun field => spreads.map (each field.2) _) fields) _
  | array items => exact spreads.map (spreads.mapM each items) _

theorem Spreads.expr (scope : Scope) (levels : Nat) (e : Expr) :
    P Expr (v.expr scope levels e) := by
  induction levels generalizing e with
  | zero => exact spreads.unfinished
  | succ levels ih =>
      have inside : P Expr (Visit.insideExpr (v.expr scope levels) e) := spreads.insideExpr ih e
      cases e with
      | call =>
          refine spreads.bind (spreads.step reads_asExpression) fun e => ?_
          refine spreads.bind (spreads.insideExpr ih e) fun e => ?_
          exact spreads.step reads_asExpression
      | _ => exact inside

theorem Spreads.optionalExpr (scope : Scope) (e : Option Expr) :
    P (Option Expr) (v.optionalExpr scope e) := by
  cases e with
  | none => exact spreads.idle none
  | some e => exact spreads.map (spreads.expr scope _ e) some

section Bodies

variable {body : Scope → List Statement → Course σ (List Statement)}
  (bodies : ∀ scope statements, P (List Statement) (body scope statements))

include bodies

theorem Spreads.insideMember (scope : Scope) (m : ClassMember) :
    P ClassMember (v.insideMember body scope m) := by
  have params (params : List Param) : P (List Param) (params.mapM (v.param scope)) :=
    spreads.mapM (spreads.param scope) params
  cases m with
  | constructorDecl => exact spreads.bind (params _) fun _ => spreads.map (bodies ..) _
  | method => exact spreads.bind (params _) fun _ => spreads.map (bodies ..) _
  | property => exact spreads.map (spreads.optionalExpr ..) _
  | getter => exact spreads.map (bodies ..) _
  | setter => exact spreads.bind (params _) fun _ => spreads.map (bodies ..) _

theorem Spreads.member (scope : Scope) (m : ClassMember) :
    P ClassMember (v.member body scope m) := by
  refine spreads.bind (spreads.step reads_asMember) fun m => ?_
  exact spreads.bind (spreads.insideMember bodies _ m) fun m => spreads.step reads_asMember

theorem Spreads.insideStatement (scope : Scope) (s : Statement) :
    P Statement (v.insideStatement body scope s) := by
  cases s with
  | classDecl => exact spreads.map (spreads.mapM (spreads.member bodies _) _) _
  | functionDecl =>
      exact spreads.bind (spreads.mapM (spreads.param _) _) fun _ => spreads.map (bodies ..) _
  | variableDecl => exact spreads.map (spreads.optionalExpr ..) _
  | expression => exact spreads.map (spreads.expr ..) _
  | returned => exact spreads.map (spreads.optionalExpr ..) _
  | _ => exact spreads.idle _

end Bodies

theorem Spreads.statement (levels : Nat) (scope : Scope) (s : Statement) :
    P Statement (v.statement levels scope s) := by
  induction levels generalizing scope s with
  | zero => exact spreads.unfinished
  | succ levels ih =>
      have bodies (scope : Scope) (statements : List Statement) :
          P (List Statement) (statements.mapM (v.statement levels scope)) :=
        spreads.mapM (ih scope) statements
      rw [Visit.statement]
      split
      · exact spreads.insideStatement bodies ..
      · refine spreads.bind (spreads.step reads_asStatement) fun s => ?_
        refine spreads.bind (spreads.insideStatement bodies _ s) fun s => ?_
        exact spreads.step reads_asStatement

theorem Spreads.wholeStatement (scope : Scope) (s : Statement) :
    P Statement (v.wholeStatement scope s) :=
  spreads.statement ..

theorem Spreads.topLevel (index : Nat) (statements : List Statement) :
    P (List Statement) (v.topLevel index statements) := by
  induction statements generalizing index with
  | nil => exact spreads.idle []
  | cons s rest ih =>
      exact spreads.bind (spreads.wholeStatement ..) fun s => spreads.map (ih (index + 1)) (s :: ·)

theorem Spreads.unit (u : SourceUnit) : P SourceUnit (v.unit u) := by
  refine spreads.bind (spreads.step reads_asUnit) fun u => ?_
  exact spreads.bind (spreads.topLevel 0 u.statements) fun _ => spreads.step reads_asUnit

theorem Spreads.batch (queued : List (InsertAt × Statement)) :
    P (List (InsertAt × Statement)) (v.batch queued) := by
  induction queued with
  | nil => exact spreads.idle []
  | cons entry rest ih =>
      exact spreads.bind (spreads.wholeStatement ..) fun s => spreads.map ih ((entry.1, s) :: ·)

end Spreads

/-! ## Moves of plugins -/

section Moves

open Work

variable {R : Workbench σ → Workbench σ → Prop} [IsPreorder (Workbench σ) R]
  {v : Visit σ}

theorem Reads.moves {kind : NodeKind} {wrap : α → Node} {as : Node → Work PluginError σ α}
    (reads : Reads kind wrap as) (node : Node) : Moves R (as node) := by
  by_cases same : node.kind = kind
  · obtain ⟨value, rfl⟩ := reads.exists_wrap node same
    rw [reads.of_wrap]
    exact moves_pure value
  · rw [reads.of_other node same]
    exact moves_throw _

/-- What the plugins do to the workbench. -/
def PluginsMove (v : Visit σ) (R : Workbench σ → Workbench σ → Prop) : Prop :=
  ∀ plugin ∈ v.registry, ∀ ctx node, Moves R (plugin.transform ctx node)

variable (plugins : v.PluginsMove R)

include plugins

theorem moves_runPhase (category : NodeCategory) (phase : Phase) (scope : Scope) (node : Node) :
    Moves R (v.runPhase category phase scope node) := by
  have applied (ctx : PluginContext) {chosen : List (Plugin σ)}
      (known : ∀ plugin ∈ chosen, plugin ∈ v.registry) (node : Node) :
      Moves R (chosen.foldlM (apply ctx) node) := by
    refine moves_foldlM (fun plugin listed node => ?_) node
    refine (plugins plugin (known plugin listed) ctx node).bind fun result => ?_
    split
    · exact moves_pure _
    · exact moves_throw _
  have known (plugin : Plugin σ) (listed : plugin ∈ v.registry.pluginsFor category phase) :
      plugin ∈ v.registry := (List.mem_filter.mp listed).1
  refine (applied _ (fun plugin listed => known plugin (List.mem_filter.mp listed).1) node).bind
    fun node => ?_
  dsimp only
  split
  · exact moves_pure _
  · refine applied _ (fun plugin listed => known plugin ?_) node
    exact (List.mem_filter.mp (List.mem_filter.mp listed).1).1

theorem PluginsMove.spreads : v.Spreads fun _ course => Moves R course where
  idle := moves_pure
  bind := Moves.bind
  unfinished := moves_throw _
  step reads := ((moves_runPhase plugins ..).bind reads.moves).inCourse
  param _ _ := ((moves_runPhase plugins ..).bind fun _ =>
    (moves_runPhase plugins ..).bind reads_asParameter.moves).inCourse

/-- A visit moves the workbench as the plugins do. -/
theorem moves_wholeStatement (scope : Scope) (s : Statement) : Moves R (v.wholeStatement scope s) :=
  (PluginsMove.spreads plugins).wholeStatement scope s

end Moves

end Visit

/-! ## Transforms -/

/-- The visit of a unit that is transformed. -/
def visitOf (d : Dispatcher σ) (u : SourceUnit) : Visit σ :=
  { d with path := u.path, unitId? := d.references.idOf u.path }

theorem transform_of_seen (d : Dispatcher σ) (u : SourceUnit) (notes : σ)
    (seen : isPassthrough d.references u.path = false) : d.transform u notes =
      match ((d.visitOf u).unit u).run { notes } with
      | (.error halt, bench) => (.error (halt.map (.plugin u.path)), bench.notes)
      | (.ok visited, bench) =>
          match drain (d.visitOf u) maxRounds visited bench with
          | (.error halt, bench) => (.error halt, bench.notes)
          | (.ok drained, bench) =>
              (.ok (Imports.finalize bench.imports d.semantic d.references drained), bench.notes) := by
  unfold transform
  rw [if_neg (by simp [seen])]
  rfl

end Dispatcher

end WorkspaceBuild
