import WorkspaceBuild.Proofs.Dispatch.Visits

/-! # The levels of a visit

A visit goes down on so many levels. On more of them it does the same, except that it goes on where it
was left unfinished. Plugins can keep it from ever coming to its end: one that puts each call it is
handed into another call is handed that call again, one level further down. Where no plugin of the
phase before hands back a deeper node than it was handed, every visit ends, however few the levels are.
-/

namespace WorkspaceBuild

variable {ε σ α β : Type}

/-! ## Depths -/

theorem Expr.depth_pos (e : Expr) : 0 < e.depth := by
  cases e <;> simp [Expr.depth]

theorem Expr.depth_le_depths {e : Expr} {items : List Expr} (listed : e ∈ items) :
    e.depth ≤ Expr.depths items := by
  induction items with
  | nil => cases listed
  | cons first rest ih =>
      rcases List.mem_cons.mp listed with rfl | later
      · exact Nat.le_max_left _ _
      · exact Nat.le_trans (ih later) (Nat.le_max_right _ _)

theorem Expr.depth_le_fieldDepths {field : String × Expr} {fields : List (String × Expr)}
    (listed : field ∈ fields) : field.2.depth ≤ Expr.fieldDepths fields := by
  induction fields with
  | nil => cases listed
  | cons first rest ih =>
      rcases List.mem_cons.mp listed with rfl | later
      · exact Nat.le_max_left _ _
      · exact Nat.le_trans (ih later) (Nat.le_max_right _ _)

theorem Statement.depth_pos (s : Statement) : 0 < s.depth := by
  cases s <;> simp [Statement.depth]

theorem Statement.depth_le_depths {s : Statement} {body : List Statement} (listed : s ∈ body) :
    s.depth ≤ Statement.depths body := by
  induction body with
  | nil => cases listed
  | cons first rest ih =>
      rw [Statement.depths]
      rcases List.mem_cons.mp listed with rfl | later
      · exact Nat.le_max_left _ _
      · exact Nat.le_trans (ih later) (Nat.le_max_right _ _)

theorem ClassMember.depth_le_depths {m : ClassMember} {members : List ClassMember}
    (listed : m ∈ members) : m.depth ≤ ClassMember.depths members := by
  induction members with
  | nil => cases listed
  | cons first rest ih =>
      rw [ClassMember.depths]
      rcases List.mem_cons.mp listed with rfl | later
      · exact Nat.le_max_left _ _
      · exact Nat.le_trans (ih later) (Nat.le_max_right _ _)

/-- How deep a node nests, as far as a visit spends levels on it: the statements of a unit and the
expressions in a statement have levels of their own. -/
def Node.depth : Node → Nat
  | .unit _ | .parameter _ => 0
  | .statement s => s.depth
  | .member m => m.depth
  | .expression e => e.depth

namespace Work

/-! ## More levels -/

/-- Where the first course comes to its end, the second one does the same. -/
structure Continues (course longer : Course σ α) : Prop where
  related : ∀ bench, (course.run bench).1 = .error .unfinished ∨ longer.run bench = course.run bench

section Continues

theorem Continues.refl (course : Course σ α) : Continues course course := ⟨fun _ => .inr rfl⟩

theorem continues_unfinished (longer : Course σ α) : Continues (throw .unfinished) longer :=
  ⟨fun _ => .inl rfl⟩

section

variable {course longer : Course σ α} (continues : Continues course longer) {bench : Workbench σ}

include continues

theorem Continues.run_eq (finished : (course.run bench).1 ≠ .error .unfinished) :
    longer.run bench = course.run bench :=
  (continues.related bench).resolve_left finished

theorem Continues.unfinished (never : (longer.run bench).1 = .error .unfinished) :
    (course.run bench).1 = .error .unfinished :=
  (continues.related bench).elim id fun same => same ▸ never

end

theorem Continues.bind {course longer : Course σ α} {next next' : α → Course σ β}
    (here : Continues course longer) (there : ∀ x, Continues (next x) (next' x)) :
    Continues (course >>= next) (longer >>= next') := by
  refine ⟨fun bench => ?_⟩
  rw [run_bind, run_bind]
  have first := here.related bench
  cases result : course.run bench with
  | mk answer after =>
      rw [result] at first
      rcases first with stopped | same
      · cases stopped
        exact .inl rfl
      · rw [same]
        cases answer with
        | error halt => exact .inr rfl
        | ok x => exact (there x).related after

theorem Continues.map {course longer : Course σ α} (here : Continues course longer) (f : α → β) :
    Continues (do return f (← course)) (do return f (← longer)) :=
  here.bind fun _ => .refl _

theorem Continues.mapM {visit visit' : α → Course σ β}
    (each : ∀ item, Continues (visit item) (visit' item)) (items : List α) :
    Continues (items.mapM visit) (items.mapM visit') := by
  induction items with
  | nil => exact .refl _
  | cons item rest ih =>
      rw [List.mapM_cons, List.mapM_cons]
      exact (each item).bind fun x => ih.map (x :: ·)

end Continues

/-! ## Courses that end -/

/-- What work hands on is of a sort. -/
structure Leaves (work : Work ε σ α) (sort : α → Prop) : Prop where
  sorted : ∀ bench x, (work.run bench).1 = .ok x → sort x

/-- A course comes to its end, and what it hands on is of a sort. -/
structure Finishes (course : Course σ α) (sort : α → Prop) : Prop extends Leaves course sort where
  finished : ∀ bench, (course.run bench).1 ≠ .error .unfinished

section Finishes

variable {sort : α → Prop} {wider : β → Prop}

theorem leaves_pure {value : α} (kept : sort value) : Leaves (pure value : Work ε σ α) sort :=
  ⟨fun _ _ same => Except.ok.inj same ▸ kept⟩

theorem leaves_throw (e : ε) : Leaves (throw e : Work ε σ α) sort := ⟨fun _ _ => nofun⟩

theorem Leaves.bind {work : Work ε σ α} {next : α → Work ε σ β} (here : Leaves work sort)
    (there : ∀ x, sort x → Leaves (next x) wider) : Leaves (work >>= next) wider := by
  refine ⟨fun bench y answer => ?_⟩
  have first := here.sorted bench
  rw [run_bind] at answer
  cases result : work.run bench with
  | mk value after =>
      rw [result] at first answer
      cases value with
      | error e => cases answer
      | ok x => exact (there x (first x rfl)).sorted after y answer

theorem leaves_bind {work : Work ε σ α} {next : α → Work ε σ β} (later : ∀ x, Leaves (next x) wider) :
    Leaves (work >>= next) wider :=
  Leaves.bind (⟨fun _ _ _ => trivial⟩ : Leaves work fun _ => True) fun x _ => later x

theorem leaves_map {work : Work ε σ α} {f : α → β} (kept : ∀ x, wider (f x)) :
    Leaves (do return f (← work)) wider :=
  leaves_bind fun x => leaves_pure (kept x)

theorem Leaves.inCourse {work : Work PluginError σ α} (here : Leaves work sort) :
    Finishes work.inCourse sort := by
  constructor
  · refine ⟨fun bench x answer => here.sorted bench x ?_⟩
    rw [run_inCourse] at answer
    cases result : (work.run bench).1 with
    | error e =>
        rw [result] at answer
        cases answer
    | ok y =>
        rw [result] at answer
        cases answer
        rfl
  · intro bench
    rw [run_inCourse]
    cases (work.run bench).1 <;> exact nofun

theorem finishes_inCourse (work : Work PluginError σ α) : Finishes work.inCourse fun _ => True :=
  Leaves.inCourse ⟨fun _ _ _ => trivial⟩

theorem finishes_pure {value : α} : Finishes (pure value : Course σ α) fun _ => True :=
  ⟨leaves_pure trivial, fun _ => nofun⟩

theorem Finishes.bind {course : Course σ α} {next : α → Course σ β} (here : Finishes course sort)
    (there : ∀ x, sort x → Finishes (next x) wider) : Finishes (course >>= next) wider := by
  refine ⟨here.toLeaves.bind fun x kept => (there x kept).toLeaves, fun bench => ?_⟩
  have first := here.finished bench
  have kept := here.sorted bench
  rw [run_bind]
  cases result : course.run bench with
  | mk value after =>
      rw [result] at first kept
      cases value with
      | error halt => exact fun same => first (congrArg Except.error (Except.error.inj same))
      | ok x => exact (there x (kept x rfl)).finished after

theorem Finishes.map {course : Course σ α} (here : Finishes course sort) (f : α → β) :
    Finishes (do return f (← course)) fun _ => True :=
  here.bind fun _ _ => finishes_pure

theorem Finishes.mapM {visit : α → Course σ β} {items : List α}
    (each : ∀ item ∈ items, Finishes (visit item) fun _ => True) :
    Finishes (items.mapM visit) fun _ => True := by
  induction items with
  | nil => exact finishes_pure
  | cons item rest ih =>
      obtain ⟨first, others⟩ := List.forall_mem_cons.mp each
      rw [List.mapM_cons]
      exact first.bind fun x _ => (ih others).map (x :: ·)

end Finishes

end Work

namespace Dispatcher.Visit

open Work

/-- The visit on so many levels. -/
def onLevels (v : Visit σ) (levels : Nat) : Visit σ := { v with levels }

section More

variable {v : Visit σ} {more : Nat}

theorem continues_insideExpr {visit visit' : Expr → Course σ Expr}
    (each : ∀ e, Continues (visit e) (visit' e)) (e : Expr) :
    Continues (insideExpr visit e) (insideExpr visit' e) := by
  cases e with
  | ident | literal => exact .refl _
  | call callee args =>
      exact (each callee).bind fun callee => (Continues.mapM each args).map (Expr.call callee)
  | member target property => exact (each target).map _
  | object fields => exact (Continues.mapM (fun field => (each field.2).map _) fields).map _
  | array items => exact (Continues.mapM each items).map _

theorem continues_expr (scope : Scope) {levels further : Nat} (le : levels ≤ further) (e : Expr) :
    Continues (v.expr scope levels e) ((v.onLevels more).expr scope further e) := by
  induction levels generalizing further e with
  | zero => exact continues_unfinished _
  | succ levels ih =>
      obtain ⟨further, rfl⟩ : ∃ n, further = n + 1 := ⟨further - 1, by omega⟩
      have each (e : Expr) := ih (Nat.le_of_succ_le_succ le) e
      have inside : Continues (insideExpr (v.expr scope levels) e)
          (insideExpr ((v.onLevels more).expr scope further) e) := continues_insideExpr each e
      cases e with
      | call =>
          refine Continues.bind (.refl _) fun e => ?_
          exact (continues_insideExpr each e).bind fun e => .refl _
      | _ => exact inside

variable (le : v.levels ≤ more)

include le

theorem continues_wholeExpr (scope : Scope) (e : Expr) :
    Continues (v.wholeExpr scope e) ((v.onLevels more).wholeExpr scope e) :=
  continues_expr scope (Nat.add_le_add_left le e.depth) e

theorem continues_optionalExpr (scope : Scope) (e : Option Expr) :
    Continues (v.optionalExpr scope e) ((v.onLevels more).optionalExpr scope e) := by
  cases e with
  | none => exact .refl _
  | some e => exact (continues_wholeExpr le scope e).map some

section Bodies

variable {body body' : Scope → List Statement → Course σ (List Statement)}
  (bodies : ∀ scope statements, Continues (body scope statements) (body' scope statements))

include bodies

theorem continues_insideMember (scope : Scope) (m : ClassMember) :
    Continues (v.insideMember body scope m) ((v.onLevels more).insideMember body' scope m) := by
  have params (params : List Param) : Continues (params.mapM (v.param scope))
      (params.mapM ((v.onLevels more).param scope)) := .mapM (fun _ => .refl _) params
  cases m with
  | constructorDecl => exact (params _).bind fun _ => (bodies ..).map _
  | method => exact (params _).bind fun _ => (bodies ..).map _
  | property => exact (continues_optionalExpr le ..).map _
  | getter => exact (bodies ..).map _
  | setter => exact (params _).bind fun _ => (bodies ..).map _

theorem continues_member (scope : Scope) (m : ClassMember) :
    Continues (v.member body scope m) ((v.onLevels more).member body' scope m) :=
  Continues.bind (.refl _) fun m =>
    (continues_insideMember le bodies _ m).bind fun _ => .refl _

theorem continues_insideStatement (scope : Scope) (s : Statement) :
    Continues (v.insideStatement body scope s) ((v.onLevels more).insideStatement body' scope s) := by
  cases s with
  | classDecl => exact (Continues.mapM (continues_member le bodies _) _).map _
  | functionDecl => exact (Continues.mapM (fun _ => .refl _) _).bind fun _ => (bodies ..).map _
  | variableDecl => exact (continues_optionalExpr le ..).map _
  | expression => exact (continues_wholeExpr le ..).map _
  | returned => exact (continues_optionalExpr le ..).map _
  | _ => exact .refl _

end Bodies

theorem continues_statement {levels further : Nat} (deeper : levels ≤ further) (scope : Scope)
    (s : Statement) :
    Continues (v.statement levels scope s) ((v.onLevels more).statement further scope s) := by
  induction levels generalizing further scope s with
  | zero => exact continues_unfinished _
  | succ levels ih =>
      obtain ⟨further, rfl⟩ : ∃ n, further = n + 1 := ⟨further - 1, by omega⟩
      have bodies (scope : Scope) (statements : List Statement) :
          Continues (statements.mapM (v.statement levels scope))
            (statements.mapM ((v.onLevels more).statement further scope)) :=
        .mapM (ih (Nat.le_of_succ_le_succ deeper) scope) statements
      rw [statement, statement]
      cases NodeCategory.ofStatement? s with
      | none => exact continues_insideStatement le bodies scope s
      | some category =>
          refine Continues.bind (.refl _) fun s => ?_
          exact (continues_insideStatement le bodies _ s).bind fun _ => .refl _

/-- On more levels the visit of a statement goes on where it was left unfinished. -/
theorem continues_wholeStatement (scope : Scope) (s : Statement) :
    Continues (v.wholeStatement scope s) ((v.onLevels more).wholeStatement scope s) :=
  continues_statement le (Nat.add_le_add_left le s.depth) scope s

theorem continues_batch (queued : List (InsertAt × Statement)) :
    Continues (v.batch queued) ((v.onLevels more).batch queued) := by
  induction queued with
  | nil => exact .refl _
  | cons entry rest ih =>
      exact (continues_wholeStatement le {} entry.2).bind fun s => ih.map ((entry.1, s) :: ·)

end More

/-! ## Visits that end -/

/-- The visit of a queued statement ends on some levels. -/
def Ends (v : Visit σ) (s : Statement) (bench : Workbench σ) : Prop :=
  ∃ levels, (((v.onLevels levels).wholeStatement {} s).run bench).1 ≠ .error .unfinished

/-- Plugins of the phase before hand back no deeper nodes than they are handed. -/
def KeepsDepth (v : Visit σ) : Prop :=
  ∀ plugin ∈ v.registry, plugin.phase = .before → ∀ ctx node,
    Leaves (plugin.transform ctx node) fun result =>
      result.kind = node.kind → result.depth ≤ node.depth

section Depth

variable {v : Visit σ} (keeps : v.KeepsDepth)

include keeps

theorem KeepsDepth.leaves_apply {plugin : Plugin σ} (registered : plugin ∈ v.registry)
    (before : plugin.phase = .before) (ctx : PluginContext) {node first : Node}
    (left : node.kind = first.kind ∧ node.depth ≤ first.depth) :
    Leaves (apply ctx node plugin) fun result =>
      result.kind = first.kind ∧ result.depth ≤ first.depth := by
  refine (keeps plugin registered before ctx node).bind fun result shallow => ?_
  split
  · rename_i same
    exact leaves_pure ⟨same.trans left.1, Nat.le_trans (shallow same) left.2⟩
  · exact leaves_throw _

theorem KeepsDepth.leaves_foldlM (ctx : PluginContext) {plugins : List (Plugin σ)}
    (chosen : ∀ plugin ∈ plugins, plugin ∈ v.registry ∧ plugin.phase = .before) {node first : Node}
    (left : node.kind = first.kind ∧ node.depth ≤ first.depth) :
    Leaves (plugins.foldlM (apply ctx) node) fun result =>
      result.kind = first.kind ∧ result.depth ≤ first.depth := by
  induction plugins generalizing node with
  | nil => exact leaves_pure left
  | cons plugin rest ih =>
      obtain ⟨⟨registered, before⟩, others⟩ := List.forall_mem_cons.mp chosen
      rw [List.foldlM_cons]
      exact (keeps.leaves_apply registered before ctx left).bind fun _ kept => ih others kept

theorem KeepsDepth.leaves_runPhase (category : NodeCategory) (scope : Scope) (node : Node) :
    Leaves (v.runPhase category .before scope node) fun left =>
      left.kind = node.kind ∧ left.depth ≤ node.depth := by
  have chosen (plugin : Plugin σ) (listed : plugin ∈ v.registry.pluginsFor category .before) :
      plugin ∈ v.registry ∧ plugin.phase = .before := by
    obtain ⟨registered, same⟩ := List.mem_filter.mp listed
    exact ⟨registered, of_decide_eq_true (Bool.and_eq_true_iff.mp same).2⟩
  refine (keeps.leaves_foldlM _ (fun plugin listed => chosen plugin (List.mem_filter.mp listed).1)
    ⟨rfl, Nat.le_refl _⟩).bind fun left kept => ?_
  dsimp only
  split
  · exact leaves_pure kept
  · refine keeps.leaves_foldlM _ (fun plugin listed => chosen plugin ?_) kept
    exact (List.mem_filter.mp (List.mem_filter.mp listed).1).1

/-- The phase before leaves a node of its kind that is no deeper. -/
theorem KeepsDepth.finishes_step {wrap : α → Node} {as : Node → Work PluginError σ α}
    (category : NodeCategory) (scope : Scope) (node : Node) (reads : Reads node.kind wrap as) :
    Finishes (v.step as category .before scope node) fun x => (wrap x).depth ≤ node.depth := by
  refine ((keeps.leaves_runPhase category scope node).bind fun left kept => ?_).inCourse
  obtain ⟨x, rfl⟩ := reads.exists_wrap left kept.1
  rw [reads.of_wrap]
  exact leaves_pure kept.2

omit keeps in
theorem finishes_insideExpr {visit : Expr → Course σ Expr} (e : Expr)
    (each : ∀ inner, inner.depth < e.depth → Finishes (visit inner) fun _ => True) :
    Finishes (insideExpr visit e) fun _ => True := by
  cases e with
  | ident | literal => exact finishes_pure
  | call callee args =>
      refine (each callee ?_).bind fun callee _ => (Finishes.mapM fun arg listed => each arg ?_).map _
      · simp only [Expr.depth]
        omega
      · have := Expr.depth_le_depths listed
        simp only [Expr.depth]
        omega
  | member target property => exact (each target (Nat.lt_succ_self _)).map _
  | object fields =>
      refine (Finishes.mapM fun field listed => (each field.2 ?_).map _).map _
      have := Expr.depth_le_fieldDepths listed
      simp only [Expr.depth]
      omega
  | array items =>
      refine (Finishes.mapM fun item listed => each item ?_).map _
      exact Nat.lt_succ_of_le (Expr.depth_le_depths listed)

theorem KeepsDepth.finishes_expr (scope : Scope) {levels : Nat} {e : Expr}
    (enough : e.depth ≤ levels) : Finishes (v.expr scope levels e) fun _ => True := by
  induction levels generalizing e with
  | zero => exact absurd e.depth_pos (Nat.not_lt.mpr enough)
  | succ levels ih =>
      have inside {e : Expr} (shallow : e.depth ≤ levels + 1) :
          Finishes (insideExpr (v.expr scope levels) e) fun _ => True :=
        finishes_insideExpr e fun inner smaller => ih (by omega)
      cases e with
      | call callee args =>
          have before := keeps.finishes_step .call scope (.expression (.call callee args))
            reads_asExpression
          refine before.bind fun left kept => ?_
          exact (inside (Nat.le_trans kept enough)).bind fun _ _ => finishes_inCourse _
      | _ => exact inside enough

theorem KeepsDepth.finishes_wholeExpr (scope : Scope) (e : Expr) :
    Finishes (v.wholeExpr scope e) fun _ => True :=
  keeps.finishes_expr scope (Nat.le_add_right _ _)

theorem KeepsDepth.finishes_optionalExpr (scope : Scope) (e : Option Expr) :
    Finishes (v.optionalExpr scope e) fun _ => True := by
  cases e with
  | none => exact finishes_pure
  | some e => exact (keeps.finishes_wholeExpr scope e).map some

/-- Bodies that nest no deeper than so many levels come to their end. -/
def FinishesBodies (body : Scope → List Statement → Course σ (List Statement)) (levels : Nat) : Prop :=
  ∀ scope inner, Statement.depths inner ≤ levels → Finishes (body scope inner) fun _ => True

variable {body : Scope → List Statement → Course σ (List Statement)} {levels : Nat}
  (bodies : FinishesBodies body levels)

include bodies

theorem KeepsDepth.finishes_insideMember (scope : Scope) {m : ClassMember} (enough : m.depth ≤ levels) :
    Finishes (v.insideMember body scope m) fun _ => True := by
  have params (params : List Param) :
      Finishes (params.mapM (v.param scope)) fun _ => True := .mapM fun _ _ => finishes_inCourse _
  cases m with
  | constructorDecl _ inner | method _ inner | setter _ inner =>
      exact (params _).bind fun _ _ => (bodies _ inner enough).map _
  | property => exact (keeps.finishes_optionalExpr ..).map _
  | getter head inner => exact (bodies _ inner enough).map _

theorem KeepsDepth.finishes_member (scope : Scope) {m : ClassMember} (enough : m.depth ≤ levels) :
    Finishes (v.member body scope m) fun _ => True := by
  refine (keeps.finishes_step _ _ (.member m) reads_asMember).bind fun left kept => ?_
  exact (keeps.finishes_insideMember bodies _ (Nat.le_trans kept enough)).bind
    fun _ _ => finishes_inCourse _

theorem KeepsDepth.finishes_insideStatement (scope : Scope) {s : Statement}
    (enough : s.depth ≤ levels + 1) : Finishes (v.insideStatement body scope s) fun _ => True := by
  cases s with
  | classDecl head members =>
      refine (Finishes.mapM fun m listed => keeps.finishes_member bodies _ ?_).map _
      exact Nat.le_trans (ClassMember.depth_le_depths listed) (Nat.le_of_succ_le_succ enough)
  | functionDecl head inner =>
      refine (Finishes.mapM fun _ _ => finishes_inCourse _).bind fun _ _ => ?_
      exact (bodies _ inner (Nat.le_of_succ_le_succ enough)).map _
  | variableDecl => exact (keeps.finishes_optionalExpr ..).map _
  | expression => exact (keeps.finishes_wholeExpr ..).map _
  | returned => exact (keeps.finishes_optionalExpr ..).map _
  | _ => exact finishes_pure

omit bodies in
theorem KeepsDepth.finishes_statement (scope : Scope) {s : Statement} (enough : s.depth ≤ levels) :
    Finishes (v.statement levels scope s) fun _ => True := by
  induction levels generalizing scope s with
  | zero => exact absurd s.depth_pos (Nat.not_lt.mpr enough)
  | succ levels ih =>
      have bodies : FinishesBodies (fun scope => List.mapM (v.statement levels scope)) levels :=
        fun scope inner shallow => .mapM fun s listed =>
          ih scope (Nat.le_trans (Statement.depth_le_depths listed) shallow)
      unfold statement
      split
      · exact keeps.finishes_insideStatement bodies scope enough
      · refine (keeps.finishes_step _ _ (.statement s) reads_asStatement).bind fun left kept => ?_
        exact (keeps.finishes_insideStatement bodies _ (Nat.le_trans kept enough)).bind
          fun _ _ => finishes_inCourse _

omit bodies in
/-- Where the phase before puts nothing deeper, a visit ends on the levels that it has. -/
theorem KeepsDepth.ends (s : Statement) (bench : Workbench σ) : v.Ends s bench :=
  ⟨v.levels, (keeps.finishes_statement {} (Nat.le_add_right _ _)).finished bench⟩

end Depth

end Dispatcher.Visit

end WorkspaceBuild
