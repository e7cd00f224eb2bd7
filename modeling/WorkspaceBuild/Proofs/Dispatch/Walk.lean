import WorkspaceBuild.Proofs.Dispatch.Applications
import WorkspaceBuild.Proofs.Dispatch.Draining
import WorkspaceBuild.Proofs.Dispatch.Nodes

/-! # The walk over a unit

Each node is visited once: it goes through the phase before, what is inside it then is visited, and what
has come of it goes through the phase after. So it is known which plugins are applied to which nodes,
in what order, and what they are told.
-/

namespace WorkspaceBuild.Dispatcher

variable {σ α β : Type}

namespace Visit

open Work Application

mutual

/-- The applications in the visit of a node, and what the visit comes to. In the phase after, plugins
that run on every node are told what is `known` of the node, as it was reached and as it is when the
phase starts. -/
inductive IsVisit (v : Visit σ) (known : Node → Node → List AnnotationUse) :
    Scope → Node → Log σ → Except (Halt PluginError) Node → Prop
  /-- There are no levels left for it. -/
  | unfinished (scope : Scope) (node : Node) : IsVisit v known scope node [] (.error .unfinished)
  /-- A node of no category goes through no phase. -/
  | bare {scope : Scope} {node : Node} {made : Log σ} {result : Except (Halt PluginError) Node}
      (bare : node.category? = none) (inside : IsInside v known scope node made result) :
      IsVisit v known scope node made result
  /-- The phase before fails. -/
  | failed {scope : Scope} {node : Node} {category : NodeCategory} {made : Log σ} {e : PluginError}
      (of : node.category? = some category)
      (before : v.IsPhase category .before (scope.telling node (v.annotationsOf node)) node made
        (.error e)) : IsVisit v known scope node made (.error (.failed e))
  /-- What is inside is not visited to its end. -/
  | halted {scope : Scope} {node left : Node} {category : NodeCategory} {first inner : Log σ}
      {halt : Halt PluginError} (of : node.category? = some category)
      (before : v.IsPhase category .before (scope.telling node (v.annotationsOf node)) node first
        (.ok left))
      (inside : IsInside v known (scope.telling node (v.annotationsOf node)) left inner
        (.error halt)) : IsVisit v known scope node (first ++ inner) (.error halt)
  /-- What is inside is visited between the two phases. -/
  | visited {scope : Scope} {node left here : Node} {category : NodeCategory}
      {first inner last : Log σ} {result : Except PluginError Node}
      (of : node.category? = some category)
      (before : v.IsPhase category .before (scope.telling node (v.annotationsOf node)) node first
        (.ok left))
      (inside : IsInside v known (scope.telling node (v.annotationsOf node)) left inner (.ok here))
      (after : v.IsPhase category .after (scope.telling node (known node here)) here last result) :
      IsVisit v known scope node (first ++ (inner ++ last)) (result.mapError .failed)

/-- The applications in the visits of the nodes right inside a node, and the node with what comes of
these in their places. -/
inductive IsInside (v : Visit σ) (known : Node → Node → List AnnotationUse) :
    Scope → Node → Log σ → Except (Halt PluginError) Node → Prop
  | halted {scope : Scope} {node : Node} {made : Log σ} {halt : Halt PluginError}
      (walk : IsWalk v known (placed scope node) made (.error halt)) :
      IsInside v known scope node made (.error halt)
  | filled {scope : Scope} {node here : Node} {made : Log σ}
      (walk : IsWalk v known (placed scope node) made (.ok here.children))
      (same : here.shell = node.shell) : IsInside v known scope node made (.ok here)

/-- The applications in the visits of nodes one after another, up to one that does not succeed. -/
inductive IsWalk (v : Visit σ) (known : Node → Node → List AnnotationUse) :
    List (Scope × Node) → Log σ → Except (Halt PluginError) (List Node) → Prop
  | nil : IsWalk v known [] [] (.ok [])
  | halted {scope : Scope} {node : Node} {rest : List (Scope × Node)} {made : Log σ}
      {halt : Halt PluginError} (here : IsVisit v known scope node made (.error halt)) :
      IsWalk v known ((scope, node) :: rest) made (.error halt)
  | cons {scope : Scope} {node x : Node} {rest : List (Scope × Node)} {first second : Log σ}
      {results : Except (Halt PluginError) (List Node)}
      (here : IsVisit v known scope node first (.ok x))
      (there : IsWalk v known rest second results) :
      IsWalk v known ((scope, node) :: rest) (first ++ second) (results.map (x :: ·))

end

/-- What is known of a node when it is reached. -/
def atFirst (v : Visit σ) (reached _here : Node) : List AnnotationUse := v.annotationsOf reached

variable {v : Visit σ} {known : Node → Node → List AnnotationUse}

/-! ## Walks -/

theorem IsWalk.append_halted {places : List (Scope × Node)} {made : Log σ} {halt : Halt PluginError}
    (walk : v.IsWalk known places made (.error halt)) (more : List (Scope × Node)) :
    v.IsWalk known (places ++ more) made (.error halt) := by
  generalize answered : (.error halt : Except (Halt PluginError) (List Node)) = results at walk
  induction places generalizing made results with
  | nil =>
      cases walk
      cases answered
  | cons place rest ih =>
      cases walk with
      | halted here =>
          cases answered
          exact .halted here
      | @cons _ _ _ _ _ _ others here there =>
          cases others with
          | ok => cases answered
          | error e =>
              cases answered
              exact .cons here (ih _ rfl there)

theorem IsWalk.append {places more : List (Scope × Node)} {first second : Log σ} {xs : List Node}
    {results : Except (Halt PluginError) (List Node)} (walk : v.IsWalk known places first (.ok xs))
    (further : v.IsWalk known more second results) :
    v.IsWalk known (places ++ more) (first ++ second) (results.map (xs ++ ·)) := by
  generalize answered : (.ok xs : Except (Halt PluginError) (List Node)) = visited at walk
  induction places generalizing first xs visited with
  | nil =>
      cases walk
      cases answered
      cases results <;> exact further
  | cons place rest ih =>
      cases walk with
      | halted => cases answered
      | @cons _ _ x _ _ _ others here there =>
          cases others with
          | error => cases answered
          | ok ys =>
              cases answered
              have both := IsWalk.cons here (ih _ rfl there)
              rw [List.append_assoc]
              cases results <;> exact both

/-- Work hands on nodes, some that were there before and then those that come of visits. -/
def Fills (v : Visit σ) (known : Node → Node → List AnnotationUse) (places : List (Scope × Node))
    (before : List Node) (nodes : α → List Node) (made : Log σ)
    (answer : Except (Halt PluginError) α) : Prop :=
  ∃ results, v.IsWalk known places made results ∧ answer.map nodes = results.map (before ++ ·)

section Fills

variable {places : List (Scope × Node)} {before : List Node} {nodes : α → List Node}
  {whole : β → List Node} {logging : Course (σ × Log σ) α} {work : Course σ α}

theorem fills_pure {x : α} (same : nodes x = before) :
    Logs (pure x) (pure x) (v.Fills known [] before nodes) :=
  logs_pure ⟨.ok [], .nil, by simp [Except.map, same]⟩

theorem fills_bind {more : List (Scope × Node)} {next' : α → Course (σ × Log σ) β}
    {next : α → Course σ β} (here : Logs logging work (v.Fills known places before nodes))
    (there : ∀ x, Logs (next' x) (next x) (v.Fills known more (nodes x) whole)) :
    Logs (logging >>= next') (work >>= next) (v.Fills known (places ++ more) before whole) := by
  refine here.bind there ?_ ?_
  · rintro made halt ⟨results, walk, same⟩
    cases results with
    | ok => cases same
    | error =>
        cases same
        exact ⟨_, walk.append_halted more, rfl⟩
  · rintro made x further answer ⟨results, walk, same⟩ ⟨others, later, alike⟩
    cases results with
    | error => cases same
    | ok xs =>
        refine ⟨_, walk.append later, alike.trans ?_⟩
        have together : nodes x = before ++ xs := Except.ok.inj same
        cases others <;> simp [Except.map, together]

theorem fills_map (here : Logs logging work (v.Fills known places before nodes)) (f : α → β)
    (same : ∀ x, whole (f x) = nodes x) :
    Logs (do return f (← logging)) (do return f (← work)) (v.Fills known places before whole) := by
  rw [← List.append_nil places]
  exact fills_bind here fun x => fills_pure (same x)

theorem fills_one {scope : Scope} {node : Node} {wrap : α → Node}
    (visit : Logs logging work fun made answer => v.IsVisit known scope node made (answer.map wrap))
    (before : List Node) :
    Logs logging work (v.Fills known [(scope, node)] before fun x => before ++ [wrap x]) := by
  refine visit.mono fun made answer visited => ?_
  cases answer with
  | error halt => exact ⟨_, .halted visited, rfl⟩
  | ok x =>
      refine ⟨.ok [wrap x], ?_, rfl⟩
      rw [← List.append_nil made]
      exact .cons visited .nil

theorem fills_mapM {visit' : α → Course (σ × Log σ) β} {visit : α → Course σ β}
    {scope : Scope} {node : α → Node} {wrap : β → Node}
    (each : ∀ x, Logs (visit' x) (visit x) fun made answer =>
      v.IsVisit known scope (node x) made (answer.map wrap)) (items : List α)
    (before : List Node) : Logs (items.mapM visit') (items.mapM visit)
      (v.Fills known ((items.map node).map (scope, ·)) before fun ys => before ++ ys.map wrap) := by
  induction items generalizing before with
  | nil => exact fills_pure (by simp)
  | cons x rest ih =>
      rw [List.mapM_cons, List.mapM_cons]
      refine fills_bind (fills_one (each x) before) fun y => ?_
      exact fills_map (ih _) (y :: ·) fun ys => by simp

/-- What is visited right inside a node is set into it. -/
theorem logs_inside {scope : Scope} {node : Node} {wrap : α → Node}
    (walked : Logs logging work
      (v.Fills known (placed scope node) [] fun x => (wrap x).children))
    (kept : Leaves work fun x => (wrap x).shell = node.shell) :
    Logs logging work fun made answer => v.IsInside known scope node made (answer.map wrap) := by
  refine (walked.and_leaves kept).mono ?_
  rintro made answer ⟨⟨results, walk, same⟩, shell⟩
  cases answer with
  | error halt =>
      cases results with
      | ok => cases same
      | error =>
          cases same
          exact .halted walk
  | ok x =>
      cases results with
      | error => cases same
      | ok xs =>
          have filled : (wrap x).children = xs := Except.ok.inj same
          exact .filled (filled ▸ walk) (shell x rfl)

end Fills

/-! ## Phases -/

section Phases

variable {kind : NodeKind} {wrap : α → Node} {as' : Node → Work PluginError (σ × Log σ) α}
  {as : Node → Work PluginError σ α} (reads' : Reads kind wrap as') (reads : Reads kind wrap as)
  {scope : Scope}

include reads' reads

/-- A node of the kind is taken for what it is. -/
theorem Reads.logs (node : Node) : Logs (as' node) (as node) fun made answer =>
    made = [] ∧ (node.kind = kind → answer.map wrap = .ok node) := by
  by_cases same : node.kind = kind
  · obtain ⟨x, rfl⟩ := reads.exists_wrap node same
    rw [reads'.of_wrap, reads.of_wrap]
    exact logs_pure ⟨rfl, fun _ => rfl⟩
  · rw [reads'.of_other node same, reads.of_other node same]
    exact logs_throw ⟨rfl, fun other => absurd other same⟩

theorem Reads.logs_phase (category : NodeCategory) (phase : Phase) (node : Node)
    (of_kind : node.kind = kind) :
    Logs (v.logged.runPhase category phase scope node >>= as')
      (v.runPhase category phase scope node >>= as) fun made answer =>
        v.IsPhase category phase scope node made (answer.map wrap) := by
  refine (logs_runPhase v category phase scope node).bind (reads'.logs reads)
    (fun made e ran => ran) ?_
  rintro made left more answer ran ⟨rfl, same⟩
  rw [List.append_nil, same (ran.kind_eq.trans of_kind)]
  exact ran

theorem Reads.logs_step (category : NodeCategory) (phase : Phase) (node : Node)
    (of_kind : node.kind = kind) :
    Logs (v.logged.step as' category phase scope node) (v.step as category phase scope node)
      fun made answer => ∃ result, v.IsPhase category phase scope node made result ∧
        answer.map wrap = result.mapError .failed := by
  refine (reads'.logs_phase reads category phase node of_kind).inCourse.mono ?_
  rintro made answer ⟨result, ran, rfl⟩
  refine ⟨_, ran, ?_⟩
  cases result <;> rfl

/-- A node is visited between its two phases. -/
theorem Reads.logs_visit {x : α} {told : Scope}
    (telling : told = scope.telling (wrap x) (v.annotationsOf (wrap x))) {category : NodeCategory}
    (of : (wrap x).category? = some category) {inside' : α → Course (σ × Log σ) α}
    {inside : α → Course σ α} (within : ∀ y, Logs (inside' y) (inside y) fun made answer =>
      v.IsInside v.atFirst told (wrap y) made (answer.map wrap)) :
    Logs
      (v.logged.step as' category .before told (wrap x) >>= fun y => inside' y >>= fun z =>
        v.logged.step as' category .after told (wrap z))
      (v.step as category .before told (wrap x) >>= fun y => inside y >>= fun z =>
        v.step as category .after told (wrap z))
      fun made answer => v.IsVisit v.atFirst scope (wrap x) made (answer.map wrap) := by
  subst telling
  let told := scope.telling (wrap x) (v.annotationsOf (wrap x))
  -- what follows the phase before completes any visit that the phase begins
  have rest (y : α) : Logs (inside' y >>= fun z => v.logged.step as' category .after told (wrap z))
      (inside y >>= fun z => v.step as category .after told (wrap z))
      fun made answer => ∀ first, v.IsPhase category .before told (wrap x) first (.ok (wrap y)) →
        v.IsVisit v.atFirst scope (wrap x) (first ++ made) (answer.map wrap) := by
    refine (within y).bind
      (fun z => reads'.logs_step reads category .after (wrap z) (reads.kind_wrap z)) ?_ ?_
    · exact fun made halt inside first before => .halted of before inside
    · rintro inner z last answer inside ⟨result, after, same⟩ first before
      rw [same]
      exact .visited of before inside after
  refine (reads'.logs_step reads category .before (wrap x) (reads.kind_wrap x)).bind rest ?_ ?_
  · rintro made halt ⟨result, before, same⟩
    cases result with
    | ok => cases same
    | error e =>
        cases same
        exact .failed of before
  · rintro first y more answer ⟨result, before, same⟩ later
    cases result with
    | error => cases same
    | ok left =>
        cases same
        exact later first before

end Phases

theorem logs_bare {scope : Scope} {node : Node} {wrap : α → Node}
    {logging : Course (σ × Log σ) α} {work : Course σ α} (bare : node.category? = none)
    (inside : Logs logging work fun made answer =>
      v.IsInside known scope node made (answer.map wrap)) :
    Logs logging work fun made answer => v.IsVisit known scope node made (answer.map wrap) :=
  inside.mono fun _ _ => .bare bare

/-! ## Visits -/

theorem leaves_insideExpr (visit : Expr → Course σ Expr) (e : Expr) :
    Leaves (insideExpr visit e) fun left => (Node.expression left).shell = (Node.expression e).shell := by
  cases e with
  | ident | literal => exact leaves_pure rfl
  | call => exact leaves_bind fun _ => leaves_map fun _ => rfl
  | member | array => exact leaves_map fun _ => rfl
  | object fields =>
      have keys : Leaves (fields.mapM fun field => do return (field.1, ← visit field.2))
          fun others => others.map Prod.fst = fields.map Prod.fst := by
        induction fields with
        | nil => exact leaves_pure rfl
        | cons field rest ih =>
            rw [List.mapM_cons]
            have first : Leaves (do return (field.1, ← visit field.2)) fun other => other.1 = field.1 :=
              leaves_map fun _ => rfl
            refine first.bind fun other same => ih.bind fun others alike => leaves_pure ?_
            rw [List.map_cons, List.map_cons, same, alike]
      refine keys.bind fun others same => leaves_pure ?_
      have emptied := congrArg (List.map fun key => (key, Expr.literal .undefined)) same
      rw [List.map_map, List.map_map] at emptied
      exact congrArg (fun fields => Node.expression (.object fields)) emptied

theorem logs_insideExpr {scope : Scope} {visit' : Expr → Course (σ × Log σ) Expr}
    {visit : Expr → Course σ Expr} (each : ∀ e, Logs (visit' e) (visit e) fun made answer =>
      v.IsVisit known scope (.expression e) made (answer.map .expression)) (e : Expr) :
    Logs (insideExpr visit' e) (insideExpr visit e) fun made answer =>
      v.IsInside known scope (.expression e) made (answer.map .expression) := by
  refine logs_inside ?_ (leaves_insideExpr visit e)
  cases e with
  | ident | literal => exact fills_pure rfl
  | call callee args =>
      refine fills_bind (fills_one (each callee) []) fun callee => ?_
      exact fills_map (fills_mapM each args _) (Expr.call callee) fun _ => rfl
  | member target property =>
      exact fills_map (fills_one (each target) []) (Expr.member · property) fun _ => rfl
  | object fields =>
      have visited (field : String × Expr) : Logs (do return (field.1, ← visit' field.2))
          (do return (field.1, ← visit field.2)) fun made answer => v.IsVisit known scope
            (.expression field.2) made (answer.map fun other => .expression other.2) := by
        refine (each field.2).map (field.1, ·) fun _ answer visited => ?_
        cases answer <;> exact visited
      exact fills_map (fills_mapM visited fields []) Expr.object fun _ => rfl
  | array items =>
      exact fills_map (fills_mapM each items []) Expr.array fun _ => rfl

theorem logs_expr (v : Visit σ) (scope : Scope) (levels : Nat) (e : Expr) :
    Logs (v.logged.expr scope levels e) (v.expr scope levels e) fun made answer =>
      v.IsVisit v.atFirst scope (.expression e) made (answer.map .expression) := by
  induction levels generalizing e with
  | zero => exact logs_throw (.unfinished ..)
  | succ levels ih =>
      have inside := logs_insideExpr ih e
      cases e with
      | call =>
          exact reads_asExpression.logs_visit reads_asExpression rfl rfl (logs_insideExpr ih)
      | _ => exact logs_bare rfl inside

theorem fills_optionalExpr (v : Visit σ) (scope : Scope) (e : Option Expr) :
    Logs (v.logged.optionalExpr scope e) (v.optionalExpr scope e)
      (v.Fills v.atFirst ((e.toList.map .expression).map (scope, ·)) [] fun left =>
        left.toList.map .expression) := by
  cases e with
  | none => exact fills_pure rfl
  | some e => exact fills_map (fills_one (logs_expr v scope _ e) []) some fun _ => rfl

/-- Between its phases a parameter is taken for nothing, but its kind is known. -/
theorem logs_param (v : Visit σ) (scope : Scope) (p : Param) :
    Logs (v.logged.param scope p) (v.param scope p) fun made answer =>
      v.IsVisit v.atFirst scope (.parameter p) made (answer.map .parameter) := by
  let told := scope.telling (.parameter p) (v.annotationsOf (.parameter p))
  have last (left : Node) : Logs (v.logged.runPhase .parameter .after told left >>= asParameter)
      (v.runPhase .parameter .after told left >>= asParameter) fun made answer =>
        left.kind = .parameter →
          v.IsPhase .parameter .after told left made (answer.map .parameter) := by
    refine (logs_runPhase v .parameter .after told left).bind
      (reads_asParameter.logs reads_asParameter) (fun made e ran _ => ran) ?_
    rintro made here more answer ran ⟨rfl, same⟩ of_kind
    rw [List.append_nil, same (ran.kind_eq.trans of_kind)]
    exact ran
  have phases : Logs
      (v.logged.runPhase .parameter .before told (.parameter p) >>= fun node =>
        v.logged.runPhase .parameter .after told node >>= asParameter)
      (v.runPhase .parameter .before told (.parameter p) >>= fun node =>
        v.runPhase .parameter .after told node >>= asParameter)
      fun made answer => v.IsVisit v.atFirst scope (.parameter p) made
        ((answer.map .parameter).mapError .failed) := by
    refine (logs_runPhase v .parameter .before told (.parameter p)).bind last
      (fun made e before => .failed rfl before) ?_
    rintro first left second answer before after
    have of_kind : left.kind = .parameter := before.kind_eq
    obtain ⟨q, rfl⟩ := (reads_asParameter (σ := σ)).exists_wrap left of_kind
    have last : v.IsPhase .parameter .after
        (scope.telling (.parameter p) (v.atFirst (.parameter p) (.parameter q))) _ _ _ := after rfl
    exact .visited rfl before (.filled .nil rfl) last
  refine phases.inCourse.mono ?_
  rintro made answer ⟨result, visited, rfl⟩
  cases result <;> exact visited

section Bodies

variable {body' : Scope → List Statement → Course (σ × Log σ) (List Statement)}
  {body : Scope → List Statement → Course σ (List Statement)}

theorem leaves_insideMember (scope : Scope) (m : ClassMember) : Leaves (v.insideMember body scope m)
    fun left => (Node.member left).shell = (Node.member m).shell := by
  cases m with
  | constructorDecl | method | setter => exact leaves_bind fun _ => leaves_map fun _ => rfl
  | property | getter => exact leaves_map fun _ => rfl

theorem leaves_insideStatement (scope : Scope) (s : Statement) :
    Leaves (v.insideStatement body scope s)
      fun left => (Node.statement left).shell = (Node.statement s).shell := by
  cases s with
  | classDecl | variableDecl | expression | returned => exact leaves_map fun _ => rfl
  | functionDecl => exact leaves_bind fun _ => leaves_map fun _ => rfl
  | _ => exact leaves_pure rfl

variable (bodies : ∀ scope statements before, Logs (body' scope statements) (body scope statements)
  (v.Fills v.atFirst ((statements.map .statement).map (scope, ·)) before fun left =>
    before ++ left.map .statement))

include bodies

/-- Parameters are visited and then the body. -/
theorem fills_declared (scope : Scope) (params : List Param) (statements : List Statement)
    (wrap : List Param → List Statement → β) (nodes : β → List Node)
    (same : ∀ params statements,
      nodes (wrap params statements) =
        params.map Node.parameter ++ statements.map Node.statement) :
    Logs (do return wrap (← params.mapM (v.logged.param scope)) (← body' scope statements))
      (do return wrap (← params.mapM (v.param scope)) (← body scope statements))
      (v.Fills v.atFirst
        ((params.map Node.parameter ++ statements.map Node.statement).map (scope, ·)) [] nodes) := by
  rw [List.map_append]
  refine fills_bind (fills_mapM (logs_param v scope) params []) fun params => ?_
  exact fills_map (bodies scope statements _) (wrap params) fun statements => by simp [same]

theorem logs_insideMember (scope : Scope) (m : ClassMember) :
    Logs (v.logged.insideMember body' { scope with annotations := [] } m)
      (v.insideMember body { scope with annotations := [] } m) fun made answer =>
        v.IsInside v.atFirst scope (.member m) made (answer.map .member) := by
  refine logs_inside ?_ (leaves_insideMember _ m)
  cases m with
  | constructorDecl params inner =>
      exact fills_declared bodies _ params inner ClassMember.constructorDecl
        (fun m => (Node.member m).children) fun _ _ => rfl
  | method head inner =>
      exact fills_declared bodies _ head.params inner
        (fun params => ClassMember.method { head with params })
        (fun m => (Node.member m).children) fun _ _ => rfl
  | setter head inner =>
      exact fills_declared bodies _ head.params inner
        (fun params => ClassMember.setter { head with params })
        (fun m => (Node.member m).children) fun _ _ => rfl
  | property decl =>
      exact fills_map (fills_optionalExpr v _ decl.init)
        (fun init => ClassMember.property { decl with init }) fun _ => rfl
  | getter head inner => exact fills_map (bodies _ inner []) (ClassMember.getter head) fun _ => rfl

theorem logs_member (scope : Scope) (m : ClassMember) :
    Logs (v.logged.member body' scope m) (v.member body scope m) fun made answer =>
      v.IsVisit v.atFirst scope (.member m) made (answer.map .member) :=
  reads_asMember.logs_visit reads_asMember rfl rfl (logs_insideMember bodies _)

theorem logs_insideStatement (scope : Scope) (s : Statement) :
    Logs (v.logged.insideStatement body' scope s) (v.insideStatement body scope s)
      fun made answer => v.IsInside v.atFirst scope (.statement s) made (answer.map .statement) := by
  refine logs_inside ?_ (leaves_insideStatement _ s)
  cases s with
  | classDecl head members =>
      exact fills_map (fills_mapM (logs_member bodies _) members []) (Statement.classDecl head)
        fun _ => rfl
  | functionDecl head inner =>
      exact fills_declared bodies _ head.params inner
        (fun params => Statement.functionDecl { head with params })
        (fun s => (Node.statement s).children) fun _ _ => rfl
  | variableDecl decl =>
      exact fills_map (fills_optionalExpr v scope decl.init)
        (fun init => Statement.variableDecl { decl with init }) fun _ => rfl
  | expression value =>
      exact fills_map (fills_one (logs_expr v scope _ value) []) Statement.expression fun _ => rfl
  | returned value =>
      exact fills_map (fills_optionalExpr v scope value) Statement.returned fun _ => rfl
  | importDecl | interfaceDecl | aliasDecl => exact fills_pure rfl

end Bodies

theorem logs_statement (v : Visit σ) (levels : Nat) (scope : Scope) (s : Statement) :
    Logs (v.logged.statement levels scope s) (v.statement levels scope s) fun made answer =>
      v.IsVisit v.atFirst scope (.statement s) made (answer.map .statement) := by
  induction levels generalizing scope s with
  | zero => exact logs_throw (.unfinished ..)
  | succ levels ih =>
      have bodies (scope : Scope) (statements : List Statement) (before : List Node) :=
        fills_mapM (ih scope) statements before
      rw [statement, statement]
      split
      · rename_i bare
        exact logs_bare bare (logs_insideStatement bodies scope s)
      · rename_i category of
        have telling : { scope with annotations := v.statementAnnotations s } =
            scope.telling (.statement s) (v.annotationsOf (.statement s)) := by
          rw [annotationsOf_statement]
          rfl
        exact reads_asStatement.logs_visit reads_asStatement telling of
          (logs_insideStatement bodies _)

theorem fills_topLevel (v : Visit σ) (index : Nat) (statements : List Statement)
    (before : List Node) :
    Logs (v.logged.topLevel index statements) (v.topLevel index statements)
      (v.Fills v.atFirst ((statements.zipIdx index).map fun entry =>
        ({ index := some entry.2 }, .statement entry.1)) before fun left =>
          before ++ left.map .statement) := by
  induction statements generalizing index before with
  | nil => exact fills_pure (by simp)
  | cons s rest ih =>
      have first := logs_statement v (s.depth + v.levels) { index := some index } s
      refine fills_bind (fills_one first before) fun s => ?_
      exact fills_map (ih (index + 1) _) (s :: ·) fun _ => by simp

/-- The visit of a unit, with what is inside set into it on its own. -/
theorem unit_eq (v : Visit σ) (u : SourceUnit) : v.unit u =
    v.step asUnit .file .before {} (.unit u) >>= fun u =>
      (do return { u with statements := ← v.topLevel 0 u.statements }) >>= fun u =>
        v.step asUnit .file .after {} (.unit u) := by
  simp [unit]

theorem logs_unit (v : Visit σ) (u : SourceUnit) :
    Logs (v.logged.unit u) (v.unit u) fun made answer =>
      v.IsVisit v.atFirst {} (.unit u) made (answer.map .unit) := by
  rw [unit_eq, unit_eq]
  refine reads_asUnit.logs_visit reads_asUnit rfl rfl fun u => ?_
  have walked : Logs (do return { u with statements := ← v.logged.topLevel 0 u.statements })
      (do return { u with statements := ← v.topLevel 0 u.statements })
      (v.Fills v.atFirst (placed {} (.unit u)) [] fun u => (Node.unit u).children) :=
    fills_map (fills_topLevel v 0 u.statements []) (fun statements => { u with statements })
      fun _ => rfl
  exact logs_inside walked (leaves_map fun _ => rfl)

/-- The nodes that are queued, with the scope in which they are visited. -/
def queuedNodes (queued : List (InsertAt × Statement)) : List (Scope × Node) :=
  queued.map fun entry => ({}, .statement entry.2)

theorem fills_batch (v : Visit σ) (queued : List (InsertAt × Statement)) (before : List Node) :
    Logs (v.logged.batch queued) (v.batch queued)
      (v.Fills v.atFirst (queuedNodes queued) before fun left =>
        before ++ left.map fun entry => .statement entry.2) := by
  induction queued generalizing before with
  | nil => exact fills_pure (by simp)
  | cons entry rest ih =>
      refine fills_bind (fills_one (logs_statement v _ {} entry.2) before) fun s => ?_
      exact fills_map (ih _) ((entry.1, s) :: ·) fun _ => by simp

theorem logs_batch (v : Visit σ) (queued : List (InsertAt × Statement)) :
    Logs (v.logged.batch queued) (v.batch queued) fun made answer =>
      v.IsWalk v.atFirst (queuedNodes queued) made
        (answer.map (List.map fun entry => .statement entry.2)) := by
  refine (fills_batch v queued []).mono ?_
  rintro made answer ⟨results, walk, same⟩
  have alike : answer.map (List.map fun entry => Node.statement entry.2) = results := by
    cases answer <;> cases results <;> exact same
  exact alike ▸ walk

end Visit

/-! ## Transforms -/

/-- The applications in a drain of so many rounds, and what it answers. -/
inductive IsDrain (v : Visit σ) (known : Node → Node → List AnnotationUse) :
    Nat → SourceUnit → Workbench σ → Log σ → Except (Halt TransformError) SourceUnit → Prop
  | settled {n : Nat} {u : SourceUnit} {bench : Workbench σ} (empty : bench.queue = []) :
      IsDrain v known n u bench [] (.ok u)
  | limit {u : SourceUnit} {bench : Workbench σ} (filled : bench.queue ≠ []) :
      IsDrain v known 0 u bench [] (.error (.failed (.drainLimit v.path maxRounds)))
  | halted {n : Nat} {u : SourceUnit} {bench : Workbench σ} {made : Log σ} {halt : Halt PluginError}
      (filled : bench.queue ≠ [])
      (walk : v.IsWalk known (Visit.queuedNodes bench.queue) made (.error halt)) :
      IsDrain v known (n + 1) u bench made (.error (halt.map (.plugin v.path)))
  | round {n : Nat} {u : SourceUnit} {bench after : Workbench σ}
      {visited : List (InsertAt × Statement)} {first second : Log σ}
      {answer : Except (Halt TransformError) SourceUnit} (filled : bench.queue ≠ [])
      (ran : (v.batch bench.queue).run { bench with queue := [] } = (.ok visited, after))
      (walk : v.IsWalk known (Visit.queuedNodes bench.queue) first
        (.ok (visited.map fun entry => .statement entry.2)))
      (later : IsDrain v known n { u with statements := splice u.statements visited } after second
        answer) : IsDrain v known (n + 1) u bench (first ++ second) answer

/-- The applications in the transform of a unit, and what it answers: the visit of the unit, and then
visits of what is queued. -/
inductive IsTransform (d : Dispatcher σ) (known : Node → Node → List AnnotationUse)
    (u : SourceUnit) (notes : σ) : Log σ → Except (Halt TransformError) SourceUnit → Prop
  | passed {result : SourceUnit} (through : isPassthrough d.references u.path = true) :
      IsTransform d known u notes [] (.ok result)
  | halted {made : Log σ} {halt : Halt PluginError}
      (visit : (d.visitOf u).IsVisit known {} (.unit u) made (.error halt)) :
      IsTransform d known u notes made (.error (halt.map (.plugin u.path)))
  | drained {visited : SourceUnit} {bench : Workbench σ} {first second : Log σ}
      {drained answer : Except (Halt TransformError) SourceUnit}
      (ran : ((d.visitOf u).unit u).run { notes } = (.ok visited, bench))
      (visit : (d.visitOf u).IsVisit known {} (.unit u) first (.ok (.unit visited)))
      (drain : IsDrain (d.visitOf u) known maxRounds visited bench second drained)
      (settled : answer = drained ∨ ∃ before after, drained = .ok before ∧ answer = .ok after) :
      IsTransform d known u notes (first ++ second) answer

/-- The drain with plugins that note what they are applied to. -/
theorem drain_logged (v : Visit σ) (rounds : Nat) (u : SourceUnit) (bench : Workbench σ)
    (log : Log σ) : ∃ made, drain v.logged rounds u (bench.withLog log) =
        ((drain v rounds u bench).1, (drain v rounds u bench).2.withLog (log ++ made)) ∧
      IsDrain v v.atFirst rounds u bench made (drain v rounds u bench).1 := by
  have idle (rounds : Nat) (u : SourceUnit) (bench : Workbench σ) (log : Log σ)
      (empty : bench.queue = []) : drain v.logged rounds u (bench.withLog log) =
        ((drain v rounds u bench).1, (drain v rounds u bench).2.withLog (log ++ [])) := by
    have alike : drain v.logged rounds u (bench.withLog log) = (.ok u, bench.withLog log) :=
      drain_of_empty rounds u empty
    rw [alike, drain_of_empty rounds u empty, List.append_nil]
  induction rounds generalizing u bench log with
  | zero =>
      by_cases empty : bench.queue = []
      · exact ⟨[], idle 0 u bench log empty, drain_of_empty 0 u empty ▸ .settled empty⟩
      · have stopped : drain v 0 u bench =
            (.error (.failed (.drainLimit v.path maxRounds)), bench) := by
          rw [drain, if_neg (by simpa using empty)]
        refine ⟨[], ?_, stopped ▸ .limit empty⟩
        rw [stopped, drain, if_neg (by simpa [Workbench.withLog] using empty), List.append_nil]
        rfl
  | succ rounds ih =>
      by_cases empty : bench.queue = []
      · exact ⟨[], idle _ u bench log empty, drain_of_empty _ u empty ▸ .settled empty⟩
      have filled : (bench.withLog log).queue ≠ [] := empty
      obtain ⟨made, same, walk⟩ :=
        (v.logs_batch bench.queue).related { bench with queue := [] } log
      have round : (v.logged.batch (bench.withLog log).queue).run
          { bench.withLog log with queue := [] } = _ := same
      rw [drain_succ rounds u filled, drain_succ rounds u empty, round]
      cases ran : (v.batch bench.queue).run { bench with queue := [] } with
      | mk answer after =>
          rw [ran] at walk
          cases answer with
          | error halt => exact ⟨made, rfl, .halted empty walk⟩
          | ok visited =>
              obtain ⟨more, later, further⟩ :=
                ih { u with statements := splice u.statements visited } after (log ++ made)
              refine ⟨made ++ more, ?_, ?_⟩
              · rw [← List.append_assoc]
                exact later
              · exact .round empty ran walk further

theorem transform_logged (d : Dispatcher σ) (u : SourceUnit) (notes : σ) : ∃ log,
    d.logged.transform u (notes, []) = ((d.transform u notes).1, (d.transform u notes).2, log) ∧
      IsTransform d (d.visitOf u).atFirst u notes log (d.transform u notes).1 := by
  cases seen : isPassthrough d.references u.path with
  | true =>
      have alsoSeen : isPassthrough d.logged.references u.path = true := seen
      rw [transform, transform, if_pos seen, if_pos alsoSeen]
      exact ⟨[], rfl, .passed seen⟩
  | false =>
      obtain ⟨made, same, visit⟩ := ((d.visitOf u).logs_unit u).related { notes } []
      have unit : ((d.logged.visitOf u).unit u).run { notes := (notes, []) } = _ := same
      rw [transform_of_seen d u notes seen, transform_of_seen d.logged u (notes, []) seen, unit]
      cases ran : ((d.visitOf u).unit u).run { notes } with
      | mk answer after =>
          rw [ran] at visit
          cases answer with
          | error halt => exact ⟨made, rfl, .halted visit⟩
          | ok visited =>
              obtain ⟨more, later, further⟩ := drain_logged (d.visitOf u) maxRounds visited after made
              have drained : drain (d.logged.visitOf u) maxRounds visited (after.withLog made) = _ :=
                later
              dsimp only
              rw [List.nil_append, drained]
              cases rounds : drain (d.visitOf u) maxRounds visited after with
              | mk result last =>
                  rw [rounds] at further
                  cases result with
                  | error halt => exact ⟨made ++ more, rfl, .drained ran visit further (.inl rfl)⟩
                  | ok drained =>
                      exact ⟨made ++ more, rfl,
                        .drained ran visit further (.inr ⟨drained, _, rfl, rfl⟩)⟩

end WorkspaceBuild.Dispatcher
