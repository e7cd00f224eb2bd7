import WorkspaceBuild.Proofs.Dispatch.Levels
import WorkspaceBuild.Proofs.Dispatch.Splice
import WorkspaceBuild.Proofs.Results
import WorkspaceBuild.Registrations

/-! # Units under the built-in plugins

The built-in plugins leave every node as it is. What they queue for a top-level statement is read
off it in one pass, and ends up right behind it.
-/

namespace WorkspaceBuild.Registrations

open Dispatcher (Visit)

variable {σ α β : Type}

/-- What the registry is told of a node: a field with its type, or a class. -/
inductive Registration where
  | field (owner : String) (decl : PropertyDecl) (type : TypeId)
  | identity (head : ClassHead) (members : List ClassMember)

/-- The registration of a property among the members of a class: it is annotated and its type is
known. -/
def ofProperty (isAnnotated : List Decorator → Bool) (owner : String) (decl : PropertyDecl) :
    List Registration :=
  match isAnnotated decl.decorators, decl.type.bind WrittenType.id with
  | true, some id => [.field owner decl id]
  | _, _ => []

mutual

/-- The registrations in a statement: a class comes after everything among its members. -/
def ofStatement (isAnnotated : List Decorator → Bool) : Statement → List Registration
  | .classDecl head members => ofMembers isAnnotated head.name members ++ [.identity head members]
  | .functionDecl _ body => ofBody isAnnotated body
  | _ => []

def ofBody (isAnnotated : List Decorator → Bool) : List Statement → List Registration
  | [] => []
  | s :: rest => ofStatement isAnnotated s ++ ofBody isAnnotated rest

def ofMember (isAnnotated : List Decorator → Bool) (owner : String) :
    ClassMember → List Registration
  | .constructorDecl _ body => ofBody isAnnotated body
  | .method _ body => ofBody isAnnotated body
  | .property decl => ofProperty isAnnotated owner decl
  | .getter _ body => ofBody isAnnotated body
  | .setter _ body => ofBody isAnnotated body

def ofMembers (isAnnotated : List Decorator → Bool) (owner : String) :
    List ClassMember → List Registration
  | [] => []
  | m :: rest => ofMember isAnnotated owner m ++ ofMembers isAnnotated owner rest

end

/-- The call that makes a registration: `__loom.describeField(Class, "field", <type>)`, or
`__loom.registerClass(Class, "<unit id>:Class", [<methods>])`. -/
def Registration.call (unitId : String) (types : TypeResolver.Scope) :
    Registration → Except ResolveError Statement
  | .field owner decl id =>
      (TypeResolver.resolve types id).map fun type =>
        .expression (.call (.member (.ident "__loom") "describeField")
          [.ident owner, .literal (.string decl.name), .ofJson type.toJson.settled])
  | .identity head members =>
      let methods := members.filterMap fun
        | .method method _ => some (Expr.literal (.string method.name))
        | _ => none
      .ok (.expression (.call (.member (.ident "__loom") "registerClass")
        [.ident head.name, .literal (.string (unitId ++ ":" ++ head.name)), .array methods]))

theorem call_field (unitId : String) (types : TypeResolver.Scope) (owner : String)
    (decl : PropertyDecl) (id : TypeId) :
    Registration.call unitId types (.field owner decl id) =
      (TypeResolver.resolve types id).map fun type =>
        runtimeCall "describeField" (fieldArgs owner decl type) := rfl

theorem call_identity (unitId : String) (types : TypeResolver.Scope) (head : ClassHead)
    (members : List ClassMember) :
    Registration.call unitId types (.identity head members) =
      .ok (runtimeCall "registerClass" (classArgs unitId head members)) := by
  rw [classArgs, ClassMember.methodNames, List.map_filterMap]
  refine congrArg (fun methods => Except.ok (runtimeCall "registerClass"
    [.ident head.name, .literal (.string (unitId ++ ":" ++ head.name)), .array methods])) ?_
  refine List.filterMap_congr fun m _ => ?_
  cases m <;> rfl

/-- The import of the registry under the name that calls use. -/
def registryImport : ImportBinding := ⟨"registry", "__loom"⟩

/-- The place right behind the top-level statement of the index, or the end of the unit. -/
def place : Option Nat → InsertAt
  | some index => .before (index + 1)
  | none => .finish

/-- Ask for the registry and queue a call of it behind the top-level statement of the index, unless
its type cannot be resolved. -/
def queue (v : Visit σ) (index : Option Nat) (r : Registration) : Course σ Unit :=
  match r.call (v.unitId?.getD v.path.text) ⟨v.semantic.types, v.references⟩ with
  | .ok call => do
      Work.requireImport "@loom/runtime" registryImport
      Work.insert (place index) call
  | .error error => throw (.failed (.resolve error))

/-- Work that comes to a value, queues registrations on the way, and does nothing else. -/
def Queues (v : Visit σ) (index : Option Nat) (work : Course σ α)
    (registrations : List Registration) (value : α) : Prop :=
  work = do
    forM registrations (queue v index)
    return value

namespace Queues

variable {v : Visit σ} {index : Option Nat}

theorem idle (value : α) : Queues v index (pure value) [] value := by
  simp [Queues]

theorem bind {work : Course σ α} {next : α → Course σ β} {first second : List Registration} {a : α}
    {b : β} (here : Queues v index work first a) (there : Queues v index (next a) second b) :
    Queues v index (work >>= next) (first ++ second) b := by
  unfold Queues at *
  rw [here, List.forM_append]
  simp [there]

theorem idle_bind {work : Course σ α} {next : α → Course σ β} {registrations : List Registration}
    {a : α} {b : β} (here : Queues v index work [] a)
    (there : Queues v index (next a) registrations b) :
    Queues v index (work >>= next) registrations b :=
  here.bind there

theorem bind_idle {work : Course σ α} {next : α → Course σ β} {registrations : List Registration}
    {a : α} {b : β} (here : Queues v index work registrations a)
    (there : Queues v index (next a) [] b) : Queues v index (work >>= next) registrations b := by
  rw [← List.append_nil registrations]
  exact here.bind there

theorem map {work : Course σ α} {registrations : List Registration} {a : α}
    (here : Queues v index work registrations a) (f : α → β) :
    Queues v index (do let a ← work; return f a) registrations (f a) :=
  here.bind_idle (idle (f a))

theorem mapM {visit : α → Course σ α} {registrations : α → List Registration} {items : List α}
    (each : ∀ item ∈ items, Queues v index (visit item) (registrations item) item) :
    Queues v index (items.mapM visit) (items.flatMap registrations) items := by
  induction items with
  | nil => exact idle []
  | cons item rest ih =>
      have behind := ih fun other listed => each other (List.mem_cons_of_mem _ listed)
      rw [List.mapM_cons, List.flatMap_cons]
      exact (each item List.mem_cons_self).bind (behind.map _)

theorem mapM_idle {visit : α → Course σ α} {items : List α}
    (each : ∀ item ∈ items, Queues v index (visit item) [] item) :
    Queues v index (items.mapM visit) [] items := by
  have whole := mapM each
  rwa [List.flatMap_eq_nil_iff.mpr fun _ _ => rfl] at whole

end Queues

/-! ## Phases -/

section Phases

variable {v : Visit σ} {scope : Dispatcher.Scope} {category : NodeCategory} {phase : Phase}
  {node : Node}

theorem pluginsFor_builtin (category : NodeCategory) (phase : Phase) :
    (builtin : Registry σ).pluginsFor category phase =
      match category, phase with
      | .classDecl, .after => [⟨"class identity", .classDecl, .after, [], registerClass⟩]
      | .property, .after => [⟨"shape metadata", .property, .after, [], describeField⟩]
      | _, _ => [] := by
  cases category <;> cases phase <;> rfl

theorem pluginsFor_builtin_eq_nil (notClass : category ≠ .classDecl)
    (notProperty : category ≠ .property) : (builtin : Registry σ).pluginsFor category phase = [] := by
  rw [pluginsFor_builtin]
  split
  · exact absurd rfl notClass
  · exact absurd rfl notProperty
  · rfl

theorem runPhase_of_idle (idle : v.registry.pluginsFor category phase = []) :
    v.runPhase category phase scope node = pure node := by
  simp [Visit.runPhase, idle]

section Steps

open Work

variable {index : Option Nat} {kind : NodeKind} {wrap : α → Node}
  {as : Node → Work PluginError σ α} (reads : Visit.Reads kind wrap as)

include reads

theorem step_of_idle (idle : v.registry.pluginsFor category phase = []) (x : α) :
    v.step as category phase scope (wrap x) = pure x := by
  rw [Visit.step, runPhase_of_idle idle, pure_bind, reads.of_wrap, inCourse_pure]

/-- A step that goes on with the node it got queues what its phase does. -/
theorem queues_step {registrations : List Registration} {x : α}
    (ran : Queues v index (v.runPhase category phase scope (wrap x)).inCourse registrations (wrap x)) :
    Queues v index (v.step as category phase scope (wrap x)) registrations x := by
  rw [Visit.step, inCourse_bind]
  refine ran.bind_idle ?_
  rw [reads.of_wrap]
  exact .idle x

/-- Without plugins for a node, only what is inside it queues anything. -/
theorem queues_between (idle : ∀ phase, v.registry.pluginsFor category phase = [])
    {registrations : List Registration} {x : α} {inside : α → Course σ α}
    (within : Queues v index (inside x) registrations x) :
    Queues v index
      (v.step as category .before scope (wrap x) >>= fun y => inside y >>= fun z =>
        v.step as category .after scope (wrap z)) registrations x := by
  rw [step_of_idle reads (idle _), pure_bind]
  refine within.bind_idle ?_
  rw [step_of_idle reads (idle _)]
  exact .idle x

end Steps

/-- A phase with one plugin, which runs on every node and hands back the one it got. -/
theorem queues_runPhase {plugin : Plugin σ} {registrations : List Registration}
    (only : v.registry.pluginsFor category phase = [plugin]) (always : plugin.isUnconditional)
    (queues : Queues v scope.index (plugin.transform (v.context scope) node).inCourse registrations
      node) :
    Queues v scope.index (v.runPhase category phase scope node).inCourse registrations node := by
  have applied : v.runPhase category phase scope node =
      Visit.apply (v.context scope) node plugin := by
    simp [Visit.runPhase, only, always]
  rw [applied, Visit.apply, Work.inCourse_bind]
  refine queues.bind_idle ?_
  rw [if_pos rfl]
  exact .idle node

theorem queues_queueCall {r : Registration} {function : String} {args : List Expr}
    (call : r.call (v.unitId?.getD v.path.text) ⟨v.semantic.types, v.references⟩ =
      .ok (runtimeCall function args)) :
    Queues v scope.index (do queueCall (v.context scope) function args; return node).inCourse [r]
      node := by
  have queued : queue v scope.index r = (queueCall (v.context scope) function args).inCourse := by
    simp only [queue, call]
    rfl
  rw [Queues, Work.inCourse_bind, ← queued]
  simp

theorem queues_registerClass (head : ClassHead) (members : List ClassMember) :
    Queues v scope.index
      (registerClass (v.context scope) (.statement (.classDecl head members))).inCourse
      [.identity head members] (.statement (.classDecl head members)) :=
  queues_queueCall (call_identity ..)

/-- Whether any decorator stands for an annotation. -/
def isAnnotated (semantic : SemanticModel) (path : Path) (decorators : List Decorator) : Bool :=
  !(semantic.annotations path decorators).isEmpty

theorem queues_describeField {owner : String} {decl : PropertyDecl}
    (owned : scope.owner = some owner)
    (annotations : scope.annotations = v.annotations decl.decorators) :
    Queues v scope.index (describeField (v.context scope) (.member (.property decl))).inCourse
      (ofProperty (isAnnotated v.semantic v.path) owner decl) (.member (.property decl)) := by
  have annotated : isAnnotated v.semantic v.path decl.decorators = !scope.annotations.isEmpty := by
    rw [annotations]
    rfl
  cases found : scope.annotations with
  | nil =>
      simpa [ofProperty, annotated, found, describeField, Visit.context] using Queues.idle _
  | cons first rest =>
      cases known : decl.type.bind WrittenType.id with
      | none => simpa [ofProperty, known, describeField] using Queues.idle _
      | some id =>
          simp only [ofProperty, known, annotated, found, describeField, Visit.context, owned,
            PluginContext.resolveType, List.isEmpty_cons, Bool.not_false]
          cases resolved : TypeResolver.resolve ⟨v.semantic.types, v.references⟩ id with
          | ok type =>
              refine queues_queueCall ?_
              rw [call_field, resolved]
              rfl
          | error error =>
              have failed : queue v scope.index (.field owner decl id) =
                  throw (.failed (.resolve error)) := by
                simp [queue, Registration.call, resolved, Except.map]
              simp [Queues, failed]

end Phases

/-! ## Expressions -/

section Expressions

variable {v : Visit σ} {index : Option Nat} {visit : Expr → Course σ Expr}

theorem queues_insideExpr (e : Expr)
    (each : ∀ inner, inner.depth < e.depth → Queues v index (visit inner) [] inner) :
    Queues v index (Visit.insideExpr visit e) [] e := by
  cases e with
  | ident | literal => exact .idle _
  | call callee args =>
      refine (each callee ?_).bind (Queues.map (.mapM_idle fun arg listed => each arg ?_) _)
      · simp only [Expr.depth]
        omega
      · have := Expr.depth_le_depths listed
        simp only [Expr.depth]
        omega
  | member target property =>
      exact (each target (Nat.lt_succ_self _)).map _
  | object fields =>
      refine Queues.map (.mapM_idle fun field listed => (each field.2 ?_).map _) _
      have := Expr.depth_le_fieldDepths listed
      simp only [Expr.depth]
      omega
  | array items =>
      refine Queues.map (.mapM_idle fun item listed => each item ?_) _
      exact Nat.lt_succ_of_le (Expr.depth_le_depths listed)

variable {scope : Dispatcher.Scope} (registered : v.registry = builtin)

include registered

theorem queues_expr {levels : Nat} {e : Expr} (enough : e.depth ≤ levels) :
    Queues v scope.index (v.expr scope levels e) [] e := by
  induction levels generalizing e with
  | zero => exact absurd e.depth_pos (Nat.not_lt.mpr enough)
  | succ levels ih =>
      have inside : Queues v scope.index (Visit.insideExpr (v.expr scope levels) e) [] e :=
        queues_insideExpr e fun inner smaller => ih (by omega)
      cases e with
      | call callee args =>
          have idle (phase : Phase) : v.registry.pluginsFor .call phase = [] := by
            rw [registered, pluginsFor_builtin]
          exact queues_between Visit.reads_asExpression idle inside
      | _ => exact inside

theorem queues_wholeExpr (e : Expr) : Queues v scope.index (v.wholeExpr scope e) [] e :=
  queues_expr registered (Nat.le_add_right _ _)

theorem queues_optionalExpr (e : Option Expr) :
    Queues v scope.index (v.optionalExpr scope e) [] e := by
  cases e with
  | none => exact .idle _
  | some e => exact (queues_wholeExpr registered e).map _

end Expressions

/-! ## Statements -/

theorem ofBody_eq_flatMap (isAnnotated : List Decorator → Bool) (body : List Statement) :
    ofBody isAnnotated body = body.flatMap (ofStatement isAnnotated) := by
  induction body with
  | nil => rfl
  | cons s rest ih => rw [ofBody, List.flatMap_cons, ih]

theorem ofMembers_eq_flatMap (isAnnotated : List Decorator → Bool) (owner : String)
    (members : List ClassMember) :
    ofMembers isAnnotated owner members = members.flatMap (ofMember isAnnotated owner) := by
  induction members with
  | nil => rfl
  | cons m rest ih => rw [ofMembers, List.flatMap_cons, ih]

/-- Bodies that nest no deeper than so many levels are handed on as they are, and what is in them is
queued. -/
def QueuesBodies (v : Visit σ) (index : Option Nat)
    (body : Dispatcher.Scope → List Statement → Course σ (List Statement)) (levels : Nat) : Prop :=
  ∀ (scope : Dispatcher.Scope) (inner : List Statement), scope.index = index →
    Statement.depths inner ≤ levels →
    Queues v index (body scope inner) (ofBody (isAnnotated v.semantic v.path) inner) inner

theorem ofMember_ne_classDecl (m : ClassMember) : NodeCategory.ofMember m ≠ .classDecl := by
  cases m with
  | method head inner =>
      simp only [NodeCategory.ofMember]
      split <;> simp
  | _ => simp [NodeCategory.ofMember]

theorem QueuesBodies.mono {v : Visit σ} {index : Option Nat} {levels fewer : Nat}
    {body : Dispatcher.Scope → List Statement → Course σ (List Statement)}
    (bodies : QueuesBodies v index body levels) (le : fewer ≤ levels) :
    QueuesBodies v index body fewer :=
  fun scope inner same shallow => bodies scope inner same (Nat.le_trans shallow le)

section Statements

variable {v : Visit σ} {scope : Dispatcher.Scope} {owner : String} {levels : Nat}
  {body : Dispatcher.Scope → List Statement → Course σ (List Statement)}
  (registered : v.registry = builtin)

include registered

theorem queues_param (p : Param) : Queues v scope.index (v.param scope p) [] p := by
  have idle (phase : Phase) : v.registry.pluginsFor .parameter phase = [] := by
    rw [registered, pluginsFor_builtin]
  simpa [Visit.param, runPhase_of_idle (idle _), Visit.asParameter] using Queues.idle p

theorem queues_params (params : List Param) :
    Queues v scope.index (params.mapM (v.param scope)) [] params :=
  .mapM_idle fun p _ => queues_param registered p

theorem queues_insideProperty (scope : Dispatcher.Scope) (decl : PropertyDecl) :
    Queues v scope.index (v.insideMember body scope (.property decl)) [] (.property decl) :=
  (queues_optionalExpr registered decl.init).map _

/-- What is inside another member than a property queues what its body holds. -/
theorem queues_insideMember (scope : Dispatcher.Scope) {m : ClassMember} (notProperty : NodeCategory.ofMember m ≠ .property)
    (bodies : QueuesBodies v scope.index body m.depth) :
    Queues v scope.index (v.insideMember body scope m)
      (ofMember (isAnnotated v.semantic v.path) owner m) m := by
  cases m with
  | property decl => exact absurd rfl notProperty
  | constructorDecl params inner | method head inner | setter head inner =>
      exact (queues_params registered _).bind ((bodies _ inner rfl (Nat.le_refl _)).map _)
  | getter head inner => exact (bodies _ inner rfl (Nat.le_refl _)).map _

theorem queues_property (decl : PropertyDecl) (owned : scope.owner = some owner) :
    Queues v scope.index (v.member body scope (.property decl))
      (ofProperty (isAnnotated v.semantic v.path) owner decl) (.property decl) := by
  have idle : v.registry.pluginsFor .property .before = [] := by
    rw [registered, pluginsFor_builtin]
  have described : Queues v scope.index
      (v.step Visit.asMember .property .after
        { scope with annotations := v.annotations decl.decorators } (.member (.property decl)))
      (ofProperty (isAnnotated v.semantic v.path) owner decl) (.property decl) := by
    refine queues_step Visit.reads_asMember
      (queues_runPhase (by rw [registered, pluginsFor_builtin]) rfl ?_)
    exact queues_describeField owned rfl
  have inside : Queues v scope.index
      (v.insideMember body { scope with annotations := [] } (.property decl)) [] (.property decl) :=
    queues_insideProperty registered { scope with annotations := [] } decl
  simp only [Visit.member, NodeCategory.ofMember, step_of_idle Visit.reads_asMember idle, pure_bind]
  exact inside.idle_bind described

theorem queues_member (scope : Dispatcher.Scope) {m : ClassMember} (owned : scope.owner = some owner)
    (bodies : QueuesBodies v scope.index body m.depth) :
    Queues v scope.index (v.member body scope m) (ofMember (isAnnotated v.semantic v.path) owner m)
      m := by
  by_cases property : NodeCategory.ofMember m = .property
  · cases m with
    | property decl => exact queues_property registered decl owned
    | method head inner =>
        simp only [NodeCategory.ofMember] at property
        split at property <;> cases property
    | _ => cases property
  · have idle (phase : Phase) : v.registry.pluginsFor (NodeCategory.ofMember m) phase = [] := by
      rw [registered]
      exact pluginsFor_builtin_eq_nil (ofMember_ne_classDecl m) property
    have inside : Queues v scope.index (v.insideMember body { scope with annotations := [] } m)
        (ofMember (isAnnotated v.semantic v.path) owner m) m :=
      queues_insideMember registered { scope with annotations := [] } property bodies
    exact queues_between Visit.reads_asMember idle inside

theorem queues_insideClass (scope : Dispatcher.Scope) (head : ClassHead)
    {members : List ClassMember}
    (bodies : QueuesBodies v scope.index body (ClassMember.depths members)) :
    Queues v scope.index (v.insideStatement body scope (.classDecl head members))
      (ofMembers (isAnnotated v.semantic v.path) head.name members) (.classDecl head members) := by
  rw [ofMembers_eq_flatMap]
  refine Queues.map (.mapM fun m listed => ?_) _
  exact queues_member registered { scope with annotations := [], owner := some head.name } rfl
    (bodies.mono (ClassMember.depth_le_depths listed))

/-- What is inside another statement than a class queues all there is of it. -/
theorem queues_insideStatement (scope : Dispatcher.Scope) {s : Statement}
    (notClass : NodeCategory.ofStatement? s ≠ some .classDecl)
    (bodies : QueuesBodies v scope.index body (s.depth - 1)) :
    Queues v scope.index (v.insideStatement body scope s)
      (ofStatement (isAnnotated v.semantic v.path) s) s := by
  cases s with
  | classDecl head members => exact absurd rfl notClass
  | functionDecl head inner =>
      have insideBody : Queues v scope.index (body { scope with annotations := [] } inner)
          (ofBody (isAnnotated v.semantic v.path) inner) inner :=
        bodies _ inner rfl (Nat.le_refl _)
      exact (queues_params registered _).idle_bind (insideBody.map _)
  | variableDecl decl => exact (queues_optionalExpr registered decl.init).map _
  | expression value => exact (queues_wholeExpr registered value).map _
  | returned value => exact (queues_optionalExpr registered value).map _
  | importDecl | interfaceDecl | aliasDecl => exact .idle _

theorem queues_class (head : ClassHead) {members : List ClassMember}
    (bodies : QueuesBodies v scope.index (fun scope => List.mapM (v.statement levels scope))
      (ClassMember.depths members)) :
    Queues v scope.index (v.statement (levels + 1) scope (.classDecl head members))
      (ofStatement (isAnnotated v.semantic v.path) (.classDecl head members))
      (.classDecl head members) := by
  have idle : v.registry.pluginsFor .classDecl .before = [] := by
    rw [registered, pluginsFor_builtin]
  have inside := queues_insideClass registered
    { scope with annotations := v.annotations head.decorators } head bodies
  have identified : Queues v scope.index
      (v.step Visit.asStatement .classDecl .after
        { scope with annotations := v.annotations head.decorators }
        (.statement (.classDecl head members)))
      [.identity head members] (.classDecl head members) := by
    refine queues_step Visit.reads_asStatement
      (queues_runPhase (by rw [registered, pluginsFor_builtin]) rfl ?_)
    exact queues_registerClass head members
  simp only [Visit.statement, NodeCategory.ofStatement?, step_of_idle Visit.reads_asStatement idle,
    pure_bind]
  exact inside.bind identified

theorem queues_otherStatement {s : Statement}
    (notClass : NodeCategory.ofStatement? s ≠ some .classDecl)
    (bodies : QueuesBodies v scope.index (fun scope => List.mapM (v.statement levels scope))
      (s.depth - 1)) :
    Queues v scope.index (v.statement (levels + 1) scope s)
      (ofStatement (isAnnotated v.semantic v.path) s) s := by
  unfold Visit.statement
  split
  · exact queues_insideStatement registered scope notClass bodies
  · rename_i category found
    have idle (phase : Phase) : v.registry.pluginsFor category phase = [] := by
      rw [registered]
      refine pluginsFor_builtin_eq_nil (by rintro rfl; exact notClass found) ?_
      rintro rfl
      cases s <;> cases found
    have inside := queues_insideStatement registered
      { scope with annotations := v.statementAnnotations s } notClass bodies
    exact queues_between Visit.reads_asStatement idle inside

theorem queues_statement {s : Statement} (enough : s.depth ≤ levels) :
    Queues v scope.index (v.statement levels scope s) (ofStatement (isAnnotated v.semantic v.path) s)
      s := by
  induction levels generalizing scope s with
  | zero => exact absurd s.depth_pos (Nat.not_lt.mpr enough)
  | succ levels ih =>
      have bodies : QueuesBodies v scope.index
          (fun scope => List.mapM (v.statement levels scope)) levels := by
        intro scope' inner same shallow
        rw [ofBody_eq_flatMap, ← same]
        exact .mapM fun s listed => ih (Nat.le_trans (Statement.depth_le_depths listed) shallow)
      by_cases isClass : NodeCategory.ofStatement? s = some .classDecl
      · cases s with
        | classDecl head members =>
            exact queues_class registered head (bodies.mono (Nat.le_of_succ_le_succ enough))
        | _ => cases isClass
      · exact queues_otherStatement registered isClass (bodies.mono (by omega))

/-- A statement of a unit is handed on as it is, and all there is of it is queued. -/
theorem queues_wholeStatement (s : Statement) :
    Queues v scope.index (v.wholeStatement scope s) (ofStatement (isAnnotated v.semantic v.path) s)
      s :=
  queues_statement registered (Nat.le_add_right _ _)

end Statements

/-! ## Runs -/

/-- A workbench with calls queued, and the registry asked for if there are any. -/
def withCalls (bench : Workbench σ) (calls : List (InsertAt × Statement)) : Workbench σ :=
  { bench with
    imports :=
      if calls.isEmpty then bench.imports else bench.imports.ask "@loom/runtime" registryImport
    queue := bench.queue ++ calls }

@[simp] theorem withCalls_nil (bench : Workbench σ) : withCalls bench [] = bench := by
  simp [withCalls]

theorem ask_ask (requests : ImportRequests) (specifier : String) (binding : ImportBinding) :
    (requests.ask specifier binding).ask specifier binding = requests.ask specifier binding := by
  unfold ImportRequests.ask
  split
  · rfl
  · rw [if_pos (by simp)]

theorem withCalls_append (bench : Workbench σ) (first second : List (InsertAt × Statement)) :
    withCalls (withCalls bench first) second = withCalls bench (first ++ second) := by
  cases first with
  | nil => simp
  | cons call rest =>
      cases second <;> simp [withCalls, ask_ask]

/-- Work that comes to a value with calls queued, or fails as they do; it takes no notes. -/
structure Makes (work : Course σ α) (calls : Except ResolveError (List (InsertAt × Statement)))
    (value : α) : Prop where
  made : ∀ these, calls = .ok these → ∀ bench, work.run bench = (.ok value, withCalls bench these)
  failed : ∀ error, calls = .error error → ∀ bench, ∃ after,
    work.run bench = (.error (.failed (.resolve error)), after) ∧ after.notes = bench.notes

namespace Makes

variable {calls more : Except ResolveError (List (InsertAt × Statement))}

theorem idle (value : α) : Makes (pure value : Course σ α) (.ok []) value where
  made := by
    rintro _ ⟨⟩ bench
    rw [withCalls_nil]
    rfl
  failed := by
    rintro _ ⟨⟩

theorem bind {work : Course σ α} {next : α → Course σ β} {a : α} {b : β} (here : Makes work calls a)
    (there : Makes (next a) more b) :
    Makes (work >>= next) (do return (← calls) ++ (← more)) b := by
  constructor
  · intro these all bench
    simp only [bind_eq_ok, pure_eq_ok] at all
    obtain ⟨first, made, second, later, rfl⟩ := all
    rw [Work.run_bind, here.made first made]
    simp only [there.made second later, withCalls_append]
  · intro error broken bench
    cases made : calls with
    | error e =>
        obtain ⟨after, failed, same⟩ := here.failed e made bench
        rw [made] at broken
        cases broken
        exact ⟨after, by rw [Work.run_bind, failed], same⟩
    | ok first =>
        cases later : more with
        | ok second =>
            rw [made, later] at broken
            cases broken
        | error e =>
            obtain ⟨after, failed, same⟩ := there.failed e later (withCalls bench first)
            rw [made, later] at broken
            cases broken
            exact ⟨after, by rw [Work.run_bind, here.made first made]; exact failed, same⟩

theorem map {work : Course σ α} {a : α} (here : Makes work calls a) (f : α → β) :
    Makes (do return f (← work)) calls (f a) := by
  have same : (do return (← calls) ++ (← .ok [])) = calls := by
    cases calls with
    | ok these => exact congrArg Except.ok (List.append_nil these)
    | error e => rfl
  have both : Makes (work >>= fun a => pure (f a)) (do return (← calls) ++ (← .ok [])) (f a) :=
    here.bind (.idle (f a))
  rwa [same] at both

end Makes

section Unit

variable {v : Visit σ} {index : Option Nat}

/-- The call of a registration in the unit. -/
def callOf (v : Visit σ) (r : Registration) : Except ResolveError Statement :=
  r.call (v.unitId?.getD v.path.text) ⟨v.semantic.types, v.references⟩

/-- Calls for the place behind the top-level statement of the index. -/
def behind (index : Option Nat) (calls : List Statement) : List (InsertAt × Statement) :=
  calls.map (place index, ·)

theorem makes_queue (r : Registration) :
    Makes (queue v index r) ((callOf v r).map fun call => behind index [call]) () where
  made := by
    intro these all bench
    obtain ⟨call, made, rfl⟩ := map_eq_ok.mp all
    simp only [callOf] at made
    simp only [queue, made]
    rfl
  failed := by
    intro error broken bench
    cases made : callOf v r with
    | ok call =>
        rw [made] at broken
        cases broken
    | error e =>
        rw [made] at broken
        cases broken
        simp only [callOf] at made
        simp only [queue, made]
        exact ⟨bench, rfl, rfl⟩

theorem makes_of_queues {work : Course σ α} {value : α} {registrations : List Registration}
    (queues : Queues v index work registrations value) :
    Makes work ((registrations.mapM (callOf v)).map (behind index)) value := by
  subst queues
  induction registrations with
  | nil => exact Makes.idle value
  | cons r rest ih =>
      have both : Makes
          (queue v index r >>= fun _ => forM rest (queue v index) >>= fun _ => pure value)
          (do
            return (← (callOf v r).map fun call => behind index [call]) ++
              (← (rest.mapM (callOf v)).map (behind index))) value :=
        (makes_queue r).bind ih
      have calls : ((r :: rest).mapM (callOf v)).map (behind index) = (do
          return (← (callOf v r).map fun call => behind index [call]) ++
            (← (rest.mapM (callOf v)).map (behind index))) := by
        rw [List.mapM_cons]
        cases callOf v r with
        | error e => rfl
        | ok call => cases rest.mapM (callOf v) <;> rfl
      rw [calls]
      simpa using both

/-- Top-level statements with the calls that each of them owes. -/
def owed (v : Visit σ) (statements : List Statement) :
    Except ResolveError (List (Statement × List Statement)) :=
  statements.mapM fun s => do
    return (s, ← (ofStatement (isAnnotated v.semantic v.path) s).mapM (callOf v))

/-- Calls owed by top-level statements, the first of which has the index, as they are queued. -/
def inQueue (index : Nat) (groups : List (Statement × List Statement)) :
    List (InsertAt × Statement) :=
  (Dispatcher.queuedBehind index groups).map fun entry => (.before entry.1, entry.2)

theorem inQueue_cons (index : Nat) (s : Statement) (calls : List Statement)
    (groups : List (Statement × List Statement)) :
    inQueue index ((s, calls) :: groups) =
      behind (some index) calls ++ inQueue (index + 1) groups := by
  simp [inQueue, Dispatcher.queuedBehind, behind, place]

variable (builtIn : v.registry = builtin)

include builtIn

theorem makes_topLevel (index : Nat) (statements : List Statement) :
    Makes (v.topLevel index statements) ((owed v statements).map (inQueue index)) statements := by
  induction statements generalizing index with
  | nil => exact Makes.idle []
  | cons s rest ih =>
      have here : Makes (v.wholeStatement { index := some index } s) _ s :=
        makes_of_queues (queues_wholeStatement builtIn s)
      have both : Makes (v.topLevel index (s :: rest)) (do
          return (← ((ofStatement (isAnnotated v.semantic v.path) s).mapM (callOf v)).map
              (behind (some index))) ++
            (← (owed v rest).map (inQueue (index + 1)))) (s :: rest) :=
        here.bind ((ih (index + 1)).map (s :: ·))
      have calls : (owed v (s :: rest)).map (inQueue index) = (do
          return (← ((ofStatement (isAnnotated v.semantic v.path) s).mapM (callOf v)).map
              (behind (some index))) ++
            (← (owed v rest).map (inQueue (index + 1)))) := by
        unfold owed
        rw [List.mapM_cons]
        cases (ofStatement (isAnnotated v.semantic v.path) s).mapM (callOf v) with
        | error e => rfl
        | ok these =>
            cases rest.mapM fun s => do
                return (s, ← (ofStatement (isAnnotated v.semantic v.path) s).mapM (callOf v)) with
            | error e => rfl
            | ok groups => exact congrArg Except.ok (inQueue_cons index s these groups)
      rwa [calls]

theorem makes_unit (u : SourceUnit) :
    Makes (v.unit u) ((owed v u.statements).map (inQueue 0)) u := by
  have idle (phase : Phase) : v.registry.pluginsFor .file phase = [] := by
    rw [builtIn, pluginsFor_builtin]
  have passed (u : SourceUnit) (phase : Phase) :
      v.step Visit.asUnit .file phase {} (.unit u) = pure u :=
    step_of_idle Visit.reads_asUnit (idle phase) u
  simpa [Visit.unit, passed] using
    (makes_topLevel builtIn 0 u.statements).map fun statements => { u with statements }

theorem batch_eq {queued : List (InsertAt × Statement)}
    (idle : ∀ entry ∈ queued, ofStatement (isAnnotated v.semantic v.path) entry.2 = []) :
    v.batch queued = pure queued := by
  induction queued with
  | nil => rfl
  | cons entry rest ih =>
      obtain ⟨here, later⟩ := List.forall_mem_cons.mp idle
      have visited : v.wholeStatement {} entry.2 = pure entry.2 := by
        have queues : Queues v none (v.wholeStatement {} entry.2) _ entry.2 :=
          queues_wholeStatement builtIn entry.2
        rw [here] at queues
        simpa [Queues] using queues
      simp [Visit.batch, visited, ih later]

/-- One round is enough where what is queued owes no calls itself. -/
theorem drain_eq (rounds : Nat) (u : SourceUnit) {bench : Workbench σ}
    (idle : ∀ entry ∈ bench.queue, ofStatement (isAnnotated v.semantic v.path) entry.2 = []) :
    Dispatcher.drain v (rounds + 1) u bench =
      (.ok { u with statements := Dispatcher.splice u.statements bench.queue },
        { bench with queue := [] }) := by
  cases bench with
  | mk imports queue notes =>
      cases queue with
      | nil => simp [Dispatcher.drain, Dispatcher.splice_nil]
      | cons entry rest =>
          have run : (v.batch (entry :: rest)).run ⟨imports, [], notes⟩ =
              (.ok (entry :: rest), ⟨imports, [], notes⟩) := by
            rw [batch_eq builtIn idle]
            rfl
          have settled (rounds : Nat) (u : SourceUnit) :
              Dispatcher.drain v rounds u ⟨imports, [], notes⟩ = (.ok u, ⟨imports, [], notes⟩) := by
            unfold Dispatcher.drain
            rfl
          simp [Dispatcher.drain, run, settled]

end Unit

section Owed

variable {v : Visit σ} {statements : List Statement} {groups : List (Statement × List Statement)}

theorem statements_of_owed (made : owed v statements = .ok groups) :
    groups.map Prod.fst = statements := by
  induction statements generalizing groups with
  | nil =>
      cases made
      rfl
  | cons s rest ih =>
      obtain ⟨group, others, here, later, rfl⟩ := mapM_cons_eq_ok.mp made
      obtain ⟨calls, _, same⟩ := bind_eq_ok.mp here
      cases same
      rw [List.map_cons, ih later]

theorem idle_of_callOf {r : Registration} {call : Statement} (made : callOf v r = .ok call)
    (isAnnotated : List Decorator → Bool) : ofStatement isAnnotated call = [] := by
  cases r with
  | field owner decl id =>
      obtain ⟨type, _, rfl⟩ := map_eq_ok.mp made
      rfl
  | identity head members =>
      cases made
      rfl

theorem idle_of_owed (made : owed v statements = .ok groups) (isAnnotated : List Decorator → Bool) :
    ∀ entry ∈ inQueue 0 groups, ofStatement isAnnotated entry.2 = [] := by
  have each : ∀ group ∈ groups, ∀ call ∈ group.2, ofStatement isAnnotated call = [] := by
    refine forall_of_mapM (fun s _ group here => ?_) made
    obtain ⟨calls, all, same⟩ := bind_eq_ok.mp here
    cases same
    exact forall_of_mapM (fun r _ call made => idle_of_callOf made isAnnotated) all
  intro entry listed
  obtain ⟨call, queued, rfl⟩ := List.mem_map.mp listed
  obtain ⟨group, among, here⟩ := Dispatcher.exists_of_mem_queuedBehind queued
  exact each group among _ here

end Owed

/-- Top-level statements of a unit with the calls that register what is in them, in one pass. -/
def onePass (semantic : SemanticModel) (references : References) (u : SourceUnit) :
    Except ResolveError (List (Statement × List Statement)) :=
  u.statements.mapM fun s => do
    let unitId := (references.idOf u.path).getD u.path.text
    let calls ← (ofStatement (isAnnotated semantic u.path) s).mapM
      (Registration.call unitId ⟨semantic.types, references⟩)
    return (s, calls)

/-- The unit with the calls of each top-level statement right behind it, and the imports settled;
the registry is asked for once, if there is any call. -/
def woven (semantic : SemanticModel) (references : References) (u : SourceUnit)
    (groups : List (Statement × List Statement)) : SourceUnit :=
  let requests := if groups.all (·.2.isEmpty) then [] else [⟨"@loom/runtime", registryImport⟩]
  Imports.finalize requests semantic references
    { u with statements := groups.flatMap fun group => group.1 :: group.2 }

theorem inQueue_isEmpty (index : Nat) (groups : List (Statement × List Statement)) :
    (inQueue index groups).isEmpty = groups.all (·.2.isEmpty) := by
  induction groups generalizing index with
  | nil => rfl
  | cons group rest ih =>
      rw [inQueue_cons index group.1 group.2 rest, List.all_cons, ← ih (index + 1)]
      cases group.2 <;> rfl

theorem fails_call_iff {unitId : String} {types : TypeResolver.Scope} {r : Registration} :
    (∃ e, r.call unitId types = .error e) ↔
      ∃ owner decl id, r = .field owner decl id ∧ ∃ e, TypeResolver.resolve types id = .error e := by
  cases r with
  | identity head members => simp [Registration.call]
  | field owner decl id =>
      cases resolved : TypeResolver.resolve types id with
      | ok type => simp [Registration.call, resolved, Except.map]
      | error e =>
          have broken : Registration.call unitId types (.field owner decl id) = .error e := by
            simp [Registration.call, resolved, Except.map]
          exact ⟨fun _ => ⟨owner, decl, id, rfl, e, resolved⟩, fun _ => ⟨e, broken⟩⟩

theorem fails_onePass_iff (semantic : SemanticModel) (references : References) (u : SourceUnit) :
    (∃ e, onePass semantic references u = .error e) ↔
      ∃ s ∈ u.statements, ∃ owner decl id,
        .field owner decl id ∈ ofStatement (isAnnotated semantic u.path) s ∧
          ∃ e, TypeResolver.resolve ⟨semantic.types, references⟩ id = .error e := by
  have failed (calls : Except ResolveError (List Statement)) (s : Statement) :
      (∃ e, (do return (s, ← calls) : Except ResolveError _) = .error e) ↔
        ∃ e, calls = .error e := by
    cases calls <;> simp [bind, Except.bind, pure, Except.pure]
  simp only [onePass, mapM_eq_error_iff, failed, fails_call_iff]
  constructor
  · rintro ⟨s, listed, r, among, owner, decl, id, rfl, broken⟩
    exact ⟨s, listed, owner, decl, id, among, broken⟩
  · rintro ⟨s, listed, owner, decl, id, among, broken⟩
    exact ⟨s, listed, _, among, owner, decl, id, rfl, broken⟩

section Transform

variable (semantic : SemanticModel) (references : References) (levels : Nat) (u : SourceUnit)
  (notes : σ)

theorem transform_eq (seen : Dispatcher.isPassthrough references u.path = false) :
    Dispatcher.transform ⟨builtin, semantic, references, levels⟩ u notes =
      (match onePass semantic references u with
        | .error e => .error (.failed (.plugin u.path (.resolve e)))
        | .ok groups => .ok (woven semantic references u groups), notes) := by
  let d : Dispatcher σ := ⟨builtin, semantic, references, levels⟩
  have makes : Makes ((d.visitOf u).unit u) ((onePass semantic references u).map (inQueue 0)) u :=
    makes_unit rfl u
  refine (Dispatcher.transform_of_seen d u notes seen).trans ?_
  cases made : onePass semantic references u with
  | error e =>
      obtain ⟨after, failed, same⟩ := makes.failed e (by rw [made]; rfl) { notes }
      simp only [failed, same]
      rfl
  | ok groups =>
      have owes : owed (d.visitOf u) u.statements = .ok groups := made
      have drained : Dispatcher.drain (d.visitOf u) Dispatcher.maxRounds u
          (withCalls { notes } (inQueue 0 groups)) = _ :=
        drain_eq rfl 63 u (idle_of_owed owes _)
      have spliced : Dispatcher.splice u.statements (inQueue 0 groups) =
          groups.flatMap fun group => group.1 :: group.2 := by
        rw [← statements_of_owed owes]
        exact Dispatcher.splice_queuedBehind groups
      rw [makes.made (inQueue 0 groups) (by rw [made]; rfl) { notes }]
      simp only [drained]
      simp only [withCalls, List.nil_append, inQueue_isEmpty, spliced]
      rfl

/-- A unit that is not passed through comes out as one pass makes it. It fails just when the type of
a described field cannot be resolved, and the error names the unit. -/
theorem transform_isOnePass (seen : Dispatcher.isPassthrough references u.path = false) :
    Dispatcher.transform ⟨builtin, semantic, references, levels⟩ u notes =
        (match onePass semantic references u with
          | .error e => .error (.failed (.plugin u.path (.resolve e)))
          | .ok groups => .ok (woven semantic references u groups), notes) ∧
      ((∃ halt, (Dispatcher.transform ⟨builtin, semantic, references, levels⟩ u notes).1 =
          .error halt) ↔
        ∃ s ∈ u.statements, ∃ owner decl id,
          .field owner decl id ∈ ofStatement (isAnnotated semantic u.path) s ∧
            ∃ e, TypeResolver.resolve ⟨semantic.types, references⟩ id = .error e) := by
  have same := transform_eq semantic references levels u notes seen
  refine ⟨same, ?_⟩
  rw [← fails_onePass_iff, same]
  cases onePass semantic references u with
  | error e => exact ⟨fun _ => ⟨e, rfl⟩, fun _ => ⟨_, rfl⟩⟩
  | ok groups => simp

end Transform

/-- An annotated field of a text. -/
def sampleField (name : String) : PropertyDecl :=
  ⟨name, false, [⟨"field", []⟩], some ⟨"string", some 0⟩, none⟩

def sampleInner : List ClassMember := [.property (sampleField "inside")]

/-- Two annotated fields, and between them a method that declares another class. -/
def sampleMembers : List ClassMember :=
  [.property (sampleField "first"),
    .method ⟨"run", false, [], [], none⟩ [.classDecl ⟨"Inner", false, [], none⟩ sampleInner],
    .property (sampleField "last")]

def sampleUnit : SourceUnit where
  path := ⟨"/ws/src/unit.ts"⟩
  statements :=
    [.classDecl ⟨"Outer", true, [], none⟩ sampleMembers, .expression (.ident "done")]

def sampleSemantic : SemanticModel :=
  .ofTables [.intrinsic TypeFlag.string "string"] [("field", ⟨⟨"@app/notes", "field"⟩, []⟩)] []

/-- The description of a field of the sample, given that of its type. -/
def sampleCall (owner name : String) (type : Expr) : Statement :=
  .expression (.call (.member (.ident "__loom") "describeField")
    [.ident owner, .literal (.string name), type])

/-- The calls for the class inside stand where its method stands. -/
theorem transform_isOnePass_sample :
    Dispatcher.isPassthrough .none sampleUnit.path = false ∧
      ∃ type, TypeResolver.resolve ⟨sampleSemantic.types, .none⟩ 0 = .ok type ∧
        Dispatcher.transform ⟨builtin, sampleSemantic, .none, 0⟩ sampleUnit () =
          (.ok { sampleUnit with
            statements :=
              [.importDecl ⟨"@loom/runtime", [⟨"registry", "__loom"⟩], false⟩,
                .classDecl ⟨"Outer", true, [], none⟩ sampleMembers,
                sampleCall "Outer" "first" (.ofJson type.toJson.settled),
                sampleCall "Inner" "inside" (.ofJson type.toJson.settled),
                .expression (.call (.member (.ident "__loom") "registerClass")
                  [.ident "Inner", .literal (.string "/ws/src/unit.ts:Inner"), .array []]),
                sampleCall "Outer" "last" (.ofJson type.toJson.settled),
                .expression (.call (.member (.ident "__loom") "registerClass")
                  [.ident "Outer", .literal (.string "/ws/src/unit.ts:Outer"),
                    .array [.literal (.string "run")]]),
                .expression (.ident "done")] }, ()) := by
  refine ⟨rfl, _, rfl, ?_⟩
  rw [(transform_isOnePass sampleSemantic .none 0 sampleUnit () rfl).1]
  rfl

end WorkspaceBuild.Registrations
