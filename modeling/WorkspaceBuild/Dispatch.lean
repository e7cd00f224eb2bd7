import WorkspaceBuild.Plugin

/-! # Dispatch of plugins over a unit

One walk over the tree. Each node with a category goes through the plugins of the phase before, its
inside is visited, and it goes through those of the phase after; in each phase plugins without
targets come first. Statements queued on the way are visited too and set into the unit, in rounds,
until the queue stays empty.
-/

namespace WorkspaceBuild

/-- Why a unit could not be transformed. -/
inductive TransformError where
  | plugin (path : Path) (error : PluginError)
  | drainLimit (path : Path) (rounds : Nat)
  /-- The unit's text could not be parsed. -/
  | parse (path : Path)
  /-- There is no unit at the path. -/
  | unitNotFound (path : Path)
  deriving DecidableEq, Inhabited, Repr

/-- The text of a failure to transform. The reason why a text could not be parsed is not kept. -/
def TransformError.message : TransformError → String
  | .plugin path error => "Transform of " ++ path.text ++ " failed: " ++ error.message
  | .drainLimit path rounds =>
      "Queued statements of " ++ path.text ++ " did not settle after " ++ Text.ofNat rounds ++
        " rounds"
  | .parse path => "Failed to parse " ++ path.text
  | .unitNotFound path => "No unit available for " ++ path.text

/-- The plugins for a unit and what they can ask. -/
structure Dispatcher (σ : Type) where
  registry : Registry σ
  semantic : SemanticModel
  references : References
  /-- How many levels further down a visit goes than the node it starts from. Plugins that never put
  a node deeper into another one need none; those that keep doing so have no visit that ends, on
  however many levels. -/
  levels : Nat

namespace Dispatcher

variable {σ : Type}

def maxRounds : Nat := 64

/-- Packages of the toolchain, whose compile-time units no plugin sees. -/
def toolchainPackages : List String := ["@loom/compiler", "@loom/manifest", "@loom/transformer"]

/-- Whether a unit is compile-time code of the toolchain. -/
def isPassthrough (references : References) (path : Path) : Bool :=
  match references.locate path with
  | some location => location.compileTimeOnly && toolchainPackages.contains location.moduleName
  | none => false

/-- Where in a unit a node stands. -/
structure Scope where
  annotations : List AnnotationUse := []
  /-- Index of the top-level statement around it. -/
  index : Option Nat := none
  owner : Option String := none

/-- A unit on its way through the plugins: its path and id are those it came with. -/
structure Visit (σ : Type) extends Dispatcher σ where
  path : Path
  unitId? : Option String

namespace Visit

def context (v : Visit σ) (scope : Scope) : PluginContext :=
  ⟨v.path, v.unitId?, v.semantic, v.references, scope.annotations, scope.index, scope.owner⟩

def annotations (v : Visit σ) (decorators : List Decorator) : List AnnotationUse :=
  v.semantic.annotations v.path decorators

/-- Apply a plugin, which has to hand back a node of the kind it was handed. -/
def apply (ctx : PluginContext) (node : Node) (plugin : Plugin σ) : Work PluginError σ Node := do
  let result ← plugin.transform ctx node
  if result.kind = node.kind then return result
  else throw (.unexpectedNode plugin.name node.kind result.kind)

/-- The annotations on a node as it is now, or those known of its place. -/
def currentAnnotations (v : Visit σ) (scope : Scope) (node : Node) : List AnnotationUse :=
  match node.decorators? with
  | some decorators => v.annotations decorators
  | none => scope.annotations

/-- Run the plugins of a phase: those without targets, then those that the node's annotations, read
again, call for. -/
def runPhase (v : Visit σ) (category : NodeCategory) (phase : Phase) (scope : Scope) (node : Node) :
    Work PluginError σ Node := do
  let plugins := v.registry.pluginsFor category phase
  let node ← (plugins.filter (·.isUnconditional)).foldlM (apply (v.context scope)) node
  let annotated := plugins.filter (!·.isUnconditional)
  if annotated.isEmpty then return node
  let annotations := v.currentAnnotations scope node
  (annotated.filter (·.isCalledBy annotations)).foldlM
    (apply (v.context { scope with annotations })) node

/-- The name under which the walk itself reports a node of the wrong kind. -/
def walkName : String := "dispatch"

/-- A node that is to be of another kind. -/
def unexpected (expected : NodeKind) (node : Node) : PluginError :=
  .unexpectedNode walkName expected node.kind

def asUnit : Node → Work PluginError σ SourceUnit
  | .unit value => return value
  | other => throw (unexpected .unit other)

def asStatement : Node → Work PluginError σ Statement
  | .statement value => return value
  | other => throw (unexpected .statement other)

def asMember : Node → Work PluginError σ ClassMember
  | .member value => return value
  | other => throw (unexpected .member other)

def asParameter : Node → Work PluginError σ Param
  | .parameter value => return value
  | other => throw (unexpected .parameter other)

def asExpression : Node → Work PluginError σ Expr
  | .expression value => return value
  | other => throw (unexpected .expression other)

/-- Run the plugins of a phase, and take what comes out for a node of its kind. -/
def step {α : Type} (v : Visit σ) (as : Node → Work PluginError σ α) (category : NodeCategory)
    (phase : Phase) (scope : Scope) (node : Node) : Course σ α :=
  Work.inCourse do as (← v.runPhase category phase scope node)

def insideExpr (visit : Expr → Course σ Expr) : Expr → Course σ Expr
  | .call callee args => return .call (← visit callee) (← args.mapM visit)
  | .member target property => return .member (← visit target) property
  | .object fields =>
      return .object (← fields.mapM fun (key, value) => do return (key, ← visit value))
  | .array items => return .array (← items.mapM visit)
  | leaf => return leaf

/-- Visit an expression on so many levels; calls go through the plugins. -/
def expr (v : Visit σ) (scope : Scope) : Nat → Expr → Course σ Expr
  | 0, _ => throw .unfinished
  | levels + 1, e =>
      match e with
      | .call .. => do
          let e ← v.step asExpression .call .before scope (.expression e)
          let e ← insideExpr (v.expr scope levels) e
          v.step asExpression .call .after scope (.expression e)
      | e => insideExpr (v.expr scope levels) e

def wholeExpr (v : Visit σ) (scope : Scope) (e : Expr) : Course σ Expr :=
  v.expr scope (e.depth + v.levels) e

def optionalExpr (v : Visit σ) (scope : Scope) : Option Expr → Course σ (Option Expr)
  | some e => return some (← v.wholeExpr scope e)
  | none => return none

def param (v : Visit σ) (scope : Scope) (p : Param) : Course σ Param :=
  let scope := { scope with annotations := v.annotations p.decorators }
  Work.inCourse do
    let node ← v.runPhase .parameter .before scope (.parameter p)
    asParameter (← v.runPhase .parameter .after scope node)

/-- Visit what is inside a class member. The parameters of a getter are not visited. -/
def insideMember (v : Visit σ) (body : Scope → List Statement → Course σ (List Statement))
    (scope : Scope) : ClassMember → Course σ ClassMember
  | .constructorDecl params statements =>
      return .constructorDecl (← params.mapM (v.param scope)) (← body scope statements)
  | .method head statements => do
      let params ← head.params.mapM (v.param scope)
      return .method { head with params } (← body scope statements)
  | .property decl => return .property { decl with init := ← v.optionalExpr scope decl.init }
  | .getter head statements => return .getter head (← body scope statements)
  | .setter head statements => do
      let params ← head.params.mapM (v.param scope)
      return .setter { head with params } (← body scope statements)

/-- Visit a class member, given how bodies are visited. -/
def member (v : Visit σ) (body : Scope → List Statement → Course σ (List Statement))
    (scope : Scope) (m : ClassMember) : Course σ ClassMember := do
  let category := NodeCategory.ofMember m
  let scope := { scope with annotations := v.annotations m.decorators }
  let m ← v.step asMember category .before scope (.member m)
  let m ← v.insideMember body { scope with annotations := [] } m
  v.step asMember category .after scope (.member m)

/-- Visit what is inside a statement, given how bodies are visited. -/
def insideStatement (v : Visit σ) (body : Scope → List Statement → Course σ (List Statement))
    (scope : Scope) : Statement → Course σ Statement
  | .classDecl head members => do
      let inner := { scope with annotations := [], owner := some head.name }
      return .classDecl head (← members.mapM (v.member body inner))
  | .functionDecl head statements => do
      let inner := { scope with annotations := [] }
      let params ← head.params.mapM (v.param inner)
      return .functionDecl { head with params } (← body inner statements)
  | .variableDecl decl => return .variableDecl { decl with init := ← v.optionalExpr scope decl.init }
  | .expression value => return .expression (← v.wholeExpr scope value)
  | .returned value => return .returned (← v.optionalExpr scope value)
  | other => return other

def statementAnnotations (v : Visit σ) : Statement → List AnnotationUse
  | .classDecl head _ => v.annotations head.decorators
  | _ => []

/-- Visit a statement on so many levels of bodies. -/
def statement (v : Visit σ) : Nat → Scope → Statement → Course σ Statement
  | 0, _, _ => throw .unfinished
  | levels + 1, scope, s =>
      let body := fun scope statements => statements.mapM (v.statement levels scope)
      match NodeCategory.ofStatement? s with
      | none => v.insideStatement body scope s
      | some category => do
          let scope := { scope with annotations := v.statementAnnotations s }
          let s ← v.step asStatement category .before scope (.statement s)
          let s ← v.insideStatement body scope s
          v.step asStatement category .after scope (.statement s)

def wholeStatement (v : Visit σ) (scope : Scope) (s : Statement) : Course σ Statement :=
  v.statement (s.depth + v.levels) scope s

def topLevel (v : Visit σ) : Nat → List Statement → Course σ (List Statement)
  | _, [] => return []
  | index, s :: rest => do
      let s ← v.wholeStatement { index := some index } s
      return s :: (← v.topLevel (index + 1) rest)

def unit (v : Visit σ) (u : SourceUnit) : Course σ SourceUnit := do
  let u ← v.step asUnit .file .before {} (.unit u)
  let statements ← v.topLevel 0 u.statements
  v.step asUnit .file .after {} (.unit { u with statements })

/-- Visit queued statements; they stand under no top-level statement. -/
def batch (v : Visit σ) : List (InsertAt × Statement) → Course σ (List (InsertAt × Statement))
  | [] => return []
  | (at_, s) :: rest => do
      let s ← v.wholeStatement {} s
      return (at_, s) :: (← v.batch rest)

end Visit

/-- Insert a statement among those sorted by index, after others of its index. -/
def insertByIndex (index : Nat) (s : Statement) :
    List (Nat × Statement) → List (Nat × Statement)
  | [] => [(index, s)]
  | (i, t) :: rest =>
      if index < i then (index, s) :: (i, t) :: rest else (i, t) :: insertByIndex index s rest

/-- The statements queued for an index, sorted by it, in queue order for each. -/
def indexed (queued : List (InsertAt × Statement)) : List (Nat × Statement) :=
  queued.foldl (fun sorted entry =>
    match entry.1 with
    | .before index => insertByIndex index entry.2 sorted
    | _ => sorted) []

/-- The statements queued for a place that is no index, in queue order. -/
def queuedFor (place : InsertAt) (queued : List (InsertAt × Statement)) : List Statement :=
  (queued.filter (·.1 = place)).map Prod.snd

/-- Set queued statements into a list: those with an index go in from the last one on, so that no
index shifts, and then those for the start and for the end. -/
def splice (statements : List Statement) (queued : List (InsertAt × Statement)) :
    List Statement :=
  let inserted := (indexed queued).reverse.foldl (fun statements entry =>
    statements.insertIdx (min entry.1 statements.length) entry.2) statements
  queuedFor .start queued ++ inserted ++ queuedFor .finish queued

/-- Visit queued statements in rounds until none is left. -/
def drain (v : Visit σ) :
    Nat → SourceUnit → Workbench σ → Except (Halt TransformError) SourceUnit × Workbench σ
  | rounds, u, bench =>
      if bench.queue.isEmpty then (.ok u, bench)
      else
        match rounds with
        | 0 => (.error (.failed (.drainLimit v.path maxRounds)), bench)
        | rounds + 1 =>
            match (v.batch bench.queue).run { bench with queue := [] } with
            | (.error halt, bench) => (.error (halt.map (.plugin v.path)), bench)
            | (.ok visited, bench) =>
                drain v rounds { u with statements := splice u.statements visited } bench

/-- Transform a unit: visit it, visit what is queued, and settle its imports. A unit that passes
through only has its imports settled. -/
def transform (d : Dispatcher σ) (u : SourceUnit) (notes : σ) :
    Except (Halt TransformError) SourceUnit × σ :=
  if isPassthrough d.references u.path then
    (.ok (Imports.finalize [] d.semantic d.references u), notes)
  else
    let v : Visit σ := { d with path := u.path, unitId? := d.references.idOf u.path }
    match (v.unit u).run { notes } with
    | (.error halt, bench) => (.error (halt.map (.plugin u.path)), bench.notes)
    | (.ok visited, bench) =>
        match drain v maxRounds visited bench with
        | (.error halt, bench) => (.error halt, bench.notes)
        | (.ok drained, bench) =>
            (.ok (Imports.finalize bench.imports d.semantic d.references drained), bench.notes)

end Dispatcher

end WorkspaceBuild
