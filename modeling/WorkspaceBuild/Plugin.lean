import WorkspaceBuild.Imports
import WorkspaceBuild.Types.Resolver

/-! # Plugins

A plugin changes nodes of one category, before or after what is inside them. It may ask for
imports, queue statements, and keep notes of its own, of a type that is left open.
-/

namespace WorkspaceBuild

/-- When a plugin runs, as seen from the inside of the node. -/
inductive Phase where
  /-- Before what is inside is visited. -/
  | before
  /-- After what is inside has been visited. -/
  | after
  deriving DecidableEq, Inhabited, Repr

/-- What plugins can be registered for. -/
inductive NodeCategory where
  | file
  | classDecl
  | interface
  | typeAlias
  | function
  | constructorDecl
  | method
  /-- A method of the class itself. -/
  | staticMethod
  | property
  | getter
  | setter
  | parameter
  | call
  deriving DecidableEq, Inhabited, Repr

/-- The category of a statement; most have none. -/
def NodeCategory.ofStatement? : Statement → Option NodeCategory
  | .classDecl .. => some .classDecl
  | .interfaceDecl _ => some .interface
  | .aliasDecl _ => some .typeAlias
  | .functionDecl .. => some .function
  | _ => none

def NodeCategory.ofMember : ClassMember → NodeCategory
  | .constructorDecl .. => .constructorDecl
  | .method head _ => if head.isStatic then .staticMethod else .method
  | .property _ => .property
  | .getter .. => .getter
  | .setter .. => .setter

/-- The sorts of node a plugin is handed. -/
inductive NodeKind where
  | unit
  | statement
  | member
  | parameter
  | expression
  deriving DecidableEq, Inhabited, Repr

def NodeKind.name : NodeKind → String
  | .unit => "unit"
  | .statement => "statement"
  | .member => "class member"
  | .parameter => "parameter"
  | .expression => "expression"

/-- A node handed to a plugin, and handed back. -/
inductive Node where
  | unit (value : SourceUnit)
  | statement (value : Statement)
  | member (value : ClassMember)
  | parameter (value : Param)
  | expression (value : Expr)
  deriving Inhabited, Repr

namespace Node

def kind : Node → NodeKind
  | .unit _ => .unit
  | .statement _ => .statement
  | .member _ => .member
  | .parameter _ => .parameter
  | .expression _ => .expression

/-- The decorators on a node that can carry any. -/
def decorators? : Node → Option (List Decorator)
  | .statement (.classDecl head _) => some head.decorators
  | .member value => some value.decorators
  | .parameter param => some param.decorators
  | _ => none

end Node

/-- Why a plugin failed. -/
inductive PluginError where
  /-- It handed back a node of another kind. -/
  | unexpectedNode (plugin : String) (expected found : NodeKind)
  | failed (plugin : String) (reason : String)
  /-- A type could not be resolved. -/
  | resolve (error : ResolveError)
  deriving DecidableEq, Inhabited, Repr

def PluginError.message : PluginError → String
  | .unexpectedNode plugin expected found =>
      "Plugin '" ++ plugin ++ "' expected a " ++ expected.name ++ " node but returned " ++
        found.name
  | .failed plugin reason => "Plugin '" ++ plugin ++ "' failed: " ++ reason
  | .resolve error => error.message

/-- Why work ends without a result. -/
inductive Halt (ε : Type) where
  | failed (error : ε)
  /-- It has not come to its end on the levels that it was given. That is nothing the program reports:
  on more levels it goes on. -/
  | unfinished
  deriving DecidableEq, Inhabited, Repr

def Halt.map {ε ε' : Type} (f : ε → ε') : Halt ε → Halt ε'
  | .failed error => .failed (f error)
  | .unfinished => .unfinished

/-- Where a queued statement goes. -/
inductive InsertAt where
  /-- To the start of the unit. -/
  | start
  /-- To the end of the unit. -/
  | finish
  /-- Before the top-level statement of an index. -/
  | before (index : Nat)
  deriving DecidableEq, Inhabited, Repr

/-- What plugins have asked for while a unit is visited, and the notes they keep. -/
structure Workbench (σ : Type) where
  imports : ImportRequests := []
  queue : List (InsertAt × Statement) := []
  notes : σ

/-- Work on a unit: it may end early, and what was asked for and noted until then stays. -/
abbrev Work (ε σ : Type) := ExceptT ε (StateM (Workbench σ))

/-- Work that plugins can keep from ever coming to its end. -/
abbrev Course (σ : Type) := Work (Halt PluginError) σ

/-- What a plugin can see of its node's surroundings. -/
structure PluginContext where
  path : Path
  /-- Id of the unit, if it has one. -/
  unitId? : Option String
  semantic : SemanticModel
  references : References
  annotations : List AnnotationUse
  /-- Index of the top-level statement around the node. -/
  index : Option Nat
  /-- Name of the class around a member or parameter. -/
  owner : Option String

namespace PluginContext

/-- Id of the unit, or its path when it has none. -/
def unitId (ctx : PluginContext) : String := ctx.unitId?.getD ctx.path.text

/-- The description of a type of the unit. -/
def resolveType (ctx : PluginContext) (id : TypeId) : Except ResolveError ResolvedType :=
  TypeResolver.resolve ⟨ctx.semantic.types, ctx.references⟩ id

/-- The place right after the top-level statement at hand, or the end of the unit. -/
def afterCurrent (ctx : PluginContext) : InsertAt :=
  match ctx.index with
  | some index => .before (index + 1)
  | none => .finish

end PluginContext

namespace Work

variable {ε σ α : Type}

def requireImport (specifier : String) (binding : ImportBinding) : Work ε σ Unit :=
  modify fun bench => { bench with imports := bench.imports.ask specifier binding }

def insert (at_ : InsertAt) (statement : Statement) : Work ε σ Unit :=
  modify fun bench => { bench with queue := bench.queue ++ [(at_, statement)] }

def note (change : σ → σ) : Work ε σ Unit :=
  modify fun bench => { bench with notes := change bench.notes }

/-- What plugins do, as a part of a course. -/
def inCourse (work : Work PluginError σ α) : Course σ α := ExceptT.adapt Halt.failed work

end Work

/-- A registered plugin. -/
structure Plugin (σ : Type) where
  name : String
  category : NodeCategory
  phase : Phase
  /-- Annotation targets that call for it; without any it always runs. -/
  targets : List AnnotationKey := []
  /-- What it does to a node. -/
  transform : PluginContext → Node → Work PluginError σ Node

namespace Plugin

variable {σ : Type}

/-- Whether the plugin runs on every node of its category. -/
def isUnconditional (plugin : Plugin σ) : Bool := plugin.targets.isEmpty

def isCalledBy (plugin : Plugin σ) (annotations : List AnnotationUse) : Bool :=
  annotations.any (·.targetsAny plugin.targets)

end Plugin

/-- The registered plugins, in order. -/
abbrev Registry (σ : Type) := List (Plugin σ)

def Registry.pluginsFor {σ : Type} (registry : Registry σ) (category : NodeCategory)
    (phase : Phase) : List (Plugin σ) :=
  registry.filter fun plugin => plugin.category = category && plugin.phase = phase

end WorkspaceBuild
