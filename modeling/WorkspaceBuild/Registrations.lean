import WorkspaceBuild.Dispatch
import WorkspaceBuild.SourceUnit.Printer

/-! # Built-in plugins

Every class is registered with the runtime under an id, and every annotated field of a known type
is described to it. Both are calls that stand after the top-level statement of the class.
-/

namespace WorkspaceBuild.Registrations

variable {σ : Type}

def runtimeModule : String := "@loom/runtime"

/-- The name of the runtime's registry in a transformed unit. -/
def runtimeName : String := "__loom"

/-- A call of a function of the registry. -/
def runtimeCall (function : String) (args : List Expr) : Statement :=
  .expression (.call (.member (.ident runtimeName) function) args)

/-- Queue a call of the registry after the current statement, and ask for the registry. -/
def queueCall (ctx : PluginContext) (function : String) (args : List Expr) : Work PluginError σ Unit := do
  Work.requireImport runtimeModule ⟨"registry", runtimeName⟩
  Work.insert ctx.afterCurrent (runtimeCall function args)

/-- The arguments that register a class: itself, its id, and the names of its methods. -/
def classArgs (unitId : String) (head : ClassHead) (members : List ClassMember) : List Expr :=
  [.ident head.name, .literal (.string (unitId ++ ":" ++ head.name)),
    .array ((ClassMember.methodNames members).map fun name => .literal (.string name))]

/-- The arguments that describe a field of a class. -/
def fieldArgs (owner : String) (decl : PropertyDecl) (type : ResolvedType) : List Expr :=
  [.ident owner, .literal (.string decl.name), .ofJson type.toJson.settled]

/-- Register each class after the statement it stands in. -/
def registerClass (ctx : PluginContext) (node : Node) : Work PluginError σ Node := do
  match node with
  | .statement (.classDecl head members) =>
      queueCall ctx "registerClass" (classArgs ctx.unitId head members)
      return node
  | _ => return node

/-- Describe each annotated field of a known type. -/
def describeField (ctx : PluginContext) (node : Node) : Work PluginError σ Node := do
  match node with
  | .member (.property decl) =>
      match ctx.annotations, decl.type.bind WrittenType.id, ctx.owner with
      | _ :: _, some id, some owner =>
          match ctx.resolveType id with
          | .ok type =>
              queueCall ctx "describeField" (fieldArgs owner decl type)
              return node
          | .error error => throw (.resolve error)
      | _, _, _ => return node
  | _ => return node

def builtin : Registry σ :=
  [⟨"class identity", .classDecl, .after, [], registerClass⟩,
    ⟨"shape metadata", .property, .after, [], describeField⟩]

end WorkspaceBuild.Registrations
