import WorkspaceBuild.References
import WorkspaceBuild.Semantics

/-! # Imports of a unit

Imports asked for while a unit is transformed are merged with those it has, and every specifier is
brought into the form that is right beside the outputs.
-/

namespace WorkspaceBuild

/-- Extensions of sources and outputs that a specifier may end with. -/
def knownExtensions : List String :=
  [".tsx", ".mts", ".cts", ".ts", ".jsx", ".mjs", ".cjs", ".js"]

/-- The extension of the output of a source. -/
def outputExtension (path : Path) : String :=
  match path.extension? with
  | some "mts" => ".mjs"
  | some "mjs" => ".mjs"
  | some "cts" => ".cjs"
  | some "cjs" => ".cjs"
  | _ => ".js"

/-- A specifier with the extension of an output in place of its own. -/
def withExtension (specifier extension : String) : String :=
  (knownExtensions.findSome? (Text.dropEnd? specifier)).getD specifier ++ extension

/-- A specifier of a unit in the form that is right beside its output. What is not found, and the
name of a module itself, stays as written. -/
def outputSpecifier (references : References) (path : Path) (specifier : String) : String :=
  match references.resolve path specifier with
  | none => specifier
  | some target =>
      if !isRelative specifier && (target.project.isNone || target.project = some specifier) then
        specifier
      else
        let extension := outputExtension target.path
        match target.kind with
        | .directory => Text.trimEnd specifier '/' ++ "/index" ++ extension
        | .file => withExtension specifier extension

/-- What tells imports of one target: its source path, or else the specifier. -/
def importTarget (references : References) (path : Path) (specifier : String) : String :=
  match references.resolve path specifier with
  | some target => target.path.text
  | none => specifier

/-- An import that is asked for. -/
structure ImportRequest where
  specifier : String
  binding : ImportBinding
  deriving DecidableEq, Inhabited, Repr

/-- The imports asked for in a unit, in order. -/
abbrev ImportRequests := List ImportRequest

namespace ImportRequests

/-- Ask for an import; a second one of the same specifier under the same name says nothing new. -/
def ask (requests : ImportRequests) (specifier : String) (binding : ImportBinding) :
    ImportRequests :=
  if requests.any fun r => r.specifier = specifier && r.binding.localName = binding.localName then
    requests
  else requests ++ [⟨specifier, binding⟩]

end ImportRequests

/-- Take one more name from an import unless the name is taken already. -/
def ImportDecl.addBinding (decl : ImportDecl) (binding : ImportBinding) : ImportDecl :=
  if decl.bindings.any (·.localName = binding.localName) then decl
  else { decl with bindings := decl.bindings ++ [binding] }

namespace Imports

/-- A statement of the settled unit; an import of values comes with its target. -/
inductive Settled where
  | value (target : String) (decl : ImportDecl)
  | other (statement : Statement)
  deriving Inhabited, Repr, BEq

def Settled.statement : Settled → Statement
  | .value _ decl => .importDecl decl
  | .other statement => statement

/-- What an import of values becomes: names of types go, and with the last of them the import. -/
def settleImport (semantic : SemanticModel) (references : References) (path : Path)
    (decl : ImportDecl) : Option Settled :=
  let bindings := decl.bindings.filter fun b =>
    semantic.bindingHasValue path decl.specifier b.localName
  if !decl.bindings.isEmpty && bindings.isEmpty then none
  else
    some (.value (importTarget references path decl.specifier)
      { decl with
        bindings, specifier := outputSpecifier references path decl.specifier })

def settle (semantic : SemanticModel) (references : References) (path : Path) :
    Statement → Option Settled
  | .importDecl decl =>
      if decl.typeOnly then some (.other (.importDecl decl))
      else settleImport semantic references path decl
  | other => some (.other other)

/-- Add a name to the first import of a target among settled statements, if there is one. -/
def addToSettled? (target : String) (binding : ImportBinding) :
    List Settled → Option (List Settled)
  | [] => none
  | .value t decl :: rest =>
      if t = target then some (.value t (decl.addBinding binding) :: rest)
      else (addToSettled? target binding rest).map (.value t decl :: ·)
  | other :: rest => (addToSettled? target binding rest).map (other :: ·)

/-- Add a name to the import of a target among injected ones, or a new import at their end. -/
def inject (target specifier : String) (binding : ImportBinding) :
    List (String × ImportDecl) → List (String × ImportDecl)
  | [] => [(target, { specifier, bindings := [binding] })]
  | (t, decl) :: rest =>
      if t = target then (t, decl.addBinding binding) :: rest
      else (t, decl) :: inject target specifier binding rest

def serve (references : References) (path : Path)
    (imports : List (String × ImportDecl) × List Settled) (request : ImportRequest) :
    List (String × ImportDecl) × List Settled :=
  let target := importTarget references path request.specifier
  match addToSettled? target request.binding imports.2 with
  | some settled => (imports.1, settled)
  | none =>
      let specifier := outputSpecifier references path request.specifier
      (inject target specifier request.binding imports.1, imports.2)

/-- The unit with its imports settled and all requests served; new imports stand first. -/
def finalize (requests : ImportRequests) (semantic : SemanticModel) (references : References)
    (unit : SourceUnit) : SourceUnit :=
  let settled := unit.statements.filterMap (settle semantic references unit.path)
  let (injected, settled) := requests.foldl (serve references unit.path) ([], settled)
  { unit with
    statements :=
      injected.map (fun entry => Statement.importDecl entry.2) ++ settled.map Settled.statement }

end Imports

end WorkspaceBuild
