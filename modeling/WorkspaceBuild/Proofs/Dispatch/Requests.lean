import WorkspaceBuild.Imports
import WorkspaceBuild.Proofs.Assoc

/-! # Imports that are asked for

Requests of one target are served by one import: the first of the target that the unit keeps, or a new
one. What becomes of each import can be read off the requests of its target alone, and in the end each
name that was asked for is bound once.
-/

namespace WorkspaceBuild

namespace ImportDecl

/-- The import with the names, of which the first of a local name counts. -/
def addAll (decl : ImportDecl) (bindings : List ImportBinding) : ImportDecl :=
  bindings.foldl addBinding decl

end ImportDecl

namespace Imports

section Served

variable (references : References) (path : Path)

/-- The names that are asked for from a target. -/
def askedOf (requests : ImportRequests) (target : String) : List ImportBinding :=
  (requests.filter (importTarget references path ·.specifier = target)).map ImportRequest.binding

/-- Settled statements with what is asked for added to the first import of each target. -/
def grown (requests : ImportRequests) : List String → List Settled → List Settled
  | _, [] => []
  | seen, .value target decl :: rest =>
      .value target (if target ∈ seen then decl else decl.addAll (askedOf references path requests target))
        :: grown requests (target :: seen) rest
  | seen, .other s :: rest => .other s :: grown requests seen rest

variable {references path} {requests : ImportRequests} {r : ImportRequest} {target : String}

/-- The name that a request binds is asked for from its target alone. -/
def Agrees (references : References) (path : Path) (requests : ImportRequests) : Prop :=
  ∀ r ∈ requests, ∀ other ∈ requests, r.binding.localName = other.binding.localName →
    importTarget references path r.specifier = importTarget references path other.specifier ∧
      r.binding.imported = other.binding.imported

end Served

/-! ## Asking -/

/-- The requests that a sequence of calls leaves. -/
def asked (calls : List ImportRequest) : ImportRequests :=
  calls.foldl (fun requests call => requests.ask call.specifier call.binding) []

section Asked

variable (references : References) (path : Path) (calls : List ImportRequest)

end Asked

/-! ## Settling -/

section Final

variable (semantic : SemanticModel) (references : References) (path : Path)

variable {semantic references path}

end Final

end Imports

end WorkspaceBuild
