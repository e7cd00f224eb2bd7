import Mathlib.Data.List.Basic
import Mathlib.Tactic.Conv
import WorkspaceBuild.Proofs.Dispatch.Visits

/-! # The nodes of a unit

A node stands at a position: the way down to it, by the index of a child at each step. What is written
on a node as a decorator is no child of it, and neither are the parameters of a getter. The position
tells what a plugin is called with for the node.
-/

namespace WorkspaceBuild

/-- The way from a node down to another one. -/
abbrev Position := List Nat

/-- In post-order a position comes before those that it is inside of, and before those that branch off
behind it. -/
def Position.Precedes : Position → Position → Prop
  | [], _ => False
  | _ :: _, [] => True
  | i :: p, j :: q => i < j ∨ i = j ∧ Precedes p q

theorem Position.not_precedes_self (p : Position) : ¬p.Precedes p := by
  induction p with
  | nil => exact id
  | cons i p ih =>
      rintro (less | ⟨-, further⟩)
      · exact Nat.lt_irrefl i less
      · exact ih further

namespace Node

/-- The nodes right inside a node, in the order in which they are written. -/
def children : Node → List Node
  | .unit u => u.statements.map .statement
  | .statement (.classDecl _ members) => members.map .member
  | .statement (.functionDecl head body) => head.params.map .parameter ++ body.map .statement
  | .statement (.variableDecl decl) => decl.init.toList.map .expression
  | .statement (.expression value) => [.expression value]
  | .statement (.returned value) => value.toList.map .expression
  | .statement (.importDecl _) | .statement (.interfaceDecl _) | .statement (.aliasDecl _) => []
  | .member (.constructorDecl params body) => params.map .parameter ++ body.map .statement
  | .member (.method head body) => head.params.map .parameter ++ body.map .statement
  | .member (.property decl) => decl.init.toList.map .expression
  | .member (.getter _ body) => body.map .statement
  | .member (.setter head body) => head.params.map .parameter ++ body.map .statement
  | .parameter _ => []
  | .expression (.call callee args) => .expression callee :: args.map .expression
  | .expression (.member target _) => [.expression target]
  | .expression (.object fields) => fields.map fun field => .expression field.2
  | .expression (.array items) => items.map .expression
  | .expression (.ident _) | .expression (.literal _) => []

/-- What plugins for the node are registered for. -/
def category? : Node → Option NodeCategory
  | .unit _ => some .file
  | .statement s => NodeCategory.ofStatement? s
  | .member m => some (NodeCategory.ofMember m)
  | .parameter _ => some .parameter
  | .expression (.call ..) => some .call
  | .expression _ => none

/-- A node with nothing in the places of the nodes right inside it. -/
def shell : Node → Node
  | .unit u => .unit { u with statements := [] }
  | .statement (.classDecl head _) => .statement (.classDecl head [])
  | .statement (.functionDecl head _) => .statement (.functionDecl { head with params := [] } [])
  | .statement (.variableDecl decl) => .statement (.variableDecl { decl with init := none })
  | .statement (.expression _) => .statement (.expression (.literal .undefined))
  | .statement (.returned _) => .statement (.returned none)
  | .member (.constructorDecl _ _) => .member (.constructorDecl [] [])
  | .member (.method head _) => .member (.method { head with params := [] } [])
  | .member (.property decl) => .member (.property { decl with init := none })
  | .member (.getter head _) => .member (.getter head [])
  | .member (.setter head _) => .member (.setter { head with params := [] } [])
  | .expression (.call _ _) => .expression (.call (.literal .undefined) [])
  | .expression (.member _ property) => .expression (.member (.literal .undefined) property)
  | .expression (.object fields) =>
      .expression (.object (fields.map fun field => (field.1, .literal .undefined)))
  | .expression (.array _) => .expression (.array [])
  | other => other

theorem decorators?_shell (n : Node) : n.shell.decorators? = n.decorators? := by
  cases n with
  | statement s => cases s <;> rfl
  | member m => cases m <;> rfl
  | expression e => cases e <;> rfl
  | unit | parameter => rfl

/-- The name under which a class owns what is inside it. -/
def className? : Node → Option String
  | .statement (.classDecl head _) => some head.name
  | _ => none

/-- The node at a position. -/
def at? : Node → Position → Option Node
  | n, [] => some n
  | n, i :: p => n.children[i]?.bind fun m => m.at? p

/-- The name of the class that is closest around a position. -/
def owner? : Node → Position → Option String
  | _, [] => none
  | n, i :: p => (n.children[i]?.bind fun m => m.owner? p).or n.className?

section Size

variable {α : Type} [SizeOf α] {wrap : α → Node} {m n : Node}

theorem sizeOf_le_of_mem_map {items : List α} (size : ∀ a, sizeOf (wrap a) ≤ 1 + sizeOf a)
    (listed : m ∈ items.map wrap) : sizeOf m ≤ sizeOf items := by
  obtain ⟨a, among, rfl⟩ := List.mem_map.mp listed
  have smaller := List.sizeOf_lt_of_mem among
  have wrapped := size a
  omega

theorem sizeOf_le_of_mem_declared {params : List Param} {body : List Statement}
    (listed : m ∈ params.map parameter ++ body.map statement) :
    sizeOf m ≤ sizeOf params + sizeOf body := by
  rcases List.mem_append.mp listed with inParams | inBody
  · exact Nat.le_add_right_of_le (sizeOf_le_of_mem_map (fun _ => by simp) inParams)
  · exact Nat.le_add_left_of_le (sizeOf_le_of_mem_map (fun _ => by simp) inBody)

theorem sizeOf_le_of_mem_init {init : Option Expr} (listed : m ∈ init.toList.map expression) :
    sizeOf m ≤ sizeOf init := by
  obtain ⟨e, among, rfl⟩ := List.mem_map.mp listed
  cases Option.mem_toList.mp among
  simp

theorem sizeOf_le_of_mem_statement {s : Statement} (child : m ∈ (statement s).children) :
    sizeOf m ≤ sizeOf s := by
  cases s with
  | classDecl head members =>
      exact Nat.le_trans (sizeOf_le_of_mem_map (fun _ => by simp) child) (by simp)
  | functionDecl head body =>
      exact Nat.le_trans (sizeOf_le_of_mem_declared child) (by cases head; simp; omega)
  | variableDecl decl =>
      exact Nat.le_trans (sizeOf_le_of_mem_init child) (by cases decl; simp; omega)
  | expression value =>
      cases List.mem_singleton.mp child
      simp
  | returned value => exact Nat.le_trans (sizeOf_le_of_mem_init child) (by simp)
  | importDecl | interfaceDecl | aliasDecl => cases child

theorem sizeOf_le_of_mem_member {inside : ClassMember} (child : m ∈ (member inside).children) :
    sizeOf m ≤ sizeOf inside := by
  cases inside with
  | constructorDecl params body =>
      exact Nat.le_trans (sizeOf_le_of_mem_declared child) (by simp)
  | method head body | setter head body =>
      exact Nat.le_trans (sizeOf_le_of_mem_declared child) (by cases head; simp; omega)
  | property decl =>
      exact Nat.le_trans (sizeOf_le_of_mem_init child) (by cases decl; simp; omega)
  | getter head body =>
      exact Nat.le_trans (sizeOf_le_of_mem_map (fun _ => by simp) child) (by simp)

theorem sizeOf_le_of_mem_expression {e : Expr} (child : m ∈ (expression e).children) :
    sizeOf m ≤ sizeOf e := by
  cases e with
  | call callee args =>
      rcases List.mem_cons.mp child with rfl | inArgs
      · simp
      · exact Nat.le_trans (sizeOf_le_of_mem_map (fun _ => by simp) inArgs) (by simp)
  | member target property =>
      cases List.mem_singleton.mp child
      simp
  | object fields =>
      have inside := sizeOf_le_of_mem_map (fun field => by cases field; simp) child
      exact Nat.le_trans inside (by simp)
  | array items => exact Nat.le_trans (sizeOf_le_of_mem_map (fun _ => by simp) child) (by simp)
  | ident | literal => cases child

theorem sizeOf_lt_of_mem_children (child : m ∈ n.children) : sizeOf m < sizeOf n := by
  cases n with
  | unit u =>
      refine Nat.lt_of_le_of_lt (sizeOf_le_of_mem_map (fun _ => by simp) child) ?_
      cases u
      simp
      omega
  | statement s => exact Nat.lt_of_le_of_lt (sizeOf_le_of_mem_statement child) (by simp)
  | member inside => exact Nat.lt_of_le_of_lt (sizeOf_le_of_mem_member child) (by simp)
  | expression e => exact Nat.lt_of_le_of_lt (sizeOf_le_of_mem_expression child) (by simp)
  | parameter => cases child

end Size

/-- A node with all that is inside it, in post-order, each with its position. -/
def inPostOrder (n : Node) : List (Position × Node) :=
  (n.children.attach.zipIdx.flatMap fun child =>
    (inPostOrder child.1.1).map fun entry => (child.2 :: entry.1, entry.2)) ++ [([], n)]
termination_by sizeOf n
decreasing_by exact sizeOf_lt_of_mem_children child.1.2

theorem inPostOrder_eq (n : Node) : n.inPostOrder =
    (n.children.zipIdx.flatMap fun child =>
      child.1.inPostOrder.map fun entry => (child.2 :: entry.1, entry.2)) ++ [([], n)] := by
  have same : n.children.zipIdx = n.children.attach.zipIdx.map (Prod.map Subtype.val id) := by
    rw [← List.zipIdx_map, List.attach_map_subtype_val]
  rw [inPostOrder, same, List.flatMap_map]
  rfl

theorem mem_inPostOrder {n inner : Node} {p : Position} :
    (p, inner) ∈ n.inPostOrder ↔ n.at? p = some inner := by
  induction p generalizing n with
  | nil => simp [inPostOrder_eq n, at?, eq_comm]
  | cons i p ih =>
      simp [inPostOrder_eq n, at?, ih, List.mem_zipIdx_iff_getElem?, Option.bind_eq_some_iff]

theorem pairwise_inPostOrder (n : Node) :
    n.inPostOrder.Pairwise fun first second => first.1.Precedes second.1 := by
  have branches : n.children.zipIdx.Pairwise (·.2 < ·.2) := by
    refine List.pairwise_map.mp ?_
    rw [List.zipIdx_map_snd]
    exact List.pairwise_lt_range'
  rw [inPostOrder_eq]
  refine List.pairwise_append.mpr ⟨List.pairwise_flatMap.mpr ⟨fun child listed => ?_, ?_⟩,
    List.pairwise_singleton _ _, ?_⟩
  · -- inside one branch, by recursion
    have smaller : sizeOf child.1 < sizeOf n :=
      sizeOf_lt_of_mem_children (List.fst_mem_of_mem_zipIdx listed)
    exact List.pairwise_map.mpr ((pairwise_inPostOrder child.1).imp fun before => .inr ⟨rfl, before⟩)
  · -- in two branches
    refine branches.imp fun less first here second there => ?_
    obtain ⟨_, _, rfl⟩ := List.mem_map.mp here
    obtain ⟨_, _, rfl⟩ := List.mem_map.mp there
    exact .inl less
  · intro first inside last own
    obtain ⟨child, _, among⟩ := List.mem_flatMap.mp inside
    obtain ⟨_, _, rfl⟩ := List.mem_map.mp among
    cases List.mem_singleton.mp own
    trivial
termination_by sizeOf n

end Node

namespace Dispatcher

/-- The scope in which the plugins for a node run, given the annotations that are told of it. Units and
expressions carry none, and leave the scope as it is. -/
def Scope.telling (scope : Scope) : Node → List AnnotationUse → Scope
  | .unit _, _ | .expression _, _ => scope
  | _, annotations => { scope with annotations }

/-- The scope in which the nodes right inside a node are visited. -/
def Scope.inside (scope : Scope) : Node → Scope
  | .statement (.classDecl head _) => { scope with annotations := [], owner := some head.name }
  | .statement (.functionDecl ..) | .member _ => { scope with annotations := [] }
  | _ => scope

/-- The nodes right inside a node, each with the scope of its visit. -/
def placed (scope : Scope) : Node → List (Scope × Node)
  | .unit u => u.statements.zipIdx.map fun entry => ({ index := some entry.2 }, .statement entry.1)
  | n => n.children.map (scope.inside n, ·)

/-- The place of a position in a unit. -/
def Scope.ofPosition (u : SourceUnit) (p : Position) : Scope where
  index := p.head?
  owner := (Node.unit u).owner? p

namespace Visit

variable {σ : Type}

/-! ## Annotations -/

/-- The annotations that the decorators on a node stand for. -/
def annotationsOf (v : Visit σ) (node : Node) : List AnnotationUse :=
  match node.decorators? with
  | some decorators => v.annotations decorators
  | none => []

theorem annotationsOf_statement (v : Visit σ) (s : Statement) :
    v.annotationsOf (.statement s) = v.statementAnnotations s := by
  cases s <;> rfl

theorem statementAnnotations_of_bare {v : Visit σ} {s : Statement}
    (bare : NodeCategory.ofStatement? s = none) : v.statementAnnotations s = [] := by
  cases s with
  | classDecl => cases bare
  | _ => rfl

theorem annotationsOf_eq_of_shell (v : Visit σ) {m n : Node} (same : m.shell = n.shell) :
    v.annotationsOf m = v.annotationsOf n := by
  rw [annotationsOf, annotationsOf, ← m.decorators?_shell, same, n.decorators?_shell]

/-! ## Calls -/

/-- What a plugin of the category is called with for the nodes in a node, given their places. -/
def calls (v : Visit σ) (category : NodeCategory) (place : Position → Scope) (n : Node) :
    List (PluginContext × Node) :=
  (n.inPostOrder.filter fun entry => entry.2.category? = some category).map fun entry =>
    (v.context { place entry.1 with annotations := v.annotationsOf entry.2 }, entry.2)

/-- The call for a node itself. -/
def ownCall (v : Visit σ) (category : NodeCategory) (scope : Scope) (n : Node) :
    List (PluginContext × Node) :=
  if n.category? = some category then
    [(v.context { scope with annotations := v.annotationsOf n }, n)]
  else []

theorem calls_eq (v : Visit σ) (category : NodeCategory) (place : Position → Scope) (n : Node) :
    v.calls category place n =
      (n.children.zipIdx.flatMap fun child =>
        v.calls category (fun p => place (child.2 :: p)) child.1) ++
      v.ownCall category (place []) n := by
  rw [calls, Node.inPostOrder_eq, List.filter_append, List.map_append, List.filter_flatMap,
    List.map_flatMap]
  congr 1
  · refine List.flatMap_congr fun child _ => ?_
    rw [List.filter_map, List.map_map]
    rfl
  · by_cases of : n.category? = some category <;> simp [of, ownCall]

/-- The place of a position in a node that is itself inside a class, or not. -/
def within (index : Option Nat) (owner : Option String) (n : Node) (p : Position) : Scope where
  index
  owner := (n.owner? p).or owner

/-- The calls for the nodes in a node that is itself inside a class, or not. -/
def callsIn (v : Visit σ) (category : NodeCategory) (index : Option Nat) (owner : Option String)
    (n : Node) : List (PluginContext × Node) :=
  v.calls category (within index owner n) n

/-- The calls for what is inside a node. -/
def callsInside (v : Visit σ) (category : NodeCategory) (index : Option Nat) (owner : Option String)
    (n : Node) : List (PluginContext × Node) :=
  n.children.flatMap (v.callsIn category index (n.className?.or owner))

theorem callsIn_eq (v : Visit σ) (category : NodeCategory) (index : Option Nat)
    (owner : Option String) (n : Node) : v.callsIn category index owner n =
      v.callsInside category index owner n ++ v.ownCall category { index, owner } n := by
  rw [callsIn, calls_eq, callsInside]
  congr 1
  conv_rhs => rw [← List.zipIdx_map_fst 0 n.children, List.flatMap_map]
  refine List.flatMap_congr fun child listed => ?_
  have here : n.children[child.2]? = some child.1 := List.mem_zipIdx_iff_getElem?.mp listed
  rw [callsIn]
  congr 1
  funext p
  simp [within, Node.owner?, here, Option.or_assoc]

theorem callsIn_of_bare {v : Visit σ} {category : NodeCategory} {index : Option Nat}
    {owner : Option String} {n : Node} (bare : n.category? = none) :
    v.callsIn category index owner n = v.callsInside category index owner n := by
  simp [callsIn_eq, ownCall, bare]

/-- Each top-level statement has an index, and no class is around it. -/
theorem calls_topLevel (v : Visit σ) (category : NodeCategory) (u : SourceUnit) :
    ((Node.unit u).children.zipIdx.flatMap fun child =>
        v.calls category (fun p => Scope.ofPosition u (child.2 :: p)) child.1) =
      u.statements.zipIdx.flatMap fun child =>
        v.callsIn category (some child.2) none (.statement child.1) := by
  rw [Node.children, List.zipIdx_map, List.flatMap_map]
  refine List.flatMap_congr fun child listed => ?_
  have here : u.statements[child.2]? = some child.1 := List.mem_zipIdx_iff_getElem?.mp listed
  refine congrArg (v.calls category · (.statement child.1)) (funext fun p => ?_)
  simp [Scope.ofPosition, within, Node.owner?, Node.children, Node.className?, here]

end Visit

end Dispatcher

end WorkspaceBuild
