import Mathlib.Data.List.Induction
import WorkspaceBuild.Proofs.Graph.Consistent

/-! # Graphs and the calls that make them

A graph starts with the workspace's own module, and modules and dependencies are put into it one
call at a time. Its parts are kept apart, yet they always tell the same of the calls made so far; a
call that is refused changes none of them.
-/

namespace WorkspaceBuild.ModuleGraph

/-- What a graph can be asked to take in. -/
inductive Call where
  | addNode (node : GraphNode)
  | addEdge (parent child : String) (kind : DependencyKind)
  deriving DecidableEq, Inhabited, Repr

/-- What a call answers. -/
inductive Answer where
  /-- Whether the module was new. -/
  | addNode (isNew : Bool)
  | addEdge (result : Except PackageError Unit)

namespace Call

/-- The module that a call brings. -/
def node? : Call → Option GraphNode
  | .addNode node => some node
  | .addEdge .. => none

/-- Make a call. -/
def perform (g : ModuleGraph) : Call → Answer × ModuleGraph
  | .addNode node => (.addNode (g.addNode node).1, (g.addNode node).2)
  | .addEdge parent child kind =>
      match g.addEdge parent child kind with
      | .ok next => (.addEdge (.ok ()), next)
      | .error e => (.addEdge (.error e), g)

end Call

namespace Answer

/-- Whether the graph took nothing in, and said so. -/
def isRefusal : Answer → Bool
  | .addNode isNew => !isNew
  | .addEdge result => result.toOption.isNone

end Answer

/-- The graph after calls. -/
def after (g : ModuleGraph) (calls : List Call) : ModuleGraph :=
  calls.foldl (fun g call => (call.perform g).2) g

/-- The graph that calls make around a first module. -/
def made (root : GraphNode) (calls : List Call) : ModuleGraph := after (.single root) calls

/-- The calls with what each of them answers. -/
def answers (g : ModuleGraph) : List Call → List (Call × Answer)
  | [] => []
  | call :: rest => (call, (call.perform g).1) :: answers (call.perform g).2 rest

/-- The kind under which an accepted call records that one module depends on another. -/
def recordedKind? (parent child : String) : Call × Answer → Option DependencyKind
  | (.addEdge p c kind, answer) =>
      if parent = p ∧ child = c ∧ answer.isRefusal = false then some kind else none
  | _ => none

/-- The kinds under which the accepted calls record that one module depends on another, in order. -/
def recordedKinds (root : GraphNode) (calls : List Call) (parent child : String) :
    List DependencyKind :=
  (answers (.single root) calls).filterMap (recordedKind? parent child)

/-- Production wins, or else the first kind. -/
def preferredKind? (kinds : List DependencyKind) : Option DependencyKind :=
  if .production ∈ kinds then some .production else kinds.head?

/-- A module as it is before it is put into a graph. -/
def IsLoose (node : GraphNode) : Prop := node.parents = [] ∧ node.dependencies = []

instance (node : GraphNode) : Decidable (IsLoose node) := inferInstanceAs (Decidable (_ ∧ _))

/-- What the parts of a graph tell of the calls that made it. -/
structure Tells (g : ModuleGraph) (root : GraphNode) (calls : List Call) : Prop where
  named : ∀ name node, g.get? name = some node → node.name = name
  order : g.order = (root.name :: (calls.filterMap Call.node?).map GraphNode.name).eraseDups
  listed : ∀ name, name ∈ g.order ↔ g.contains name
  listedOnce : g.order.Nodup
  inOrder : g.inOrder.map GraphNode.name = g.order
  /-- The two ends of a dependency agree. -/
  dependencies_iff : ∀ parent child,
    (∃ node, g.get? parent = some node ∧ child ∈ node.dependencies.map Edge.name) ↔
      ∃ node, g.get? child = some node ∧ parent ∈ node.parents
  known : ∀ parent child kind, g.HasEdge parent child kind →
    g.contains parent ∧ g.contains child ∧ parent ≠ child
  once : ∀ name node, g.get? name = some node →
    (node.dependencies.map Edge.name).Nodup ∧ node.parents.Nodup
  hasEdge_iff : ∀ parent child, parent ≠ child → ∀ kind, g.HasEdge parent child kind ↔
    preferredKind? (recordedKinds root calls parent child) = some kind

/-- Nodes stand under their names, and the order lists each of them once. -/
structure IsListed (g : ModuleGraph) : Prop where
  named : ∀ name node, g.get? name = some node → node.name = name
  listed : ∀ name, name ∈ g.order ↔ g.contains name
  once : g.order.Nodup

section Calls

variable {g : ModuleGraph}

theorem IsListed.names (h : g.IsListed) : g.inOrder.map GraphNode.name = g.order := by
  rw [inOrder, List.map_filterMap]
  refine (List.filterMap_congr fun name member => ?_).trans List.filterMap_some
  obtain ⟨node, found⟩ := contains_iff.mp ((h.listed name).mp member)
  simp [found, h.named name node found]

theorem IsListed.mem_inOrder (h : g.IsListed) {node : GraphNode} :
    node ∈ g.inOrder ↔ g.get? node.name = some node := by
  rw [inOrder, List.mem_filterMap]
  constructor
  · rintro ⟨name, _, found⟩
    rwa [h.named name node found]
  · intro found
    exact ⟨node.name, (h.listed _).mpr (contains_iff.mpr ⟨node, found⟩), found⟩

/-- Nodes that are new, and stand behind those that were there, are listed with them. -/
theorem IsListed.append {after : ModuleGraph} {names : List String} (h : g.IsListed)
    (named : ∀ name node, after.get? name = some node → node.name = name)
    (order : after.order = g.order ++ names)
    (contains : ∀ name, after.contains name = true ↔ g.contains name = true ∨ name ∈ names)
    (distinct : names.Nodup) (fresh : ∀ name ∈ names, g.contains name = false) : after.IsListed where
  named
  listed name := by rw [contains, ← h.listed, order, List.mem_append]
  once := by
    rw [order]
    refine List.nodup_append'.mpr ⟨h.once, distinct, fun name here there => ?_⟩
    rw [h.listed, fresh name there] at here
    cases here

@[simp] theorem made_nil (root : GraphNode) : made root [] = single root := rfl

theorem made_concat (root : GraphNode) (calls : List Call) (call : Call) :
    made root (calls ++ [call]) = (call.perform (made root calls)).2 := by
  simp [made, after]

theorem answers_append (calls more : List Call) :
    answers g (calls ++ more) = answers g calls ++ answers (g.after calls) more := by
  induction calls generalizing g with
  | nil => rfl
  | cons call rest ih => simp only [List.cons_append, answers, after, List.foldl_cons, ih]

theorem recordedKinds_concat (root : GraphNode) (calls : List Call) (call : Call)
    (parent child : String) : recordedKinds root (calls ++ [call]) parent child =
      recordedKinds root calls parent child ++
        (recordedKind? parent child (call, (call.perform (made root calls)).1)).toList := by
  simp only [recordedKinds, answers_append, answers, List.filterMap_append, made]
  cases found : recordedKind? parent child (call, (call.perform (after (single root) calls)).1) <;>
    simp [found]

/-- A call that is refused leaves the graph as it was. -/
theorem perform_of_isRefusal {call : Call} (refused : (call.perform g).1.isRefusal = true) :
    (call.perform g).2 = g := by
  cases call with
  | addNode node =>
      simp only [Call.perform, addNode, Answer.isRefusal] at refused ⊢
      split at refused
      · rename_i present
        rw [if_pos present]
      · cases refused
  | addEdge parent child kind =>
      simp only [Call.perform] at refused ⊢
      cases added : g.addEdge parent child kind with
      | ok next =>
          rw [added] at refused
          cases refused
      | error e => rfl

end Calls

section Kinds

theorem preferredKind?_concat (kinds : List DependencyKind) (kind : DependencyKind) :
    preferredKind? (kinds ++ [kind]) =
      some (if kind = .production then .production else (preferredKind? kinds).getD kind) := by
  by_cases production : kind = .production
  · simp [preferredKind?, production]
  · by_cases shipped : .production ∈ kinds
    · simp [preferredKind?, shipped, production]
    · cases kinds <;> simp_all [preferredKind?, eq_comm]

/-- The kind that one more call leaves of a dependency. -/
theorem find?_mergeEdge (child : String) (kind : DependencyKind) (edges : List Edge)
    (name : String) : ((mergeEdge child kind edges).find? (·.name = name)).map Edge.kind =
      if name = child then
        some (if kind = .production then .production
          else ((edges.find? (·.name = child)).map Edge.kind).getD kind)
      else (edges.find? (·.name = name)).map Edge.kind := by
  induction edges with
  | nil =>
      by_cases same : name = child
      · cases kind <;> simp [mergeEdge, same]
      · simp [mergeEdge, same, Ne.symm same]
  | cons first rest ih =>
      rw [mergeEdge]
      by_cases here : first.name = child
      · by_cases same : name = child
        · cases kind <;> simp [here, same]
        · cases kind <;> simp [here, same, Ne.symm same]
      · rw [if_neg here]
        by_cases same : first.name = name
        · have other : name ≠ child := fun e => here (same.trans e)
          simp [same, other]
        · simp [same, ih, here]

end Kinds

section Steps

variable {g : ModuleGraph}

/-- One more call leaves every other dependency as it is recorded. -/
theorem edgeTo?_addEdge {next : ModuleGraph} {parent child : String} {kind : DependencyKind}
    (added : g.addEdge parent child kind = .ok next) (distinct : parent ≠ child)
    (source target : String) : (next.get? source).bind (·.edgeTo? target) =
      if source = parent ∧ target = child then
        some (if kind = .production then .production
          else ((g.get? source).bind (·.edgeTo? target)).getD kind)
      else (g.get? source).bind (·.edgeTo? target) := by
  obtain ⟨_, hasParent, _, lookup⟩ := get?_addEdge added distinct
  rw [lookup]
  by_cases isParent : source = parent
  · obtain ⟨node, found⟩ := contains_iff.mp hasParent
    have merged := find?_mergeEdge child kind node.dependencies target
    subst isParent
    simp only [if_neg distinct, if_true, found, Option.map_some, Option.bind_some,
      GraphNode.edgeTo?, true_and, merged]
    by_cases isChild : target = child <;> simp [isChild]
  · by_cases isChild : source = child
    · subst isChild
      cases g.get? source <;> simp [isParent, GraphNode.edgeTo?]
    · simp [isParent, isChild]

theorem Consistent.hasEdge_iff_bind (h : g.Consistent) {parent child : String}
    {kind : DependencyKind} : g.HasEdge parent child kind ↔
      (g.get? parent).bind (·.edgeTo? child) = some kind := by
  rw [h.hasEdge_iff]
  exact Option.bind_eq_some_iff.symm

theorem keys_addEdge {next : ModuleGraph} {parent child : String} {kind : DependencyKind}
    (added : g.addEdge parent child kind = .ok next) : next.nodes.keys = g.nodes.keys := by
  by_cases distinct : parent = child
  · rw [addEdge, if_pos distinct] at added
    cases added
    rfl
  · exact (get?_addEdge added distinct).2.2.1

/-- What a call does to the graph. -/
theorem perform_cases (call : Call) :
    (∃ node, call = .addNode node ∧ (call.perform g).2 = (g.addNode node).2) ∨
      ∃ parent child kind, call = .addEdge parent child kind ∧
        ((∃ e, call.perform g = (.addEdge (.error e), g)) ∨
          ∃ next, g.addEdge parent child kind = .ok next ∧
            call.perform g = (.addEdge (.ok ()), next)) := by
  cases call with
  | addNode node => exact .inl ⟨node, rfl, rfl⟩
  | addEdge parent child kind =>
      refine .inr ⟨parent, child, kind, rfl, ?_⟩
      cases added : g.addEdge parent child kind with
      | ok next => exact .inr ⟨next, rfl, by simp only [Call.perform, added]⟩
      | error e => exact .inl ⟨e, by simp only [Call.perform, added]⟩

end Steps

section Made

variable {root : GraphNode} {calls : List Call}

/-- The modules that are put into a graph depend on nothing yet. -/
def AllLoose (root : GraphNode) (calls : List Call) : Prop :=
  ∀ node ∈ root :: calls.filterMap Call.node?, IsLoose node

theorem allLoose_concat {call : Call} (loose : AllLoose root (calls ++ [call])) :
    AllLoose root calls ∧ ∀ node, call.node? = some node → IsLoose node := by
  simp only [AllLoose, List.filterMap_append] at loose ⊢
  refine ⟨fun node listed => loose node ?_, fun node brought => loose node ?_⟩
  · simp only [List.mem_cons, List.mem_append] at listed ⊢
    tauto
  · simp [brought]

theorem built_made (loose : AllLoose root calls) : (made root calls).Built := by
  induction calls using List.reverseRecOn with
  | nil =>
      obtain ⟨noParents, alone⟩ := loose root List.mem_cons_self
      exact .single root noParents alone
  | append_singleton calls call ih =>
      obtain ⟨looseCalls, looseNode⟩ := allLoose_concat loose
      have built := ih looseCalls
      rw [made_concat]
      rcases perform_cases (g := made root calls) call with
        ⟨node, rfl, done⟩ | ⟨parent, child, kind, rfl, ⟨e, done⟩ | ⟨next, added, done⟩⟩
      · obtain ⟨noParents, alone⟩ := looseNode node rfl
        exact done ▸ built.addNode node noParents alone
      · exact done ▸ built
      · exact done ▸ built.addEdge parent child kind added

/-- The order is that of the first calls that brought the modules, and lists those in the graph. -/
theorem order_made (root : GraphNode) (calls : List Call) :
    (made root calls).order =
        (root.name :: (calls.filterMap Call.node?).map GraphNode.name).eraseDups ∧
      ∀ name, name ∈ (made root calls).order ↔ (made root calls).contains name := by
  induction calls using List.reverseRecOn with
  | nil => simp [single, contains, Assoc.has_iff, List.eraseDups_cons]
  | append_singleton calls call ih =>
      obtain ⟨order, listed⟩ := ih
      rw [made_concat, List.filterMap_append]
      rcases perform_cases (g := made root calls) call with
        ⟨node, rfl, done⟩ | ⟨parent, child, kind, rfl, ⟨e, done⟩ | ⟨next, added, done⟩⟩
      · have behind : [Call.addNode node].filterMap Call.node? = [node] := rfl
        rw [done, behind, List.map_append, ← List.cons_append, List.map_singleton,
          eraseDups_concat, ← order]
        simp only [listed node.name]
        cases present : (made root calls).contains node.name with
        | true => simpa [addNode, present] using listed
        | false =>
            refine ⟨by simp [addNode, present], fun name => ?_⟩
            rw [contains_addNode present, ← listed]
            simp [addNode, present]
      all_goals
        have behind : [Call.addEdge parent child kind].filterMap Call.node? = [] := rfl
        rw [done, behind, List.append_nil]
      · exact ⟨order, listed⟩
      · refine ⟨(order_addEdge added).trans order, fun name => ?_⟩
        rw [order_addEdge added, listed, contains_of_keys (keys_addEdge added)]

theorem recordedKind?_accepted {source target parent child : String} (kind : DependencyKind) :
    recordedKind? source target (.addEdge parent child kind, .addEdge (.ok ())) =
      if source = parent ∧ target = child then some kind else none := by
  simp [recordedKind?, Answer.isRefusal, Except.toOption]

/-- A dependency has the kind that is preferred among those of the accepted calls. -/
theorem hasEdge_made (loose : AllLoose root calls) {source target : String}
    (distinct : source ≠ target) (kind : DependencyKind) :
    (made root calls).HasEdge source target kind ↔
      preferredKind? (recordedKinds root calls source target) = some kind := by
  induction calls using List.reverseRecOn generalizing kind with
  | nil =>
      have alone := (loose root List.mem_cons_self).2
      have none : preferredKind? (recordedKinds root [] source target) = none := rfl
      simp [none, not_hasEdge_single alone]
  | append_singleton calls call ih =>
      have consistent := (built_made loose).consistent
      obtain ⟨looseCalls, looseNode⟩ := allLoose_concat loose
      have before := ih looseCalls
      rw [made_concat] at consistent ⊢
      rw [recordedKinds_concat]
      rcases perform_cases (g := made root calls) call with
        ⟨node, rfl, done⟩ | ⟨parent, child, recorded, rfl, ⟨e, done⟩ | ⟨next, added, done⟩⟩
      · obtain ⟨noParents, alone⟩ := looseNode node rfl
        rw [done, hasEdge_addNode alone, before]
        simp [recordedKind?]
      · rw [done, before]
        simp [recordedKind?, Answer.isRefusal, Except.toOption]
      · have kept : ((made root calls).get? source).bind (·.edgeTo? target) =
            preferredKind? (recordedKinds root calls source target) := by
          refine Option.ext fun kind => ?_
          rw [← before, (built_made looseCalls).consistent.hasEdge_iff_bind]
        rw [done] at consistent ⊢
        rw [consistent.hasEdge_iff_bind, recordedKind?_accepted]
        by_cases same : parent = child
        · have other : ¬ (source = parent ∧ target = child) := by
            rintro ⟨rfl, rfl⟩
            exact distinct same
          rw [addEdge, if_pos same] at added
          cases added
          simp [kept, other]
        · rw [edgeTo?_addEdge added same, kept]
          by_cases here : source = parent ∧ target = child
          · simp [here, preferredKind?_concat]
          · simp [here]

/-- Whatever is asked of a graph, its parts tell the same, and what it refuses changes nothing. -/
theorem made_tells (root : GraphNode) (calls : List Call) (loose : AllLoose root calls) :
    (made root calls).Tells root calls ∧ ∀ call : Call,
      (call.perform (made root calls)).1.isRefusal = true →
        made root (calls ++ [call]) = made root calls := by
  have consistent := (built_made loose).consistent
  obtain ⟨order, listed⟩ := order_made root calls
  refine ⟨?_, fun call refused => (made_concat root calls call).trans (perform_of_isRefusal refused)⟩
  refine
    { named := consistent.named
      order := order
      listed := listed
      listedOnce := order ▸ nodup_eraseDups _
      inOrder := IsListed.names ⟨consistent.named, listed, order ▸ nodup_eraseDups _⟩
      dependencies_iff := fun parent child => ?_
      known := fun parent child kind edge => ?_
      once := fun name node found =>
        ⟨consistent.once name node found, (consistent.parentsAscending name node found).nodup⟩
      hasEdge_iff := fun parent child distinct kind => hasEdge_made loose distinct kind }
  · rw [← exists_hasEdge_iff]
    constructor
    · rintro ⟨kind, edge⟩
      obtain ⟨node, found⟩ := contains_iff.mp (consistent.known _ _ _ edge).1
      exact ⟨node, found, (consistent.parents_iff child node found parent).mpr ⟨kind, edge⟩⟩
    · rintro ⟨node, found, member⟩
      exact (consistent.parents_iff child node found parent).mp member
  · obtain ⟨hasChild, other⟩ := consistent.known _ _ _ edge
    exact ⟨edge.contains, hasChild, other.symm⟩

end Made

/-- Calls of which three are refused: a second module of a name, and dependencies with an unknown
end. One dependency is recorded twice. -/
def callsSample : List Call :=
  [.addNode { name := "lib", dir := ⟨"lib"⟩ }, .addEdge "app" "lib" .development,
    .addNode { name := "lib", dir := ⟨"other"⟩ }, .addEdge "app" "ghost" .production,
    .addEdge "ghost" "lib" .peer, .addEdge "app" "lib" .production, .addEdge "lib" "app" .peer,
    .addEdge "lib" "lib" .production]

theorem made_tells_sample :
    let root : GraphNode := { name := "app", dir := ⟨"app"⟩, main := true }
    AllLoose root callsSample ∧ (made root callsSample).Tells root callsSample ∧
      made root (callsSample ++ [.addEdge "app" "ghost" .peer]) = made root callsSample ∧
      recordedKinds root callsSample "app" "lib" = [.development, .production] ∧
      (made root callsSample).order = ["app", "lib"] := by
  intro root
  have loose : AllLoose root callsSample := by
    rw [AllLoose]
    decide
  obtain ⟨tells, unchanged⟩ := made_tells root callsSample loose
  exact ⟨loose, tells, unchanged (.addEdge "app" "ghost" .peer) (by decide), by decide, by decide⟩

end WorkspaceBuild.ModuleGraph
