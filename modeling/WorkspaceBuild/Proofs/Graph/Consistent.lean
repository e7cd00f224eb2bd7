import WorkspaceBuild.Package.Graph
import WorkspaceBuild.Proofs.Assoc
import Mathlib.Logic.Relation

/-! # Consistent graphs

Modules are put into a graph without dependencies, and dependencies are recorded on both of their
ends. So the two ends always agree: this is the invariant on which settling a graph rests.
-/

namespace WorkspaceBuild.ModuleGraph

/-- A graph that was made by adding modules and dependencies. A dependency that is refused leaves
the graph as it was. -/
inductive Built : ModuleGraph → Prop where
  | single (root : GraphNode) (noParents : root.parents = []) (alone : root.dependencies = []) :
      Built (.single root)
  | addNode {g : ModuleGraph} (built : Built g) (node : GraphNode) (noParents : node.parents = [])
      (alone : node.dependencies = []) : Built (g.addNode node).2
  | addEdge {g next : ModuleGraph} (built : Built g) (parent child : String)
      (kind : DependencyKind) (added : g.addEdge parent child kind = .ok next) : Built next

/-- A module depends on another. -/
def HasEdge (g : ModuleGraph) (parent child : String) (kind : DependencyKind) : Prop :=
  ∃ node, g.get? parent = some node ∧ ⟨child, kind⟩ ∈ node.dependencies

/-- What a graph of modules and dependencies is like, however it was made. -/
structure Consistent (g : ModuleGraph) : Prop where
  ascending : IsAscending g.nodes.keys
  named : ∀ name node, g.get? name = some node → node.name = name
  parents_iff : ∀ name node, g.get? name = some node →
    ∀ parent, parent ∈ node.parents ↔ ∃ kind, g.HasEdge parent name kind
  parentsAscending : ∀ name node, g.get? name = some node → IsAscending node.parents
  known : ∀ parent child kind, g.HasEdge parent child kind → g.contains child ∧ child ≠ parent
  once : ∀ name node, g.get? name = some node → (node.dependencies.map Edge.name).Nodup

section Operations

variable {g : ModuleGraph}

theorem contains_iff {name : String} : g.contains name ↔ ∃ node, g.get? name = some node :=
  Option.isSome_iff_exists

theorem get?_update (name : String) (change : GraphNode → GraphNode) (other : String) :
    (g.update name change).get? other =
      if other = name then (g.get? other).map change else g.get? other := by
  rw [get?, update, Assoc.get?_update]
  simp only [beq_iff_eq]
  rfl

@[simp] theorem keys_update (name : String) (change : GraphNode → GraphNode) :
    (g.update name change).nodes.keys = g.nodes.keys := Assoc.keys_update _ _ _

theorem HasEdge.contains {parent child : String} {kind : DependencyKind}
    (h : g.HasEdge parent child kind) : g.contains parent := by
  obtain ⟨node, found, _⟩ := h
  exact contains_iff.mpr ⟨node, found⟩

theorem exists_hasEdge_iff {parent child : String} : (∃ kind, g.HasEdge parent child kind) ↔
    ∃ node, g.get? parent = some node ∧ child ∈ node.dependencies.map Edge.name := by
  constructor
  · rintro ⟨kind, node, found, member⟩
    exact ⟨node, found, List.mem_map_of_mem member⟩
  · rintro ⟨node, found, member⟩
    obtain ⟨edge, recorded, rfl⟩ := List.mem_map.mp member
    exact ⟨edge.kind, node, found, recorded⟩

theorem of_get?_single {root : GraphNode} {name : String} {node : GraphNode}
    (found : (single root).get? name = some node) : name = root.name ∧ node = root := by
  have member := Assoc.mem_of_get? found
  rw [single, List.mem_singleton, Prod.mk.injEq] at member
  exact member

theorem not_hasEdge_single {root : GraphNode} (alone : root.dependencies = [])
    {parent child : String} {kind : DependencyKind} :
    ¬ (single root).HasEdge parent child kind := by
  rintro ⟨node, found, member⟩
  obtain ⟨_, rfl⟩ := of_get?_single found
  simp [alone] at member

theorem get?_addNode {node : GraphNode} (fresh : g.contains node.name = false) (name : String) :
    (g.addNode node).2.get? name = if name = node.name then some node else g.get? name := by
  rw [addNode, if_neg (by simp [fresh]), get?, Assoc.get?_put]
  simp only [beq_iff_eq]
  rfl

theorem contains_of_keys {next : ModuleGraph} (same : next.nodes.keys = g.nodes.keys) (name : String) :
    next.contains name = g.contains name := by
  rw [Bool.eq_iff_iff, contains, contains, Assoc.has_iff, Assoc.has_iff, same]

theorem contains_addNode {node : GraphNode} (fresh : g.contains node.name = false) {name : String} :
    (g.addNode node).2.contains name ↔ g.contains name ∨ name = node.name := by
  rw [contains_iff, contains_iff]
  simp only [get?_addNode fresh]
  by_cases same : name = node.name
  · simp [same]
  · simp [same]

/-- A module that is put in depends on nothing, and nothing on it. -/
theorem hasEdge_addNode {node : GraphNode} (alone : node.dependencies = [])
    {parent child : String} {kind : DependencyKind} :
    (g.addNode node).2.HasEdge parent child kind ↔ g.HasEdge parent child kind := by
  cases fresh : g.contains node.name with
  | true => simp [addNode, fresh]
  | false =>
      have unknown : g.get? node.name = none := by simpa [contains, Assoc.has, get?] using fresh
      simp only [HasEdge, get?_addNode fresh]
      by_cases new : parent = node.name
      · simp [new, unknown, alone]
      · simp [new]

theorem names_mergeEdge {child : String} {kind : DependencyKind} {edges : List Edge}
    {name : String} : name ∈ (mergeEdge child kind edges).map Edge.name ↔
      name = child ∨ name ∈ edges.map Edge.name := by
  induction edges with
  | nil => simp [mergeEdge]
  | cons first rest ih =>
      rw [mergeEdge]
      split
      · rename_i same
        split <;> simp [← same]
      · simp only [List.map_cons, List.mem_cons, ih]
        tauto

theorem nodup_mergeEdge {child : String} {kind : DependencyKind} {edges : List Edge}
    (distinct : (edges.map Edge.name).Nodup) :
    ((mergeEdge child kind edges).map Edge.name).Nodup := by
  induction edges with
  | nil => simp [mergeEdge]
  | cons first rest ih =>
      rw [mergeEdge]
      rw [List.map_cons, List.nodup_cons] at distinct
      split
      · split <;> simpa using distinct
      · rename_i other
        rw [List.map_cons, List.nodup_cons, names_mergeEdge]
        exact ⟨fun member => member.elim other distinct.1, ih distinct.2⟩

/-- What a graph with one more dependency is like, at each of its modules. -/
theorem get?_addEdge {next : ModuleGraph} {parent child : String} {kind : DependencyKind}
    (added : g.addEdge parent child kind = .ok next) (distinct : parent ≠ child) :
    g.contains child ∧ g.contains parent ∧ next.nodes.keys = g.nodes.keys ∧ ∀ name,
      next.get? name =
        if name = child then
          (g.get? name).map fun n => { n with parents := insertAscending parent n.parents }
        else if name = parent then
          (g.get? name).map fun n => { n with dependencies := mergeEdge child kind n.dependencies }
        else g.get? name := by
  rw [addEdge, if_neg distinct] at added
  split at added
  · cases added
  · split at added
    · cases added
    · rename_i hasChild hasParent
      obtain rfl := Except.ok.inj added
      refine ⟨by simpa using hasChild, by simpa using hasParent, by simp, fun name => ?_⟩
      rw [get?_update, get?_update]
      split <;> split <;> simp_all

theorem order_addEdge {next : ModuleGraph} {parent child : String} {kind : DependencyKind}
    (added : g.addEdge parent child kind = .ok next) : next.order = g.order := by
  rw [addEdge] at added
  split at added
  · cases added
    rfl
  · split at added
    · cases added
    · split at added
      · cases added
      · cases added
        rfl

end Operations

namespace Consistent

variable {g : ModuleGraph}

/-- The kind of a dependency is the one under which it is recorded. -/
theorem edgeTo?_eq_some_iff (h : g.Consistent) {parent : String} {node : GraphNode}
    (found : g.get? parent = some node) {child : String} {kind : DependencyKind} :
    node.edgeTo? child = some kind ↔ ⟨child, kind⟩ ∈ node.dependencies := by
  rw [GraphNode.edgeTo?, Option.map_eq_some_iff]
  constructor
  · rintro ⟨edge, selected, rfl⟩
    have same : edge.name = child := by simpa using List.find?_some selected
    exact same ▸ List.mem_of_find?_eq_some selected
  · intro member
    cases selected : node.dependencies.find? (·.name = child) with
    | none => simpa using List.find?_eq_none.mp selected _ member
    | some edge =>
        have same : edge.name = child := by simpa using List.find?_some selected
        have equal : edge = ⟨child, kind⟩ := List.inj_on_of_nodup_map (h.once parent node found)
          (List.mem_of_find?_eq_some selected) member same
        exact ⟨edge, rfl, by rw [equal]⟩

theorem hasEdge_iff (h : g.Consistent) {parent child : String} {kind : DependencyKind} :
    g.HasEdge parent child kind ↔
      ∃ node, g.get? parent = some node ∧ node.edgeTo? child = some kind := by
  constructor
  · rintro ⟨node, found, member⟩
    exact ⟨node, found, (h.edgeTo?_eq_some_iff found).mpr member⟩
  · rintro ⟨node, found, selected⟩
    exact ⟨node, found, (h.edgeTo?_eq_some_iff found).mp selected⟩

theorem single (root : GraphNode) (noParents : root.parents = [])
    (alone : root.dependencies = []) : (ModuleGraph.single root).Consistent := by
  have only {name : String} {node : GraphNode}
      (found : (ModuleGraph.single root).get? name = some node) : name = root.name ∧ node = root :=
    of_get?_single found
  refine
    { ascending := List.pairwise_singleton _ _
      named := fun name node found => ?_
      parents_iff := fun name node found parent => ?_
      parentsAscending := fun name node found => ?_
      known := fun parent child kind edge => absurd edge (not_hasEdge_single alone)
      once := fun name node found => ?_ }
  all_goals obtain ⟨rfl, rfl⟩ := only found
  · rfl
  · simp [noParents, not_hasEdge_single alone]
  · rw [noParents]
    exact List.Pairwise.nil
  · simp [alone]

theorem addNode (h : g.Consistent) (node : GraphNode) (noParents : node.parents = [])
    (alone : node.dependencies = []) : (g.addNode node).2.Consistent := by
  cases fresh : g.contains node.name with
  | true => simpa [ModuleGraph.addNode, fresh] using h
  | false =>
      have lookup := get?_addNode fresh
      have edges {parent child : String} {kind : DependencyKind} :
          (g.addNode node).2.HasEdge parent child kind ↔ g.HasEdge parent child kind :=
        hasEdge_addNode alone
      have keeps {name : String} (known : g.contains name) :
          (g.addNode node).2.contains name ∧ name ≠ node.name := by
        have other : name ≠ node.name := by
          rintro rfl
          simp [fresh] at known
        obtain ⟨old, found⟩ := contains_iff.mp known
        exact ⟨contains_iff.mpr ⟨old, by rw [lookup, if_neg other, found]⟩, other⟩
      refine
        { ascending := ?_
          named := fun name old found => ?_
          parents_iff := fun name old found parent => ?_
          parentsAscending := fun name old found => ?_
          known := fun parent child kind edge =>
            ⟨(keeps (h.known _ _ _ (edges.mp edge)).1).1, (h.known _ _ _ (edges.mp edge)).2⟩
          once := fun name old found => ?_ }
      · rw [ModuleGraph.addNode, if_neg (by simp [fresh])]
        exact Assoc.isAscending_put h.ascending _ _
      all_goals
        rw [lookup] at found
        split at found
      · cases found
        exact (‹name = node.name›).symm
      · exact h.named name old found
      · -- nothing depends on the new module, since every dependency was on a known one
        cases found
        simp only [noParents, List.not_mem_nil, edges, false_iff, not_exists]
        exact fun kind edge => (keeps (h.known _ _ _ edge).1).2 ‹name = node.name›
      · simp only [edges]
        exact h.parents_iff name old found parent
      · cases found
        rw [noParents]
        exact List.Pairwise.nil
      · exact h.parentsAscending name old found
      · cases found
        simp [alone]
      · exact h.once name old found

/-- A graph with one more dependency has that edge besides those it had. -/
theorem hasEdge_addEdge {next : ModuleGraph} {parent child : String} {kind : DependencyKind}
    (added : g.addEdge parent child kind = .ok next) (distinct : parent ≠ child)
    {source target : String} : (∃ k, next.HasEdge source target k) ↔
      (source = parent ∧ target = child) ∨ ∃ k, g.HasEdge source target k := by
  obtain ⟨_, hasParent, _, lookup⟩ := get?_addEdge added distinct
  obtain ⟨node, found⟩ := contains_iff.mp hasParent
  simp only [exists_hasEdge_iff, lookup]
  by_cases isParent : source = parent
  · subst isParent
    simp only [if_neg distinct, if_pos, found, Option.map_some, Option.some_inj, exists_eq_left',
      names_mergeEdge, true_and]
  · by_cases isChild : source = child
    · subst isChild
      cases g.get? source <;> simp [isParent]
    · simp [isParent, isChild]

theorem addEdge (h : g.Consistent) {next : ModuleGraph} {parent child : String}
    {kind : DependencyKind} (added : g.addEdge parent child kind = .ok next) :
    next.Consistent := by
  by_cases distinct : parent = child
  · rw [ModuleGraph.addEdge, if_pos distinct] at added
    exact Except.ok.inj added ▸ h
  obtain ⟨hasChild, hasParent, keys, lookup⟩ := get?_addEdge added distinct
  have contains {name : String} (known : g.contains name) : next.contains name := by
    rw [ModuleGraph.contains, Assoc.has_iff] at known ⊢
    rwa [keys]
  -- what the new graph holds under a name, with what it held before
  have before {name : String} {node : GraphNode} (found : next.get? name = some node) :
      ∃ old, g.get? name = some old ∧ node.name = old.name ∧
        node.parents = (if name = child then insertAscending parent old.parents else old.parents) ∧
        node.dependencies = if name = parent then mergeEdge child kind old.dependencies
          else old.dependencies := by
    rw [lookup] at found
    by_cases isChild : name = child
    · rw [if_pos isChild] at found
      obtain ⟨old, present, rfl⟩ := Option.map_eq_some_iff.mp found
      exact ⟨old, present, by simp [isChild, Ne.symm distinct]⟩
    · rw [if_neg isChild] at found
      by_cases isParent : name = parent
      · rw [if_pos isParent] at found
        obtain ⟨old, present, rfl⟩ := Option.map_eq_some_iff.mp found
        exact ⟨old, present, by simp [isParent, distinct]⟩
      · rw [if_neg isParent] at found
        exact ⟨node, found, by simp [isChild, isParent]⟩
  refine
    { ascending := keys ▸ h.ascending
      named := fun name node found => ?_
      parents_iff := fun name node found source => ?_
      parentsAscending := fun name node found => ?_
      known := fun source target k edge => ?_
      once := fun name node found => ?_ }
  · obtain ⟨old, present, sameName, _⟩ := before found
    exact sameName.trans (h.named name old present)
  · obtain ⟨old, present, _, parents, _⟩ := before found
    rw [hasEdge_addEdge added distinct, parents, ← h.parents_iff name old present]
    by_cases isChild : name = child <;> simp [isChild]
  · obtain ⟨old, present, _, parents, _⟩ := before found
    rw [parents]
    split
    · exact (h.parentsAscending name old present).insert parent
    · exact h.parentsAscending name old present
  · rcases (hasEdge_addEdge added distinct).mp ⟨k, edge⟩ with ⟨rfl, rfl⟩ | ⟨k, edge⟩
    · exact ⟨contains hasChild, Ne.symm distinct⟩
    · obtain ⟨present, other⟩ := h.known source target k edge
      exact ⟨contains present, other⟩
  · obtain ⟨old, present, _, _, dependencies⟩ := before found
    rw [dependencies]
    split
    · exact nodup_mergeEdge (h.once name old present)
    · exact h.once name old present

end Consistent

theorem Built.consistent {g : ModuleGraph} (built : g.Built) : g.Consistent := by
  induction built with
  | single root noParents alone => exact .single root noParents alone
  | addNode _ node noParents alone ih => exact ih.addNode node noParents alone
  | addEdge _ _ _ _ added ih => exact ih.addEdge added

/-- The graph with more dependencies, given by their two ends and kinds. -/
def addEdges (g : ModuleGraph) (edges : List (String × String × DependencyKind)) :
    Except PackageError ModuleGraph :=
  edges.foldlM (fun g edge => g.addEdge edge.1 edge.2.1 edge.2.2) g

theorem Built.addEdges {g next : ModuleGraph} (built : g.Built)
    (edges : List (String × String × DependencyKind)) (added : g.addEdges edges = .ok next) :
    next.Built := by
  induction edges generalizing g with
  | nil =>
      cases added
      exact built
  | cons edge rest ih =>
      rw [ModuleGraph.addEdges, List.foldlM_cons] at added
      cases first : g.addEdge edge.1 edge.2.1 edge.2.2 with
      | error e =>
          rw [first] at added
          cases added
      | ok middle =>
          rw [first] at added
          exact ih (.addEdge built _ _ _ first) added

end WorkspaceBuild.ModuleGraph
