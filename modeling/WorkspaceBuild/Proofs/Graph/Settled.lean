import WorkspaceBuild.Proofs.Graph.Rounds

/-! # Settled graphs

What the values mean that settling gives: a module is shipped when production dependencies lead to
it from the workspace's own module, and has the roles that it declares or that flow into it. These
equations have one solution, so neither earlier values nor the order of construction matter.
-/

namespace WorkspaceBuild

instance : Std.TransOrd Role := transOrd_of_index fun a b =>
  (rfl : compare a b = compare a.ctorIdx b.ctorIdx)

instance : Std.LawfulEqOrd Role :=
  lawfulEqOrd_of_index (fun a b => (rfl : compare a b = compare a.ctorIdx b.ctorIdx)) (by
    intro a b same
    cases a <;> cases b <;> first | rfl | cases same)

section Roles

theorem mem_unionRoles {a b : List Role} {role : Role} :
    role ∈ unionRoles a b ↔ role ∈ a ∨ role ∈ b := by
  rw [unionRoles]
  induction b generalizing a with
  | nil => simp
  | cons first rest ih =>
      rw [List.foldl_cons, ih, mem_insertAscending, List.mem_cons]
      tauto

theorem isAscending_unionRoles {a : List Role} (h : IsAscending a) (b : List Role) :
    IsAscending (unionRoles a b) := by
  rw [unionRoles]
  induction b generalizing a with
  | nil => exact h
  | cons first rest ih => exact ih (h.insert first)

/-- A role that flows along a dependency of a kind, from a module of some roles. -/
def FlowsAlong (parentRoles : List Role) (kind : DependencyKind) (role : Role) : Prop :=
  if kind = .development then role = .test else role ∈ parentRoles

theorem mem_edgeRoles {parentRoles : List Role} {kind : DependencyKind} {role : Role} :
    role ∈ edgeRoles parentRoles kind ↔ FlowsAlong parentRoles kind role := by
  cases kind <;> simp [edgeRoles, FlowsAlong]

end Roles

/-- A module as it was given, without what a graph records and settles. -/
def GraphNode.given (node : GraphNode) : GraphNode :=
  { node with prod := false, roles := [], parents := [], dependencies := [] }

namespace ModuleGraph

open Relation

variable {g : ModuleGraph}

/-- Production dependencies lead to a module from the workspace's own one, or it is that. -/
def IsShipped (g : ModuleGraph) (name : String) : Prop :=
  ∃ root node, g.get? root = some node ∧ node.main = true ∧
    ReflTransGen (fun parent child => g.HasEdge parent child .production) root name

/-- A module declares a role, or inherits it from a module that depends on it. -/
def Receives (g : ModuleGraph) (name : String) (node : GraphNode) (role : Role) : Prop :=
  role ∈ node.declaredRoles ∨ node.inheritRoles = true ∧ ∃ parent other kind,
    g.get? parent = some other ∧ ⟨name, kind⟩ ∈ other.dependencies ∧
      FlowsAlong other.roles kind role

/-- The equations that a settled module satisfies. -/
structure IsSettled (g : ModuleGraph) (name : String) (node : GraphNode) : Prop where
  prod : node.prod = true ↔ g.IsShipped name
  roots : node.main = true ∨ node.roleRoot = true → node.roles = [.standard]
  roles : node.main = false → node.roleRoot = false → ∀ role, role ∈ node.roles ↔
    g.Receives name node role ∨ role = .standard ∧ ∀ other, ¬ g.Receives name node other
  ascending : IsAscending node.declaredRoles → IsAscending node.roles

section Equations

theorem mem_parentEdges (h : g.Consistent) {name : String} {node : GraphNode}
    (found : g.get? name = some node) {other : GraphNode} {kind : DependencyKind} :
    (other, kind) ∈ g.parentEdges node name ↔
      ∃ parent, g.get? parent = some other ∧ ⟨name, kind⟩ ∈ other.dependencies := by
  simp only [parentEdges, List.mem_filterMap, Option.bind_eq_some_iff, Option.map_eq_some_iff,
    Prod.mk.injEq]
  constructor
  · rintro ⟨parent, _, _, present, _, selected, rfl, rfl⟩
    exact ⟨parent, present, (h.edgeTo?_eq_some_iff present).mp selected⟩
  · rintro ⟨parent, present, member⟩
    have listed : parent ∈ node.parents :=
      (h.parents_iff name node found parent).mpr ⟨kind, other, present, member⟩
    exact ⟨parent, listed, other, present, kind, (h.edgeTo?_eq_some_iff present).mpr member, rfl, rfl⟩

theorem isShipped_iff {edges : List (GraphNode × DependencyKind)} :
    isShipped edges ↔ ∃ other, (other, .production) ∈ edges ∧ other.prod = true := by
  simp only [isShipped, List.any_eq_true, Bool.and_eq_true, decide_eq_true_iff]
  constructor
  · rintro ⟨⟨other, kind⟩, member, shipped, rfl⟩
    exact ⟨other, member, shipped⟩
  · rintro ⟨other, member, shipped⟩
    exact ⟨(other, .production), member, shipped, rfl⟩

theorem mem_flowingRoles {node : GraphNode} {edges : List (GraphNode × DependencyKind)}
    {role : Role} : role ∈ flowingRoles node edges ↔
      role ∈ node.declaredRoles ∨ node.inheritRoles = true ∧
        ∃ other kind, (other, kind) ∈ edges ∧ FlowsAlong other.roles kind role := by
  have folded (roles : List Role) :
      role ∈ edges.foldl (fun roles edge => unionRoles roles (edgeRoles edge.1.roles edge.2)) roles ↔
        role ∈ roles ∨ ∃ other kind, (other, kind) ∈ edges ∧ FlowsAlong other.roles kind role := by
    induction edges generalizing roles with
    | nil => simp
    | cons first rest ih =>
        rw [List.foldl_cons, ih, mem_unionRoles, mem_edgeRoles, or_assoc]
        refine or_congr_right ⟨?_, ?_⟩
        · rintro (own | ⟨other, kind, member, flows⟩)
          · exact ⟨first.1, first.2, List.mem_cons_self, own⟩
          · exact ⟨other, kind, List.mem_cons_of_mem _ member, flows⟩
        · rintro ⟨other, kind, member, flows⟩
          rcases List.mem_cons.mp member with rfl | member
          · exact .inl flows
          · exact .inr ⟨other, kind, member, flows⟩
  rw [flowingRoles]
  split
  · rename_i inherits
    rw [folded, inherits]
    simp
  · rename_i own
    simp [own]

theorem isAscending_flowingRoles {node : GraphNode} (h : IsAscending node.declaredRoles)
    (edges : List (GraphNode × DependencyKind)) : IsAscending (flowingRoles node edges) := by
  rw [flowingRoles]
  split
  · generalize node.declaredRoles = roles at h
    induction edges generalizing roles with
    | nil => exact h
    | cons first rest ih => exact ih _ (isAscending_unionRoles h _)
  · exact h

end Equations

/-- The names whose dependencies upward all end, in a graph where these have their final values. -/
def FixedAbove (g : ModuleGraph) : Prop := ∀ name, Acc g.Flows name → g.IsFixed name

theorem isShipped_step {name : String} {node : GraphNode} (found : g.get? name = some node)
    (ordinary : node.main = false) :
    g.IsShipped name ↔ ∃ parent, g.HasEdge parent name .production ∧ g.IsShipped parent := by
  constructor
  · rintro ⟨root, top, present, isMain, path⟩
    rcases ReflTransGen.cases_tail path with rfl | ⟨parent, before, edge⟩
    · rw [found] at present
      cases present
      simp [ordinary] at isMain
    · exact ⟨parent, edge, root, top, present, isMain, before⟩
  · rintro ⟨parent, edge, root, top, present, isMain, before⟩
    exact ⟨root, top, present, isMain, before.tail edge⟩

/-- Final values satisfy the equation of what is shipped. -/
theorem prod_iff_isShipped (h : g.Consistent) (fixed : g.FixedAbove) {name : String}
    (ends : Acc g.Flows name) {node : GraphNode} (found : g.get? name = some node) :
    node.prod = true ↔ g.IsShipped name := by
  induction ends generalizing node with
  | intro name above ih =>
      have value := fixed name ⟨name, above⟩ node found
      cases isMain : node.main with
      | true =>
          have shipped : node.prod = true := by rw [← value, settled, if_pos isMain]
          exact iff_of_true shipped ⟨name, node, found, isMain, .refl⟩
      | false =>
          have shipped : node.prod = isShipped (g.parentEdges node name) := by
            conv_lhs => rw [← value, settled, if_neg (by simp [isMain])]
          rw [shipped, isShipped_iff, isShipped_step found isMain]
          simp only [mem_parentEdges h found]
          have same {parent : String} {other : GraphNode} (present : g.get? parent = some other)
              (edge : g.HasEdge parent name .production) :
              other.prod = true ↔ g.IsShipped parent :=
            ih parent ⟨⟨node, found, isMain⟩, _, edge⟩ present
          constructor
          · rintro ⟨other, ⟨parent, present, member⟩, isProd⟩
            have edge : g.HasEdge parent name .production := ⟨other, present, member⟩
            exact ⟨parent, edge, (same present edge).mp isProd⟩
          · rintro ⟨parent, ⟨other, present, member⟩, isProd⟩
            exact ⟨other, ⟨parent, present, member⟩, (same present ⟨other, present, member⟩).mpr isProd⟩

/-- Final values satisfy the equations of a settled module. -/
theorem isSettled_of_fixed (h : g.Consistent) (fixed : g.FixedAbove) {name : String}
    (ends : Acc g.Flows name) {node : GraphNode} (found : g.get? name = some node) :
    g.IsSettled name node := by
  have value := fixed name ends node found
  have receives (role : Role) :
      role ∈ flowingRoles node (g.parentEdges node name) ↔ g.Receives name node role := by
    rw [mem_flowingRoles, Receives]
    simp only [mem_parentEdges h found]
    refine or_congr_right (and_congr_right fun _ => ⟨?_, ?_⟩)
    · rintro ⟨other, kind, ⟨parent, present, member⟩, flows⟩
      exact ⟨parent, other, kind, present, member, flows⟩
    · rintro ⟨parent, other, kind, present, member, flows⟩
      exact ⟨other, kind, ⟨parent, present, member⟩, flows⟩
  have roles : node.roles = if node.main || node.roleRoot ||
      (flowingRoles node (g.parentEdges node name)).isEmpty then [.standard]
      else flowingRoles node (g.parentEdges node name) := by
    conv_lhs => rw [← value, settled]
    cases node.main <;> rfl
  refine
    { prod := prod_iff_isShipped h fixed ends found
      roots := fun isRoot => ?_
      roles := fun ordinary noRoot role => ?_
      ascending := fun declared => ?_ }
  · rw [roles, if_pos]
    rcases isRoot with isRoot | isRoot <;> simp [isRoot]
  · rw [roles]
    simp only [ordinary, noRoot, Bool.false_or, List.isEmpty_iff, ← receives]
    split
    · rename_i none
      simp [none]
    · rename_i some
      obtain ⟨first, member⟩ := List.exists_mem_of_ne_nil _ some
      refine (or_iff_left ?_).symm
      rintro ⟨_, noRole⟩
      exact noRole first member
  · rw [roles]
    split
    · exact List.pairwise_singleton _ _
    · exact isAscending_flowingRoles declared _

/-- Two graphs of the same modules and dependencies, whatever the order in which they were added
and whatever values the modules had. -/
structure Alike (g other : ModuleGraph) : Prop where
  given : ∀ name, (other.get? name).map GraphNode.given = (g.get? name).map GraphNode.given
  edges : ∀ parent child kind, other.HasEdge parent child kind ↔ g.HasEdge parent child kind

theorem SameShape.alike {next : ModuleGraph} (h : SameShape g next) : Alike g next where
  given := by
    intro name
    have same := congrArg (Option.map GraphNode.given) (h.bare name)
    rw [Option.map_map, Option.map_map] at same
    exact same
  edges := fun _ _ _ => h.hasEdge_iff

namespace Alike

variable {other : ModuleGraph}

theorem symm (h : Alike g other) : Alike other g :=
  ⟨fun name => (h.given name).symm, fun parent child kind => (h.edges parent child kind).symm⟩

theorem trans {last : ModuleGraph} (h : Alike g other) (next : Alike other last) : Alike g last :=
  ⟨fun name => (next.given name).trans (h.given name),
    fun parent child kind => (next.edges parent child kind).trans (h.edges parent child kind)⟩

theorem get? (h : Alike g other) {name : String} {node : GraphNode}
    (found : g.get? name = some node) :
    ∃ twin, other.get? name = some twin ∧ twin.given = node.given := by
  have same := h.given name
  rw [found, Option.map_some, Option.map_eq_some_iff] at same
  exact same

theorem flows (h : Alike g other) {parent child : String} (flow : g.Flows parent child) :
    other.Flows parent child := by
  obtain ⟨⟨node, found, ordinary⟩, kind, edge⟩ := flow
  obtain ⟨twin, present, same⟩ := h.get? found
  have main : twin.main = node.main := (congrArg GraphNode.main same :)
  exact ⟨⟨twin, present, main.trans ordinary⟩, kind, (h.edges parent child kind).mpr edge⟩

theorem flows_eq (h : Alike g other) : other.Flows = g.Flows :=
  funext fun _ => funext fun _ => propext ⟨h.symm.flows, h.flows⟩

theorem edgeTo?_eq (h : Alike g other) (hg : g.Consistent) (ho : other.Consistent)
    {parent : String} {node twin : GraphNode} (found : g.get? parent = some node)
    (present : other.get? parent = some twin) (child : String) :
    twin.edgeTo? child = node.edgeTo? child := by
  have recorded {graph : ModuleGraph} {n : GraphNode} (known : graph.get? parent = some n)
      (edge : Edge) : edge ∈ n.dependencies ↔ graph.HasEdge parent edge.name edge.kind := by
    simp [HasEdge, known]
  refine Option.ext fun kind => ?_
  rw [ho.edgeTo?_eq_some_iff present, hg.edgeTo?_eq_some_iff found, recorded present,
    recorded found]
  exact h.edges parent child kind

theorem parents_eq (h : Alike g other) (hg : g.Consistent) (ho : other.Consistent)
    {name : String} {node twin : GraphNode} (found : g.get? name = some node)
    (present : other.get? name = some twin) : twin.parents = node.parents := by
  refine (ho.parentsAscending name twin present).ext (hg.parentsAscending name node found) ?_
  intro parent
  rw [ho.parents_iff name twin present, hg.parents_iff name node found]
  exact exists_congr fun kind => h.edges parent name kind

end Alike

section Uniqueness

/-- What settling reads of a module that depends on another. -/
def drawn (edge : GraphNode × DependencyKind) : Bool × List Role × DependencyKind :=
  (edge.1.prod, edge.1.roles, edge.2)

theorem isShipped_congr {edges others : List (GraphNode × DependencyKind)}
    (same : edges.map drawn = others.map drawn) : isShipped edges = isShipped others := by
  have reads (edges : List (GraphNode × DependencyKind)) :
      isShipped edges = (edges.map drawn).any fun d => d.1 && d.2.2 = .production := by
    rw [List.any_map]
    rfl
  rw [reads, reads, same]

theorem flowingRoles_congr {node twin : GraphNode}
    {edges others : List (GraphNode × DependencyKind)} (same : edges.map drawn = others.map drawn)
    (given : node.given = twin.given) : flowingRoles node edges = flowingRoles twin others := by
  have reads (node : GraphNode) (edges : List (GraphNode × DependencyKind)) :
      flowingRoles node edges = if node.given.inheritRoles then (edges.map drawn).foldl
        (fun roles d => unionRoles roles (edgeRoles d.2.1 d.2.2)) node.given.declaredRoles
        else node.given.declaredRoles := by
    rw [List.foldl_map]
    rfl
  rw [reads, reads, same, given]

/-- The equations have one solution where dependencies end: final values do not depend on the
graph that they were found in. -/
theorem values_unique {other : ModuleGraph} (hg : g.Consistent) (ho : other.Consistent)
    (alike : Alike g other) (fixed : g.FixedAbove) (fixedOther : other.FixedAbove) {name : String}
    (ends : Acc g.Flows name) {node twin : GraphNode} (found : g.get? name = some node)
    (present : other.get? name = some twin) :
    twin.prod = node.prod ∧ twin.roles = node.roles := by
  induction ends generalizing node twin with
  | intro name above ih =>
      have ends : Acc g.Flows name := ⟨name, above⟩
      have endsOther : Acc other.Flows name := alike.flows_eq ▸ ends
      rw [← fixed name ends node found, ← fixedOther name endsOther twin present]
      have given : twin.given = node.given := by
        have same := alike.given name
        rw [found, present] at same
        exact Option.some_inj.mp same
      have sameMain : twin.main = node.main := (congrArg GraphNode.main given :)
      have sameRoot : twin.roleRoot = node.roleRoot := (congrArg GraphNode.roleRoot given :)
      cases isMain : node.main with
      | true => simp [settled, sameMain, isMain]
      | false =>
          -- both read the same values of the same modules
          have reads : (other.parentEdges twin name).map drawn =
              (g.parentEdges node name).map drawn := by
            rw [parentEdges, parentEdges, List.map_filterMap, List.map_filterMap,
              alike.parents_eq hg ho found present]
            refine List.filterMap_congr fun parent listed => ?_
            obtain ⟨kind, source, known, member⟩ := (hg.parents_iff name node found parent).mp listed
            obtain ⟨sourceTwin, knownTwin, _⟩ := alike.get? known
            have flow : g.Flows parent name := ⟨⟨node, found, isMain⟩, kind, source, known, member⟩
            obtain ⟨prod, roles⟩ := ih parent flow known knownTwin
            simp [known, knownTwin, alike.edgeTo?_eq hg ho known knownTwin, drawn, prod, roles,
              Function.comp_def]
          simp only [settled, sameMain, sameRoot, isMain, isShipped_congr reads,
            flowingRoles_congr reads given]
          simp

end Uniqueness

/-- A module that the answer of settling names as one that could not be settled. -/
def Unresolved (g : ModuleGraph) (name : String) : Prop :=
  ∃ names, g.complete.1 = .error (.circular names) ∧ name ∈ names

/-- Settling a graph gives all that is not unresolved its values, and changes nothing else. -/
structure Settles (g : ModuleGraph) : Prop where
  shape : SameShape g g.complete.2
  settled : ∀ name node, g.complete.2.get? name = some node → ¬ g.Unresolved name →
    g.complete.2.IsSettled name node
  untouched : ∀ name, g.Unresolved name → g.complete.2.get? name = g.get? name
  unordered : ∀ other, other.Built → Alike g other → other.complete.1 = g.complete.1 ∧
    ∀ name, ¬ g.Unresolved name →
      (other.complete.2.get? name).map (fun n => (n.prod, n.roles)) =
        (g.complete.2.get? name).map fun n => (n.prod, n.roles)
  again : g.complete.2.complete = g.complete

section Completion

variable {last : ModuleGraph × Waiting}

theorem Progress.fixedAbove (h : Progress g last) (stuck : ready last.2 = []) :
    last.1.FixedAbove := by
  intro name ends
  refine h.fixed name fun waiting => (h.mem_keys_iff stuck).mp waiting ?_
  rwa [← h.shape.alike.flows_eq]

theorem unresolved_iff (answer : g.complete =
    (if last.2 = [] then .ok () else .error (.circular last.2.keys), last.1)) {name : String} :
    g.Unresolved name ↔ name ∈ last.2.keys := by
  rw [Unresolved, answer]
  split
  · rename_i allSettled
    simp [allSettled]
  · simp

/-- Alike graphs leave the same modules waiting. -/
theorem keys_eq_of_alike {other : ModuleGraph} {lastOther : ModuleGraph × Waiting}
    (h : Progress g last) (stuck : ready last.2 = []) (ho : Progress other lastOther)
    (stuckOther : ready lastOther.2 = []) (alike : Alike g other) :
    lastOther.2.keys = last.2.keys := by
  refine ho.ascending.ext h.ascending fun name => ?_
  rw [ho.mem_keys_iff stuckOther, h.mem_keys_iff stuck, alike.flows_eq]

theorem answer_congr {left right : Waiting} (same : left.keys = right.keys) :
    (if left = [] then .ok () else .error (.circular left.keys) : Except PackageError Unit) =
      if right = [] then .ok () else .error (.circular right.keys) := by
  have empty (waiting : Waiting) : waiting = [] ↔ waiting.keys = [] := List.map_eq_nil_iff.symm
  simp only [empty, same]

/-- Values found in alike graphs agree, also where a module is in neither. -/
theorem values_eq_of_alike {other : ModuleGraph} (hg : g.Consistent) (ho : other.Consistent)
    (alike : Alike g other) (fixed : g.FixedAbove) (fixedOther : other.FixedAbove) {name : String}
    (ends : Acc g.Flows name) :
    (other.get? name).map (fun n => (n.prod, n.roles)) =
      (g.get? name).map fun n => (n.prod, n.roles) := by
  cases found : g.get? name with
  | none =>
      have absent := alike.given name
      rw [found, Option.map_none, Option.map_eq_none_iff] at absent
      rw [absent]
  | some node =>
      obtain ⟨twin, present, _⟩ := alike.get? found
      obtain ⟨prod, roles⟩ := values_unique hg ho alike fixed fixedOther ends found present
      rw [present, Option.map_some, Option.map_some, prod, roles]

/-- Settling a settled graph again finds the same values. -/
theorem Progress.eq_of_again {again : ModuleGraph × Waiting} (hg : g.Consistent)
    (h : Progress g last) (stuck : ready last.2 = []) (ha : Progress last.1 again)
    (stuckAgain : ready again.2 = []) : again.1 = last.1 := by
  have consistent := h.shape.consistent hg
  have consistentAgain := ha.shape.consistent consistent
  refine ha.shape.eq_of_get? consistent fun name => ?_
  by_cases waiting : name ∈ again.2.keys
  · exact ha.untouched name waiting
  · have ends : Acc last.1.Flows name := by
      rwa [ha.mem_keys_iff stuckAgain, not_not] at waiting
    cases found : last.1.get? name with
    | none =>
        have absent := ha.shape.bare name
        rwa [found, Option.map_none, Option.map_eq_none_iff] at absent
    | some node =>
        obtain ⟨twin, present, bare⟩ := ha.shape.get? found
        obtain ⟨prod, roles⟩ := values_unique consistent consistentAgain ha.shape.alike
          (h.fixedAbove stuck) (ha.fixedAbove stuckAgain) ends found present
        rw [present, GraphNode.eq_of_bare bare prod roles]

end Completion

theorem Built.settles (built : g.Built) : g.Settles := by
  have consistent := built.consistent
  obtain ⟨_, _, last, _, progress, stuck, answer⟩ := complete_eq_rounds consistent
  have unresolved (name : String) : g.Unresolved name ↔ name ∈ last.2.keys := unresolved_iff answer
  have next : g.complete.2 = last.1 := by rw [answer]
  have nextConsistent := progress.shape.consistent consistent
  have ends (name : String) (resolved : ¬ g.Unresolved name) : Acc last.1.Flows name := by
    rw [unresolved, progress.mem_keys_iff stuck, not_not] at resolved
    rwa [progress.shape.alike.flows_eq]
  refine
    { shape := next ▸ progress.shape
      settled := fun name node found resolved => ?_
      untouched := fun name waiting => ?_
      unordered := fun other builtOther alike => ?_
      again := ?_ }
  · rw [next] at found ⊢
    exact isSettled_of_fixed nextConsistent (progress.fixedAbove stuck) (ends name resolved) found
  · rw [next]
    exact progress.untouched name ((unresolved name).mp waiting)
  · obtain ⟨_, _, lastOther, _, progressOther, stuckOther, answerOther⟩ :=
      complete_eq_rounds builtOther.consistent
    have keys := keys_eq_of_alike progress stuck progressOther stuckOther alike
    refine ⟨by rw [answer, answerOther, answer_congr keys], fun name resolved => ?_⟩
    have alikeLast : Alike last.1 lastOther.1 :=
      (progress.shape.symm.alike.trans alike).trans progressOther.shape.alike
    rw [next, answerOther]
    exact values_eq_of_alike nextConsistent
      (progressOther.shape.consistent builtOther.consistent) alikeLast (progress.fixedAbove stuck)
      (progressOther.fixedAbove stuckOther) (ends name resolved)
  · obtain ⟨_, _, again, _, progressAgain, stuckAgain, answerAgain⟩ :=
      complete_eq_rounds nextConsistent
    have keys := keys_eq_of_alike progress stuck progressAgain stuckAgain progress.shape.alike
    rw [next, answerAgain, answer, answer_congr keys,
      progress.eq_of_again consistent stuck progressAgain stuckAgain]

/-- A library that the workspace ships and tests, with a peer that only its own way ships. -/
def settledSample : Except PackageError ModuleGraph :=
  let modules := ["library", "suite", "leaf"].foldl
    (fun g name => (g.addNode { name, dir := ⟨name⟩, prod := true, roles := [.doc] }).2)
    (single { name := "app", dir := ⟨"app"⟩, main := true })
  modules.addEdges
    [("app", "library", .production), ("app", "suite", .development),
      ("suite", "library", .production), ("library", "leaf", .peer), ("suite", "leaf", .production)]

theorem built_of_settledSample {g : ModuleGraph} (made : settledSample = .ok g) : g.Built := by
  refine Built.addEdges ?_ _ made
  repeat refine .addNode ?_ _ rfl rfl
  exact .single _ rfl rfl

theorem settles_sample : ∃ g, settledSample = .ok g ∧ g.Settles ∧ g.complete.1 = .ok () ∧
    g.complete.2.nodes.values.map (fun node => (node.name, node.prod, node.roles)) =
      [("app", true, [.standard]), ("leaf", false, [.standard, .test]),
        ("library", true, [.standard, .test]), ("suite", false, [.test])] := by
  refine ⟨_, rfl, Built.settles (built_of_settledSample rfl), ?_⟩
  decide

end ModuleGraph

end WorkspaceBuild
