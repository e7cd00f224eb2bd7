import WorkspaceBuild.Proofs.Graph.Consistent
import Mathlib.Logic.Function.Iterate

/-! # Rounds of settling

Settling goes in rounds over the modules that wait for none. One step keeps the invariant
`Progress`: what is settled has its final values and everything it draws from is settled too, what
waits is untouched. The rounds end after at most as many as there are modules.
-/

namespace WorkspaceBuild

/-- A module without what settling a graph gives to it. -/
def GraphNode.bare (node : GraphNode) : GraphNode := { node with prod := false, roles := [] }

theorem GraphNode.eq_of_bare {node other : GraphNode} (same : node.bare = other.bare)
    (prod : node.prod = other.prod) (roles : node.roles = other.roles) : node = other := by
  obtain ⟨⟩ := node
  obtain ⟨⟩ := other
  simp_all [bare]

namespace ModuleGraph

/-- The dependencies along which settling goes: those on modules that are not the workspace's
own. -/
def Flows (g : ModuleGraph) (parent child : String) : Prop :=
  (∃ node, g.get? child = some node ∧ node.main = false) ∧ ∃ kind, g.HasEdge parent child kind

/-- Two graphs differ at most in what settling gives. -/
structure SameShape (g next : ModuleGraph) : Prop where
  root : next.root = g.root
  order : next.order = g.order
  keys : next.nodes.keys = g.nodes.keys
  bare : ∀ name, (next.get? name).map GraphNode.bare = (g.get? name).map GraphNode.bare

namespace SameShape

variable {g next last : ModuleGraph}

theorem refl (g : ModuleGraph) : SameShape g g := ⟨rfl, rfl, rfl, fun _ => rfl⟩

theorem symm (h : SameShape g next) : SameShape next g :=
  ⟨h.root.symm, h.order.symm, h.keys.symm, fun name => (h.bare name).symm⟩

theorem trans (first : SameShape g next) (second : SameShape next last) : SameShape g last :=
  ⟨second.root.trans first.root, second.order.trans first.order, second.keys.trans first.keys,
    fun name => (second.bare name).trans (first.bare name)⟩

/-- A module of the one graph is a module of the other, up to what settling gives. -/
theorem get? (h : SameShape g next) {name : String} {node : GraphNode}
    (found : g.get? name = some node) :
    ∃ other, next.get? name = some other ∧ other.bare = node.bare := by
  have same := h.bare name
  rw [found, Option.map_some, Option.map_eq_some_iff] at same
  exact same

theorem contains (h : SameShape g next) (name : String) :
    next.contains name = g.contains name := by
  rw [Bool.eq_iff_iff, ModuleGraph.contains, ModuleGraph.contains, Assoc.has_iff, Assoc.has_iff,
    h.keys]

theorem hasEdge (h : SameShape g next) {parent child : String} {kind : DependencyKind}
    (edge : g.HasEdge parent child kind) : next.HasEdge parent child kind := by
  obtain ⟨node, found, member⟩ := edge
  obtain ⟨other, present, same⟩ := h.get? found
  have dependencies : other.dependencies = node.dependencies :=
    (congrArg GraphNode.dependencies same :)
  exact ⟨other, present, dependencies ▸ member⟩

theorem hasEdge_iff (h : SameShape g next) {parent child : String} {kind : DependencyKind} :
    next.HasEdge parent child kind ↔ g.HasEdge parent child kind :=
  ⟨h.symm.hasEdge, h.hasEdge⟩

theorem flows (h : SameShape g next) {parent child : String} (flow : g.Flows parent child) :
    next.Flows parent child := by
  obtain ⟨⟨node, found, ordinary⟩, kind, edge⟩ := flow
  obtain ⟨other, present, same⟩ := h.get? found
  have main : other.main = node.main := (congrArg GraphNode.main same :)
  exact ⟨⟨other, present, main.trans ordinary⟩, kind, h.hasEdge edge⟩

theorem eq_of_get? (h : SameShape g next) (consistent : g.Consistent)
    (same : ∀ name, next.get? name = g.get? name) : next = g := by
  have nodes : next.nodes = g.nodes :=
    Assoc.ext_get? (h.keys ▸ consistent.ascending) consistent.ascending same
  have root := h.root
  have order := h.order
  obtain ⟨⟩ := next
  obtain ⟨⟩ := g
  simp_all

theorem consistent (h : SameShape g next) (consistent : g.Consistent) : next.Consistent := by
  refine
    { ascending := h.keys ▸ consistent.ascending
      named := fun name node found => ?_
      parents_iff := fun name node found parent => ?_
      parentsAscending := fun name node found => ?_
      known := fun parent child kind edge => ?_
      once := fun name node found => ?_ }
  · obtain ⟨other, present, same⟩ := h.symm.get? found
    exact ((congrArg GraphNode.name same :)).symm.trans (consistent.named name other present)
  · obtain ⟨other, present, same⟩ := h.symm.get? found
    have parents : other.parents = node.parents := (congrArg GraphNode.parents same :)
    simp only [h.hasEdge_iff, ← parents]
    exact consistent.parents_iff name other present parent
  · obtain ⟨other, present, same⟩ := h.symm.get? found
    have parents : other.parents = node.parents := (congrArg GraphNode.parents same :)
    exact parents ▸ consistent.parentsAscending name other present
  · rw [h.contains]
    exact consistent.known parent child kind (h.hasEdge_iff.mp edge)
  · obtain ⟨other, present, same⟩ := h.symm.get? found
    have dependencies : other.dependencies = node.dependencies :=
      (congrArg GraphNode.dependencies same :)
    exact dependencies ▸ consistent.once name other present

end SameShape

section Settling

variable {g : ModuleGraph}

theorem bare_settled (name : String) (node : GraphNode) :
    (g.settled name node).bare = node.bare := by
  unfold settled
  split <;> rfl

/-- What settling gives to a module does not depend on what it had. -/
theorem settled_of_bare {name : String} {node other : GraphNode} (same : node.bare = other.bare) :
    g.settled name node = g.settled name other := by
  obtain ⟨⟩ := node
  obtain ⟨⟩ := other
  simp only [GraphNode.bare, GraphNode.mk.injEq] at same
  simp only [settled, parentEdges, flowingRoles]
  simp_all

/-- Settling a module only looks at the modules that depend on it. -/
theorem settled_congr {next : ModuleGraph} {name : String} {node : GraphNode}
    (same : node.main = false → ∀ parent ∈ node.parents, next.get? parent = g.get? parent) :
    next.settled name node = g.settled name node := by
  unfold settled
  split
  · rfl
  · rename_i ordinary
    have edges : next.parentEdges node name = g.parentEdges node name := by
      refine List.filterMap_congr fun parent member => ?_
      rw [same (by simpa using ordinary) parent member]
    simp only [edges]

theorem get?_settle (name other : String) :
    (g.settle name).get? other =
      if other = name then (g.get? other).map (g.settled name) else g.get? other :=
  get?_update _ _ _

theorem sameShape_settle (name : String) : SameShape g (g.settle name) := by
  refine ⟨rfl, rfl, keys_update _ _, fun other => ?_⟩
  rw [get?_settle]
  split
  · rw [Option.map_map]
    congr 1
    exact funext (bare_settled name)
  · rfl

/-- A module has what settling gives to it. -/
def IsFixed (g : ModuleGraph) (name : String) : Prop :=
  ∀ node, g.get? name = some node → g.settled name node = node

end Settling

/-- How far settling a graph has come: what waits is as it was, waits exactly for what still
waits itself, and keeps waiting all that draws from it. What does not wait has its final value. -/
structure Progress (start : ModuleGraph) (state : ModuleGraph × Waiting) : Prop where
  shape : SameShape start state.1
  ascending : IsAscending state.2.keys
  waits : ∀ name parents, state.2.get? name = some parents →
    ∀ parent, parent ∈ parents ↔ start.Flows parent name ∧ parent ∈ state.2.keys
  closed : ∀ parent child, start.Flows parent child → parent ∈ state.2.keys →
    child ∈ state.2.keys
  founded : ∀ name, name ∉ state.2.keys → Acc start.Flows name
  untouched : ∀ name, name ∈ state.2.keys → state.1.get? name = start.get? name
  fixed : ∀ name, name ∉ state.2.keys → state.1.IsFixed name

section Steps

variable {start : ModuleGraph} {state : ModuleGraph × Waiting}

theorem Flows.contains {parent child : String} (flow : start.Flows parent child) :
    start.contains parent ∧ start.contains child := by
  obtain ⟨⟨node, found, _⟩, kind, edge⟩ := flow
  exact ⟨edge.contains, contains_iff.mpr ⟨node, found⟩⟩

theorem Consistent.flows_iff (h : start.Consistent) {name : String} {node : GraphNode}
    (found : start.get? name = some node) {parent : String} :
    start.Flows parent name ↔ node.main = false ∧ parent ∈ node.parents := by
  rw [h.parents_iff name node found]
  constructor
  · rintro ⟨⟨other, present, ordinary⟩, edge⟩
    rw [found] at present
    cases present
    exact ⟨ordinary, edge⟩
  · rintro ⟨ordinary, edge⟩
    exact ⟨⟨node, found, ordinary⟩, edge⟩

/-- At first every module waits, for all on which it depends. -/
theorem get?_firstWaiting (h : start.Consistent) (name : String) :
    start.firstWaiting.get? name = (start.get? name).map fun node =>
      if node.main then [] else node.parents.filter start.contains := by
  let own (node : GraphNode) : List String :=
    if node.main then [] else node.parents.filter start.contains
  have listed : start.firstWaiting = Assoc.ofPairs (start.nodes.mapValues own) := by
    rw [firstWaiting, Assoc.mapValues]
    congr 1
    refine List.map_congr_left fun pair member => ?_
    exact Prod.ext (h.named _ _ (Assoc.get?_of_mem h.ascending.nodup member)) rfl
  rw [listed, Assoc.get?_ofPairs_of_nodup (by simpa using h.ascending.nodup),
    Assoc.get?_mapValues]
  rfl

theorem mem_firstWaiting (h : start.Consistent) {name : String} :
    name ∈ start.firstWaiting.keys ↔ start.contains name := by
  rw [← Assoc.get?_isSome_iff, get?_firstWaiting h, Option.isSome_map]
  rfl

theorem Progress.first (h : start.Consistent) : Progress start (start, start.firstWaiting) := by
  refine
    { shape := .refl start
      ascending := Assoc.isAscending_ofPairs _
      waits := fun name parents waiting parent => ?_
      closed := fun parent child flow _ => (mem_firstWaiting h).mpr flow.contains.2
      founded := fun name absent => ⟨name, fun parent flow => ?_⟩
      untouched := fun _ _ => rfl
      fixed := fun name absent node found => ?_ }
  · rw [get?_firstWaiting h, Option.map_eq_some_iff] at waiting
    obtain ⟨node, found, rfl⟩ := waiting
    rw [mem_firstWaiting h, h.flows_iff found]
    cases node.main <;> simp
  · exact absurd ((mem_firstWaiting h).mpr flow.contains.2) absent
  · exact absurd ((mem_firstWaiting h).mpr (contains_iff.mpr ⟨node, found⟩)) absent

/-- What a module waits for when it no longer waits for another. -/
def released (g : ModuleGraph) (name child : String) (parents : List String) : List String :=
  if (((g.get? name).map GraphNode.dependencies).getD []).any (·.name = child) then
    parents.filter (· ≠ name)
  else parents

theorem release_eq (g : ModuleGraph) (name : String) (waiting : Waiting) :
    release g name waiting = waiting.mapKeyed (released g name) := rfl

theorem mem_released {g : ModuleGraph} {name child parent : String} {parents : List String} :
    parent ∈ released g name child parents ↔
      parent ∈ parents ∧ ¬ (parent = name ∧ ∃ kind, g.HasEdge name child kind) := by
  have drawn : (((g.get? name).map GraphNode.dependencies).getD []).any (·.name = child) ↔
      ∃ kind, g.HasEdge name child kind := by
    rw [exists_hasEdge_iff]
    cases g.get? name <;> simp
  rw [released]
  split
  · rename_i depends
    simp [drawn.mp depends]
  · rename_i unrelated
    simp [← drawn, unrelated]

theorem mem_keys_advance {name other : String} :
    other ∈ (advance state name).2.keys ↔ other ∈ state.2.keys ∧ other ≠ name := by
  rw [advance, release_eq, Assoc.keys_mapKeyed, Assoc.keys, Assoc.keys, List.mem_map,
    List.mem_map]
  constructor
  · rintro ⟨pair, member, rfl⟩
    rw [List.mem_filter, decide_eq_true_iff] at member
    exact ⟨⟨pair, member.1, rfl⟩, member.2⟩
  · rintro ⟨⟨pair, member, rfl⟩, different⟩
    exact ⟨pair, List.mem_filter.mpr ⟨member, decide_eq_true different⟩, rfl⟩

theorem get?_advance (distinct : state.2.keys.Nodup) {name other : String}
    (different : other ≠ name) :
    (advance state name).2.get? other =
      (state.2.get? other).map (released (state.1.settle name) name other) := by
  rw [advance, release_eq, Assoc.get?_mapKeyed, Assoc.get?_filter distinct]
  cases state.2.get? other <;> simp [different]

/-- A step settles a module that waits for none. -/
theorem Progress.advance (consistent : start.Consistent) (h : Progress start state)
    {name : String} (ready : state.2.get? name = some []) :
    Progress start (advance state name) := by
  have now : state.1.Consistent := h.shape.consistent consistent
  have waited : name ∈ state.2.keys := Assoc.mem_keys_of_get? ready
  -- nothing that waits flows into the ready module
  have free (parent : String) (flow : start.Flows parent name) : parent ∉ state.2.keys := by
    intro waiting
    simpa using (h.waits name [] ready parent).mpr ⟨flow, waiting⟩
  have shape : SameShape start (ModuleGraph.advance state name).1 :=
    h.shape.trans (sameShape_settle name)
  refine
    { shape := shape
      ascending := ?_
      waits := fun other parents waiting parent => ?_
      closed := fun parent child flow waiting => ?_
      founded := fun other absent => ?_
      untouched := fun other waiting => ?_
      fixed := fun other absent node found => ?_ }
  · rw [ModuleGraph.advance, release_eq, Assoc.keys_mapKeyed]
    exact h.ascending.sublist (Assoc.keys_filter_sublist _ _)
  · have different : other ≠ name :=
      (mem_keys_advance.mp (Assoc.mem_keys_of_get? waiting)).2
    rw [get?_advance h.ascending.nodup different, Option.map_eq_some_iff] at waiting
    obtain ⟨before, waiting, rfl⟩ := waiting
    rw [mem_released, mem_keys_advance, h.waits other before waiting, and_assoc]
    refine and_congr_right fun flow => and_congr_right fun _ => not_congr ?_
    refine and_iff_left_of_imp fun same => ?_
    obtain ⟨kind, edge⟩ := flow.2
    exact ⟨kind, same ▸ shape.hasEdge edge⟩
  · rw [mem_keys_advance] at waiting ⊢
    refine ⟨h.closed parent child flow waiting.1, ?_⟩
    rintro rfl
    exact free parent flow waiting.1
  · rw [mem_keys_advance, not_and_not_right] at absent
    by_cases waiting : other ∈ state.2.keys
    · obtain rfl := absent waiting
      exact ⟨_, fun parent flow => h.founded parent (free parent flow)⟩
    · exact h.founded other waiting
  · rw [mem_keys_advance] at waiting
    rw [ModuleGraph.advance, get?_settle, if_neg waiting.2]
    exact h.untouched other waiting.1
  · rw [mem_keys_advance, not_and_not_right] at absent
    rw [ModuleGraph.advance, get?_settle] at found
    by_cases same : other = name
    · -- the step changes no module that the settled one draws from
      subst same
      rw [if_pos rfl, Option.map_eq_some_iff] at found
      obtain ⟨old, present, rfl⟩ := found
      rw [settled_of_bare (bare_settled other old)]
      refine settled_congr fun ordinary parent member => ?_
      obtain ⟨kind, edge⟩ := (now.parents_iff other old present parent).mp member
      rw [ModuleGraph.advance, get?_settle, if_neg (now.known parent other kind edge).2.symm]
    · -- nor one that a module settled before draws from
      rw [if_neg same] at found
      have settledBefore : other ∉ state.2.keys := fun waiting => same (absent waiting)
      have final := h.fixed other settledBefore node found
      refine (settled_congr fun ordinary parent member => ?_).trans final
      rw [ModuleGraph.advance, get?_settle, if_neg]
      rintro rfl
      have flow : state.1.Flows parent other :=
        (now.flows_iff found).mpr ⟨ordinary, member⟩
      exact settledBefore (h.closed parent other (h.shape.symm.flows flow) waited)

end Steps

/-- One round: settle every module that is ready. -/
def round (state : ModuleGraph × Waiting) : ModuleGraph × Waiting :=
  (ready state.2).foldl advance state

section Runs

variable {start : ModuleGraph} {state : ModuleGraph × Waiting}

theorem mem_ready {waiting : Waiting} (distinct : waiting.keys.Nodup) {name : String} :
    name ∈ ready waiting ↔ waiting.get? name = some [] := by
  rw [ready, List.mem_map, ← Assoc.mem_iff_get? distinct]
  constructor
  · rintro ⟨⟨key, parents⟩, member, rfl⟩
    obtain ⟨member, isEmpty⟩ := List.mem_filter.mp member
    rwa [List.isEmpty_iff.mp isEmpty] at member
  · intro member
    exact ⟨(name, []), List.mem_filter.mpr ⟨member, rfl⟩, rfl⟩

/-- Modules that are ready stay ready until their turn comes. -/
theorem Progress.foldl (consistent : start.Consistent) (names : List String)
    (distinct : names.Nodup) (h : Progress start state)
    (ready : ∀ name ∈ names, state.2.get? name = some []) :
    Progress start (names.foldl ModuleGraph.advance state) := by
  induction names generalizing state with
  | nil => exact h
  | cons first rest ih =>
      rw [List.nodup_cons] at distinct
      refine ih distinct.2 (h.advance consistent (ready first List.mem_cons_self)) ?_
      intro name member
      have different : name ≠ first := by
        rintro rfl
        exact distinct.1 member
      rw [get?_advance h.ascending.nodup different, ready name (List.mem_cons_of_mem _ member)]
      simp [released]

theorem Progress.round (consistent : start.Consistent) (h : Progress start state) :
    Progress start (round state) := by
  have distinct : (ready state.2).Nodup :=
    (Assoc.keys_filter_sublist _ _).nodup h.ascending.nodup
  exact h.foldl consistent _ distinct fun name member =>
    (mem_ready h.ascending.nodup).mp member

theorem Progress.rounds (consistent : start.Consistent) (h : Progress start state) (n : Nat) :
    Progress start (ModuleGraph.round^[n] state) := by
  induction n generalizing state with
  | zero => exact h
  | succ n ih => exact ih (h.round consistent)

theorem length_advance_le (name : String) : (advance state name).2.length ≤ state.2.length := by
  rw [advance, release_eq, Assoc.mapKeyed, List.length_map]
  exact List.length_filter_le _ _

theorem length_foldl_advance_le (names : List String) :
    (names.foldl advance state).2.length ≤ state.2.length := by
  induction names generalizing state with
  | nil => exact Nat.le_refl _
  | cons first rest ih => exact Nat.le_trans ih (length_advance_le first)

/-- A round in which a module is ready leaves fewer waiting. -/
theorem length_round_lt (some : ready state.2 ≠ []) : (round state).2.length < state.2.length := by
  rw [round]
  cases names : ready state.2 with
  | nil => exact absurd names some
  | cons first rest =>
      have waiting : first ∈ ready state.2 := by simp [names]
      rw [ready, List.mem_map] at waiting
      obtain ⟨pair, member, rfl⟩ := waiting
      have fewer : (advance state pair.1).2.length < state.2.length := by
        rw [advance, release_eq, Assoc.mapKeyed, List.length_map,
          List.length_filter_lt_length_iff_exists]
        exact ⟨pair, (List.mem_filter.mp member).1, by simp⟩
      exact Nat.lt_of_le_of_lt (length_foldl_advance_le rest) fewer

/-- Settling goes on as long as a module is ready, and needs no more rounds than modules wait. -/
theorem settleAll_eq_rounds (state : ModuleGraph × Waiting) (fuel : Nat)
    (enough : state.2.length ≤ fuel) :
    ∃ n ≤ state.2.length, ready (round^[n] state).2 = [] ∧
      settleAll fuel state.1 state.2 =
        (if (round^[n] state).2 = [] then .ok () else .error (round^[n] state).2.keys,
          (round^[n] state).1) := by
  induction fuel generalizing state with
  | zero =>
      obtain ⟨g, waiting⟩ := state
      obtain rfl : waiting = [] := List.length_eq_zero_iff.mp (Nat.le_zero.mp enough)
      exact ⟨0, Nat.le_refl _, rfl, rfl⟩
  | succ fuel ih =>
      obtain ⟨g, waiting⟩ := state
      cases names : ready waiting with
      | nil =>
          refine ⟨0, Nat.zero_le _, names, ?_⟩
          cases waiting with
          | nil => rfl
          | cons pair rest => simp [settleAll, names]
      | cons first others =>
          have fewer : (round (g, waiting)).2.length < (g, waiting).2.length :=
            length_round_lt (by simp [names])
          obtain ⟨n, within, stuck, answer⟩ := ih (round (g, waiting)) (by omega)
          refine ⟨n + 1, by omega, stuck, ?_⟩
          rw [Function.iterate_succ_apply, ← answer, round]
          cases waiting with
          | nil => simp [ready] at names
          | cons pair rest => simp [settleAll, names]

/-- When no module is ready, those that wait are those below which dependencies never end. -/
theorem Progress.mem_keys_iff (h : Progress start state) (stuck : ready state.2 = [])
    {name : String} : name ∈ state.2.keys ↔ ¬ Acc start.Flows name := by
  refine ⟨fun waiting ends => ?_, fun endless => by_contra fun absent =>
    endless (h.founded name absent)⟩
  induction ends with
  | intro name _ ih =>
      obtain ⟨parents, waitsFor⟩ := Option.isSome_iff_exists.mp (Assoc.get?_isSome_iff.mpr waiting)
      cases parents with
      | nil =>
          have member := (mem_ready h.ascending.nodup).mpr waitsFor
          simp [stuck] at member
      | cons parent rest =>
          obtain ⟨flow, also⟩ := (h.waits name _ waitsFor parent).mp List.mem_cons_self
          exact ih parent flow also

/-- A module that has its final values and is a root of roles has the standard role alone. -/
theorem IsFixed.roles_of_roleRoot {g : ModuleGraph} {name : String} (fixed : g.IsFixed name)
    {node : GraphNode} (found : g.get? name = some node) (isRoot : node.roleRoot = true) :
    node.roles = [.standard] := by
  rw [← fixed node found, settled]
  split <;> simp [isRoot]

theorem resetRoots_eq {g : ModuleGraph} (distinct : g.nodes.keys.Nodup)
    (fixed : ∀ name, g.IsFixed name) : g.resetRoots = g := by
  have same : g.nodes.mapValues (fun node =>
      if node.roleRoot then { node with roles := [.standard] } else node) = g.nodes := by
    rw [Assoc.mapValues]
    refine (List.map_congr_left fun pair member => ?_).trans (List.map_id _)
    obtain ⟨name, node⟩ := pair
    refine Prod.ext rfl ?_
    change (if node.roleRoot then { node with roles := [.standard] } else node) = node
    split
    · rename_i isRoot
      rw [← (fixed name).roles_of_roleRoot (Assoc.get?_of_mem distinct member) isRoot]
    · rfl
  rw [resetRoots, same]

theorem length_firstWaiting (h : start.Consistent) : start.firstWaiting.length = start.size := by
  have keys : start.firstWaiting.keys = start.nodes.keys := by
    refine (Progress.first h).ascending.ext h.ascending fun name => ?_
    rw [mem_firstWaiting h, ModuleGraph.contains, Assoc.has_iff]
  have lengths := congrArg List.length keys
  rwa [Assoc.keys, Assoc.keys, List.length_map, List.length_map] at lengths

/-- Settling a graph is a run of rounds to where no module is ready, in at most as many rounds as
there are modules. -/
theorem complete_eq_rounds (h : start.Consistent) :
    ∃ n ≤ start.size, ∃ last, last = ModuleGraph.round^[n] (start, start.firstWaiting) ∧
      Progress start last ∧ ready last.2 = [] ∧
      start.complete =
        (if last.2 = [] then .ok () else .error (.circular last.2.keys), last.1) := by
  obtain ⟨n, within, stuck, answer⟩ := settleAll_eq_rounds
    (start, start.firstWaiting) start.firstWaiting.length (Nat.le_refl _)
  have progress := (Progress.first h).rounds h n
  refine ⟨n, length_firstWaiting h ▸ within, _, rfl, progress, stuck, ?_⟩
  generalize ModuleGraph.round^[n] (start, start.firstWaiting) = last at *
  rw [complete, answer]
  by_cases allSettled : last.2 = []
  · have fixed (name : String) : last.1.IsFixed name := progress.fixed name (by simp [allSettled])
    have distinct := (progress.shape.consistent h).ascending.nodup
    simp only [if_pos allSettled, resetRoots_eq distinct fixed]
  · simp only [if_neg allSettled]

end Runs

end ModuleGraph

end WorkspaceBuild
